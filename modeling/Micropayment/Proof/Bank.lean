import Micropayment.Bank
import Micropayment.Proof.Accounts
import Micropayment.Proof.Rows
import Micropayment.Proof.Session

/-!
# The database refines the bank

`bankOf t` is what the table stands for. Every call is answered as the bank answers its request
(`answer_eq`) and leaves what the bank leaves (`bankOf_run`), with what a transfer costs rounded up
and what it brings rounded down; so every sequence of calls does what the bank does
(`calls_refine`).
-/

set_option autoImplicit false

namespace Micropayment

def bankOf (t : Table) : Bank Str (Str × Int) Int Int where
  balance u := (t.find? u).map Client.balance
  session u := ((t.find? u).filter Client.online).map fun r => (r.endpoint, r.privatePort)

def Call.request : Call → Bank.Request Str (Str × Int) Int Int
  | register u _ => .register u
  | login u ip publicPort privatePort => .login u (ip, publicPort) privatePort
  | logout ip publicPort => .logout (ip, publicPort)
  | transaction snd rcv pay => .transfer snd rcv ⌈pay⌉ ⌊pay⌋

def Status.answer : Status → Bank.Answer
  | registerOk | loginSuccess | logoutSuccess | transferOk => .granted
  | registerFail => .taken
  | loginAuthFail => .unknown
  | loginExist => .busy
  | logoutFail => .nobody
  | transferSelfFail => .toSelf
  | transferFail => .refused
  | transferSenderBankrupt => .broke

/-- The codes from 200 on are those of requests that are not granted. -/
theorem Status.answer_granted (st : Status) : st.answer = .granted ↔ st.code < 200 := by
  cases st <;> simp [answer, code]

section
variable {t : Table} {u : Str}

theorem bankOf_session {c : Client} (h : t.find? u = some c) :
    (bankOf t).session u = if c.online then some (c.endpoint, c.privatePort) else none := by
  simp only [bankOf, h]
  cases ho : c.online with
  | true => simp [Option.filter, ho]
  | false => simp [Option.filter, ho]

theorem bankOf_session_none (h : t.find? u = none) : (bankOf t).session u = none := by
  simp [bankOf, h]

theorem bankOf_session_eq_none : (bankOf t).session u = none ↔ ¬ HasSession t u := by
  rw [hasSession_iff]
  cases h : t.find? u with
  | none => simp [bankOf_session_none h]
  | some c => simp [bankOf_session h]

theorem at_iff {ip : Str} {port : Int} :
    (bankOf t).At (ip, port) u ↔ ∃ r ∈ t.getAll (Client.onlineAt ip port), r.username = u := by
  unfold Bank.At
  constructor
  · rintro ⟨d, hd⟩
    cases h : t.find? u with
    | none =>
      rw [bankOf_session_none h] at hd
      cases hd
    | some r =>
      rw [bankOf_session h] at hd
      split at hd
      · rename_i ho
        simp only [Option.some.injEq, Prod.mk.injEq] at hd
        exact ⟨r, OnlineAt.mem_onlineAt.2 ⟨Keyed.find?_mem h, ho, hd.1⟩, Keyed.find?_key h⟩
      · cases hd
  · rintro ⟨r, hr, rfl⟩
    obtain ⟨hm, ho, he⟩ := OnlineAt.mem_onlineAt.1 hr
    refine ⟨r.privatePort, ?_⟩
    rw [bankOf_session (Keyed.find?_of_mem hm), if_pos ho, he]

/-- `checkUser.size() == 1`: exactly one user is at the endpoint. -/
theorem existsUnique_at {ip : Str} {port : Int} :
    (∃! u, (bankOf t).At (ip, port) u) ↔
      ∃ user, t.getAll (Client.onlineAt ip port) = [user] := by
  constructor
  · rintro ⟨u, hu, hone⟩
    obtain ⟨user, huser, rfl⟩ := at_iff.1 hu
    refine ⟨user, ?_⟩
    have hall : ∀ r ∈ t.getAll (Client.onlineAt ip port), r = user := by
      intro r hr
      apply Keyed.eq_of_key (Keyed.mem_getAll.1 hr).1 (Keyed.mem_getAll.1 huser).1
      exact hone _ (at_iff.2 ⟨r, hr, rfl⟩)
    have hnodup : (t.getAll (Client.onlineAt ip port)).Nodup :=
      (List.Nodup.of_map _ t.nodup).filter _
    rw [List.eq_replicate_of_mem hall] at hnodup ⊢
    have hle := List.nodup_replicate.1 hnodup
    have hpos := List.length_pos_of_mem huser
    rw [show (t.getAll (Client.onlineAt ip port)).length = 1 by omega]
    rfl
  · rintro ⟨user, huser⟩
    have hmem : ∀ u, (bankOf t).At (ip, port) u ↔ u = user.username := by
      intro u
      rw [at_iff, huser]
      simp [eq_comm]
    exact ⟨user.username, (hmem _).2 rfl, fun u hu => (hmem u).1 hu⟩

end

/-- **Every call is answered as the bank answers it.** -/
theorem answer_eq (t : Table) (c : Call) : (c.status t).answer = (bankOf t).answer c.request := by
  classical
  cases c with
  | register u ip =>
    simp only [Call.status, Call.prog, Call.request, Bank.answer, userRegister_run]
    cases h : t.find? u <;> simp [bankOf, h, Status.answer]
  | login u ip pub priv =>
    simp only [Call.status, Call.prog, Call.request, Bank.answer, userLogin_run]
    cases h : t.find? u with
    | none => simp [bankOf, h, Status.answer]
    | some c =>
      rw [bankOf_session h]
      cases ho : c.online with
      | true => simp [bankOf, h, ho, Status.answer]
      | false => simp [bankOf, h, ho, Status.answer]
  | logout ip pub =>
    simp only [Call.status, Call.prog, Call.request, Bank.answer, existsUnique_at]
    rcases userLogout_run t ip pub with ⟨user, hu, hrun⟩ | ⟨hn, hrun⟩
    · rw [hrun, if_pos ⟨user, hu⟩]
      rfl
    · rw [hrun, if_neg (not_exists.2 hn)]
      rfl
  | transaction snd rcv pay =>
    simp only [Call.status, Call.prog, Call.request, Bank.answer, bankOf_session_eq_none,
      Int.ceil_le, Int.cast_zero]
    rcases userTransaction_cases t snd rcv pay with ⟨heq, hrun⟩ | ⟨hne, hfail, hrun⟩ |
      ⟨s, hne, hpos, hs, hsnd, hrcv, hpoor, hrun⟩ | ⟨s, r, ht, hrun⟩
    · rw [hrun, if_pos heq]
      rfl
    · rw [hrun, if_neg hne, if_pos hfail]
      rfl
    · have hgo : ¬ (pay ≤ 0 ∨ ¬ HasSession t snd ∨ ¬ HasSession t rcv) := by
        simp [hpos, hsnd, hrcv]
      rw [hrun, if_neg hne, if_neg hgo, if_pos ?_]
      · rfl
      · simpa [bankOf, hs, Int.lt_ceil] using hpoor
    · have hgo : ¬ (pay ≤ 0 ∨ ¬ HasSession t snd ∨ ¬ HasSession t rcv) := by
        simp [ht.pos, ht.hasSession]
      rw [hrun, if_neg ht.ne, if_neg hgo, if_neg ?_]
      · rfl
      · simpa [bankOf, ht.sender, Int.lt_ceil] using ht.funds

/-! ## What a granted request changes -/

section
variable {t : Table}

theorem bankOf_balance {u : Str} {r : Client} (h : t.find? u = some r) :
    (bankOf t).balance u = some r.balance := by
  simp [bankOf, h]

/-- An `UPDATE`, one user at a time. -/
theorem bankOf_update {r old : Client} (h : t.find? r.username = some old) (u : Str) :
    (bankOf (t.update r)).balance u =
        (if r.username = u then some r.balance else (bankOf t).balance u) ∧
      (bankOf (t.update r)).session u =
        if r.username = u then (if r.online then some (r.endpoint, r.privatePort) else none)
        else (bankOf t).session u := by
  have hfind := Keyed.find?_written h (.inl rfl) u
  by_cases hu : r.username = u
  · rw [if_pos hu] at hfind
    rw [bankOf_session hfind, bankOf_balance hfind, if_pos hu, if_pos hu]
    exact ⟨rfl, rfl⟩
  · rw [if_neg hu] at hfind
    simp [bankOf, hfind, hu]

theorem bankOf_register {u : Str} (h : t.find? u = none) :
    bankOf (t.replace (newUser u)) = (bankOf t).granted initialBalance (.register u) := by
  have hfind : ∀ v, (t.replace (newUser u)).find? v =
      if u = v then some (newUser u) else t.find? v := Keyed.find?_replace t (newUser u)
  apply Bank.ext
  all_goals
    intro v
    by_cases hv : u = v
  · subst hv
    rw [bankOf_balance ((hfind u).trans (if_pos rfl))]
    simp [Bank.granted, newUser]
  · simp [bankOf, Bank.granted, hfind, hv, Ne.symm hv]
  · subst hv
    rw [bankOf_session ((hfind u).trans (if_pos rfl))]
    simp [Bank.granted, bankOf_session_none h, newUser, Client.online]
  · simp [bankOf, Bank.granted, hfind, hv]

theorem bankOf_login {u ip : Str} {pub priv : Int} {user : Client} (h : t.find? u = some user) :
    bankOf (t.update (user.login ip pub priv)) =
      (bankOf t).granted initialBalance (.login u (ip, pub) priv) := by
  obtain rfl := Keyed.find?_key h
  apply Bank.ext
  all_goals
    intro v
    obtain ⟨hb, hs⟩ := bankOf_update (r := user.login ip pub priv) h v
    rw [Client.login_username] at hb hs
  · rw [hb]
    split
    · rename_i hv
      rw [← hv]
      exact (bankOf_balance h).symm
    · rfl
  · rw [hs]
    by_cases hv : user.username = v
    · simp [Bank.granted, hv, Client.login, Client.online, Client.endpoint]
    · simp [Bank.granted, hv, Ne.symm hv]

theorem bankOf_logout {ip : Str} {pub : Int} {user : Client}
    (h : t.getAll (Client.onlineAt ip pub) = [user]) :
    bankOf (t.update user.logout) = (bankOf t).granted initialBalance (.logout (ip, pub)) := by
  have hm := (Keyed.mem_getAll.1 (h ▸ List.mem_singleton_self user)).1
  have hfind : t.find? user.logout.username = some user := Keyed.find?_of_mem hm
  have hat : ∀ v, (bankOf t).At (ip, pub) v ↔ user.username = v := by
    intro v
    rw [at_iff, h]
    simp
  apply Bank.ext
  all_goals
    intro v
    obtain ⟨hb, hs⟩ := bankOf_update hfind v
    rw [Client.logout_username] at hb hs
  · rw [hb]
    split
    · rename_i hv
      rw [← hv]
      exact (bankOf_balance hfind).symm
    · rfl
  · rw [hs]
    by_cases hv : user.username = v
    · simp [Bank.granted, hat, hv, Client.logout, Client.online]
    · simp [Bank.granted, hat, hv]

theorem bankOf_transfer {snd rcv : Str} {pay : ℚ} {s r : Client} (hf : Funded t)
    (h : Transfers t snd rcv pay s r) :
    bankOf ((t.update (s.debit pay)).update (r.credit pay)) =
      (bankOf t).granted initialBalance (.transfer snd rcv ⌈pay⌉ ⌊pay⌋) := by
  have hbalance := credit_balance (hf r (Keyed.find?_mem h.receiver)) h.pos
  apply Bank.ext
  all_goals
    intro v
    have hfind := h.find?_after v
    by_cases hr : rcv = v
  · subst hr
    rw [if_pos rfl] at hfind
    rw [bankOf_balance hfind, hbalance]
    simp [Bank.granted, bankOf_balance h.receiver]
  · rw [if_neg hr] at hfind
    by_cases hs : snd = v
    · subst hs
      rw [if_pos rfl] at hfind
      rw [bankOf_balance hfind, debit_balance h.funds]
      simp [Bank.granted, hr, bankOf_balance h.sender]
    · rw [if_neg hs] at hfind
      simp [bankOf, Bank.granted, hfind, hr, hs]
  · subst hr
    rw [if_pos rfl] at hfind
    rw [bankOf_session hfind]
    exact (bankOf_session h.receiver).symm
  · rw [if_neg hr] at hfind
    by_cases hs : snd = v
    · subst hs
      rw [if_pos rfl] at hfind
      rw [bankOf_session hfind]
      exact (bankOf_session h.sender).symm
    · rw [if_neg hs] at hfind
      simp [bankOf, Bank.granted, hfind]

end

/-- **Every call leaves what the bank leaves.** -/
theorem bankOf_run {t : Table} (hf : Funded t) (c : Call) :
    bankOf (c.prog.run t).2 = (bankOf t).after initialBalance c.request := by
  have hgranted : c.status t ∈ [.registerOk, .loginSuccess, .logoutSuccess, .transferOk] →
      (bankOf t).after initialBalance c.request =
        (bankOf t).granted initialBalance c.request := by
    intro hst
    unfold Bank.after
    rw [← answer_eq, if_pos]
    simp only [List.mem_cons, List.not_mem_nil, or_false] at hst
    rcases hst with hst | hst | hst | hst <;> rw [hst] <;> rfl
  rcases c.outcome t with ⟨hcode, hrun⟩ | ⟨u, ip, rfl, hu, hst, hrun⟩ |
    ⟨u, ip, pub, priv, user, rfl, hu, -, hst, hrun⟩ | ⟨ip, pub, user, rfl, hu, hst, hrun⟩ |
    ⟨snd, rcv, pay, s, r, rfl, ht, hst, hrun⟩
  · unfold Bank.after
    rw [hrun, ← answer_eq, if_neg]
    rw [Status.answer_granted]
    omega
  · rw [hrun, hgranted (by simp [hst])]
    exact bankOf_register hu
  · rw [hrun, hgranted (by simp [hst])]
    exact bankOf_login hu
  · rw [hrun, hgranted (by simp [hst])]
    exact bankOf_logout hu
  · rw [hrun, hgranted (by simp [hst])]
    exact bankOf_transfer hf ht

/-- **The database is the bank**: after any calls from the empty table it stands for what the bank
has come to by their requests, and it answers the next one as the bank does. -/
theorem calls_refine (calls : List Call) :
    Run (Bank.step initialBalance) Any Bank.empty (calls.map Call.request)
        (bankOf (tableAfter calls)) ∧
      ∀ c : Call, (c.status (tableAfter calls)).answer =
        (bankOf (tableAfter calls)).answer c.request := by
  refine ⟨?_, answer_eq (tableAfter calls)⟩
  induction calls using List.reverseRecOn with
  | nil => exact .nil _
  | append_singleton calls c ih =>
    rw [List.map_append, tableAfter_append, bankOf_run (solvent calls).1]
    exact ih.append (.one trivial rfl)

end Micropayment
