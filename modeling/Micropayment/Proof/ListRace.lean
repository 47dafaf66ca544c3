import Micropayment.Proof.ListInfo
import Micropayment.Proof.ReplySize

/-!
# The list while others log in and out

The LIST and LOGIN branches read the table three times for one reply: `user_info`, `user_num` and
`user_list_info` (`replyReads`). `all_lines_iff` lets other connections' calls run before each of
these reads: the client gets all lines exactly if as many sessions begin as end between the last
two. `logout_breaks_list` is a list with one line too few.
-/

set_option autoImplicit false

namespace Micropayment

/-- The reads for a list reply, after the checks of LIST or the `user_login` of LOGIN; `none` is
`user_info`'s access past the end. -/
def replyReads (username : Str) : Prog Client (Option Str) :=
  .getAll (fun c => c.username = username) fun users =>
  match users.head? with
  | none => .ret none
  | some user =>
    .getAll Client.online fun counted =>
    .getAll Client.online fun listed =>
    .ret (some (toStr user.balance ++ "\n".toList ++ (toStr counted.length ++ "\n".toList) ++
      listed.flatMap fun r => listLine r.username r.ip r.privatePort))

/-- A call that only reads, with other calls executed before each of its reads. -/
def readAmong {α : Type} : Prog Client α → List (List Call) → Table → Option α
  | .ret a, _, _ => some a
  | .getAll p k, calls :: rest, t =>
    (runAll Call.exec t calls).bind fun t' => readAmong (k (t'.getAll p)) rest t'
  | _, _, _ => none

/-- The number on the second line of the reply is the number of lines after it, and
`parse_list_info` reads them all. -/
def AllLines (reply : Str) : Prop :=
  ∃ info, parseListInfo reply = .ok info ∧
    info.onlineNum = ((split reply "\n".toList).drop 2).length ∧
    info.peerList = ((split reply "\n".toList).drop 2).map fun line => split line "#".toList

/-- The results of the calls, one after another. -/
def statuses : Table → List Call → List Status
  | _, [] => []
  | t, c :: calls => c.status t :: statuses (c.prog.run t).2 calls

/-- As many sessions begin as end. -/
def Balanced (t : Table) (calls : List Call) : Prop :=
  (statuses t calls).count .loginSuccess = (statuses t calls).count .logoutSuccess

instance (t : Table) (calls : List Call) : Decidable (Balanced t calls) :=
  inferInstanceAs (Decidable (_ = _))

/-- No newline and no NUL: `inet_ntoa` writes neither. -/
def Plain (s : Str) : Prop := '\n' ∉ s ∧ '\x00' ∉ s

def PlainRow (r : Client) : Prop := Plain r.username ∧ Plain r.ip

/-- The names and addresses that the call brings into the table. -/
def Call.Plain : Call → Prop
  | .register username _ => Micropayment.Plain username
  | .login _ ip _ _ => Micropayment.Plain ip
  | _ => True

/-! ## One call -/

section
variable {t t' : Table} {c : Call}

/-- A row written over an offline one is counted if it is online. -/
theorem onlineCount_update {w old : Client} (hm : old ∈ t.rows) (hk : w.username = old.username) :
    onlineCount (t.update w) + (if old.online then 1 else 0) =
      onlineCount t + (if w.online then 1 else 0) := by
  refine Keyed.total_update _ ?_
  rw [hk]
  exact Keyed.find?_of_mem hm

/-- **One call** adds one to the users online if it logs in, and takes one if it logs out. -/
theorem onlineCount_exec (hs : Call.exec t c = some t') :
    onlineCount t' + [c.status t].count .logoutSuccess =
      onlineCount t + [c.status t].count .loginSuccess := by
  obtain rfl : (c.prog.run t).2 = t' := Option.some.inj hs
  rcases Call.outcome t c with ⟨hcode, hafter⟩ | ⟨u, ip, rfl, hu, hst, hafter⟩ |
    ⟨u, ip, pub, priv, user, rfl, hu, ho, hst, hafter⟩ | ⟨ip, pub, user, rfl, hu, hst, hafter⟩ |
    ⟨snd, rcv, pay, a, b, rfl, ht, hst, hafter⟩
  · have hne : ∀ st : Status, st.code < 200 → c.status t ≠ st := by
      rintro st hst rfl
      omega
    rw [hafter, List.count_singleton, List.count_singleton,
      if_neg (by simpa using hne .logoutSuccess (by simp [Status.code])),
      if_neg (by simpa using hne .loginSuccess (by simp [Status.code]))]
  · rw [hst, hafter]
    exact Keyed.total_replace_new _ hu
  · have h := onlineCount_update (w := user.login ip pub priv) (Keyed.find?_mem hu) rfl
    rw [ho] at h
    rw [hst, hafter]
    exact h
  · have hm := OnlineAt.mem_onlineAt.1 (hu ▸ List.mem_singleton_self user)
    have h := onlineCount_update (w := user.logout) hm.1 rfl
    rw [hm.2.1] at h
    rw [hst, hafter]
    exact h
  · have hdebit := onlineCount_update (w := a.debit pay) (Keyed.find?_mem ht.sender) rfl
    have hcredit := onlineCount_update (w := b.credit pay) (Keyed.find?_mem ht.find?_rcv) rfl
    rw [ht.senderOnline, show (a.debit pay).online = a.online from rfl, ht.senderOnline] at hdebit
    rw [ht.receiverOnline, show (b.credit pay).online = b.online from rfl,
      ht.receiverOnline] at hcredit
    rw [hst, hafter, List.count_singleton, List.count_singleton, if_neg (by simp),
      if_neg (by simp)]
    omega

theorem plainRow_exec (h : ∀ r ∈ t.rows, PlainRow r) (hc : c.Plain)
    (hs : Call.exec t c = some t') : ∀ r ∈ t'.rows, PlainRow r := by
  have hnil : Plain [] := ⟨List.not_mem_nil, List.not_mem_nil⟩
  have hupdate : ∀ {t : Table}, (∀ r ∈ t.rows, PlainRow r) → ∀ {w : Client}, PlainRow w →
      ∀ r ∈ (t.update w).rows, PlainRow r := by
    intro t h w hw r hr
    rcases Keyed.mem_update hr with rfl | ⟨hr, -⟩
    · exact hw
    · exact h r hr
  rcases Call.run_cases hs with ⟨rfl, -⟩ | ⟨u, ip, rfl, -, rfl⟩ |
    ⟨u, ip, pub, priv, user, rfl, hu, -, rfl⟩ | ⟨ip, pub, user, rfl, hu, rfl⟩ |
    ⟨snd, rcv, pay, a, b, rfl, ht, rfl⟩
  · exact h
  · intro r hr
    rcases Keyed.mem_replace.1 hr with rfl | ⟨hr, -⟩
    · exact ⟨hc, hnil⟩
    · exact h r hr
  · exact hupdate h ⟨(h user (Keyed.find?_mem hu)).1, hc⟩
  · have hm := (Keyed.mem_getAll.1 (hu ▸ List.mem_singleton_self user)).1
    exact hupdate h ⟨(h user hm).1, hnil⟩
  · have ha := hupdate (w := a.debit pay) h (h a (Keyed.find?_mem ht.sender))
    exact hupdate (w := b.credit pay) ha (h b (Keyed.find?_mem ht.receiver))

end

/-! ## Calls between the reads -/

section
variable {t t' : Table} {calls : List Call}

theorem runAll_calls (t : Table) (calls : List Call) :
    ∃ t', runAll Call.exec t calls = some t' := by
  induction calls generalizing t with
  | nil => exact ⟨t, rfl⟩
  | cons c calls ih => exact ih (c.prog.run t).2

theorem onlineCount_run (h : runAll Call.exec t calls = some t') :
    onlineCount t' + (statuses t calls).count .logoutSuccess =
      onlineCount t + (statuses t calls).count .loginSuccess := by
  induction calls generalizing t with
  | nil =>
    cases h
    rfl
  | cons c calls ih =>
    have hstep : Call.exec t c = some (c.prog.run t).2 := rfl
    have hrest := ih h
    have hone := onlineCount_exec hstep
    have hcons : statuses t (c :: calls) = [c.status t] ++ statuses (c.prog.run t).2 calls := rfl
    rw [hcons, List.count_append, List.count_append]
    omega

theorem plainRow_run (hrows : ∀ r ∈ t.rows, PlainRow r) (hc : ∀ c ∈ calls, c.Plain)
    (h : runAll Call.exec t calls = some t') : ∀ r ∈ t'.rows, PlainRow r := by
  induction calls generalizing t with
  | nil =>
    cases h
    exact hrows
  | cons c calls ih =>
    exact ih (plainRow_exec hrows (hc c List.mem_cons_self) rfl)
      (fun x hx => hc x (List.mem_cons_of_mem c hx)) h

/-- A reply of `n` before the lines of the table: all lines are read exactly if there are `n`. -/
theorem allLines_reply (hrows : ∀ r ∈ t.rows, PlainRow r) {balance : Int}
    (hb : -2 ^ 31 ≤ balance ∧ balance < 2 ^ 31) (n : Nat) :
    AllLines (toStr balance ++ "\n".toList ++ (toStr n ++ "\n".toList) ++ userListInfo t) ↔
      n = onlineCount t ∧ n + 2 < 2 ^ 31 := by
  have hlines : ∀ r ∈ list t true, IsToken "\n".toList (lineText r) := by
    intro r hr
    obtain ⟨hu, hip⟩ := hrows r (mem_list.1 hr).1
    exact isToken_lineText hu hip
  have hcount : (list t true).length = onlineCount t := by
    have := userNum_eq t
    unfold userNum at this
    exact_mod_cast this
  unfold AllLines
  rw [split_listLines hlines, List.drop_succ_cons, List.drop_succ_cons, List.drop_zero,
    List.length_map, List.map_map, hcount]
  by_cases hn : n < 2 ^ 31
  · rw [parseListInfo_eq hlines hb hn, hcount]
    constructor
    · rintro ⟨info, hinfo, hnum, -⟩
      split at hinfo
      · rename_i hle
        obtain rfl := Except.ok.inj hinfo
        exact ⟨Int.ofNat_inj.1 hnum, hle.2⟩
      · cases hinfo
    · rintro ⟨rfl, hlt⟩
      refine ⟨_, if_pos ⟨le_rfl, hlt⟩, rfl, ?_⟩
      rw [← hcount, List.take_length]
      rfl
  · rw [parseListInfo_throws hlines hb (by omega)]
    constructor
    · rintro ⟨info, hinfo, -⟩
      cases hinfo
    · rintro ⟨-, hlt⟩
      omega

end

/-- **A list is read whole** exactly if, between the reads of the number and of the lines, as many
sessions begin as end (and the client can count the users). -/
theorem all_lines_iff {t t₂ : Table} {u : Str} {user : Client} {early between : List Call}
    (hrows : ∀ r ∈ t.rows, PlainRow r) (hcalls : ∀ c ∈ early ++ between, c.Plain)
    (hu : t.find? u = some user) (hb : -2 ^ 31 ≤ user.balance ∧ user.balance < 2 ^ 31)
    (hearly : runAll Call.exec t early = some t₂) :
    ∃ reply, readAmong (replyReads u) [[], early, between] t = some (some reply) ∧
      (AllLines reply ↔ Balanced t₂ between ∧ onlineCount t₂ + 2 < 2 ^ 31) := by
  obtain ⟨t₃, hbetween⟩ := runAll_calls t₂ between
  have hrows₂ := plainRow_run hrows (fun c hc => hcalls c (List.mem_append_left _ hc)) hearly
  have hrows₃ := plainRow_run hrows₂ (fun c hc => hcalls c (List.mem_append_right _ hc)) hbetween
  have hcount := onlineCount_run hbetween
  refine ⟨toStr user.balance ++ "\n".toList ++ (toStr (onlineCount t₂) ++ "\n".toList) ++
    userListInfo t₃, ?_, ?_⟩
  · have hnum := userNum_eq t₂
    unfold replyReads
    simp only [readAmong, runAll, Option.bind_some, Keyed.getAll_eq_key, hu, Option.toList_some,
      List.head?_cons, hearly, hbetween]
    rw [← hnum]
    rfl
  · rw [allLines_reply hrows₃ hb]
    unfold Balanced
    omega

/-- `a` and `b`, both online. -/
def racedTable : Table where
  rows := [⟨['a'], ['x'], 1, 11, 1, 10000⟩, ⟨['b'], ['x'], 2, 12, 1, 10000⟩]
  nodup := by decide

theorem plainRow_racedTable : ∀ r ∈ racedTable.rows, PlainRow r := by
  intro r hr
  fin_cases hr
  · exact ⟨⟨by simp, by simp⟩, ⟨by simp, by simp⟩⟩
  · exact ⟨⟨by simp, by simp⟩, ⟨by simp, by simp⟩⟩

/-- `b` logs out before the number is read. -/
theorem all_lines_iff_early : ∃ reply,
    readAmong (replyReads ['a']) [[], [.logout ['x'] 2], []] racedTable = some (some reply) ∧
      AllLines reply := by
  obtain ⟨t₂, hearly⟩ := runAll_calls racedTable [.logout ['x'] 2]
  have hcalls : ∀ c ∈ [Call.logout ['x'] 2] ++ [], c.Plain := by
    intro c hc
    fin_cases hc
    trivial
  have hu : racedTable.find? ['a'] = some ⟨['a'], ['x'], 1, 11, 1, 10000⟩ := by decide
  obtain ⟨reply, hread, hiff⟩ := all_lines_iff plainRow_racedTable hcalls hu (by decide) hearly
  refine ⟨reply, hread, hiff.2 ⟨rfl, ?_⟩⟩
  have := onlineCount_run hearly
  have h2 : onlineCount racedTable = 2 := by decide
  have hlogin : (statuses racedTable [.logout ['x'] 2]).count .loginSuccess = 0 := by
    decide +kernel
  omega

/-- `b` logs out between the number and the lines: the client reads past the last line. -/
theorem logout_breaks_list : ∃ reply,
    readAmong (replyReads ['a']) [[], [], [.logout ['x'] 2]] racedTable = some (some reply) ∧
      reply = "10000\n2\na#x#11\n".toList ∧ parseListInfo reply = .error .undefined ∧
      ¬ AllLines reply := by
  have hparse : parseListInfo "10000\n2\na#x#11\n".toList = .error .undefined := by decide +kernel
  refine ⟨_, by decide +kernel, rfl, hparse, ?_⟩
  rintro ⟨info, hinfo, -⟩
  rw [hparse] at hinfo
  cases hinfo

end Micropayment
