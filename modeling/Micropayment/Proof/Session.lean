import Micropayment.Proof.Ledger
import Micropayment.Server

/-!
# Live sessions are backed by their rows

`OnlineAt t u ep`: `u`'s row is online at the endpoint `ep`. Only a logout from that endpoint ends
this (`OnlineAt.effect`, `OnlineAt.logout`), and no two live connections share an endpoint, so
every logged-in connection keeps its row (`Sessions`). `session_backed` holds from any initial
table, stale online rows included.
-/

set_option autoImplicit false

namespace Micropayment

/-- `u`'s row is online at the endpoint `ep`. -/
def OnlineAt (t : Table) (u : Str) (ep : Str × Int) : Prop :=
  ∃ r, t.find? u = some r ∧ r.online = true ∧ r.endpoint = ep

namespace OnlineAt

variable {t : Table} {u : Str} {ep : Str × Int}

/-- The branches of the `switch` leave online rows where they are. -/
theorem effect {s : Server} {c : Conn} {item : Cmd × List Str} {hd : Handled}
    (h : OnlineAt s.table u ep) (he : s.Effect c item hd) : OnlineAt hd.table u ep := by
  obtain ⟨r, hr, ho, hep⟩ := h
  cases he with
  | nothing o => exact ⟨r, hr, ho, hep⟩
  | @registered v o _ hv =>
    refine ⟨r, ?_, ho, hep⟩
    have hne : (newUser v).username ≠ u := by
      intro he
      rw [← he, show (newUser v).username = v from rfl, hv] at hr
      cases hr
    rw [Keyed.find?_replace, if_neg hne]
    exact hr
  | @loggedIn v p user privatePort _ _ _ hv hoff =>
    refine ⟨r, ?_, ho, hep⟩
    have hne : v ≠ u := by
      intro he
      rw [← he, hv] at hr
      cases hr
      rw [ho] at hoff
      cases hoff
    rw [Server.loggedIn_table, find?_login hv, if_neg hne]
    exact hr
  | @transferred snd n rcv pay a b o _ _ ht =>
    by_cases hrcv : rcv = u
    · refine ⟨b.credit pay, by rw [ht.find?_after, if_pos hrcv], ?_⟩
      rw [← hrcv, ht.receiver] at hr
      cases hr
      exact ⟨ho, hep⟩
    · by_cases hsnd : snd = u
      · refine ⟨a.debit pay, by rw [ht.find?_after, if_neg hrcv, if_pos hsnd], ?_⟩
        rw [← hsnd, ht.sender] at hr
        cases hr
        exact ⟨ho, hep⟩
      · exact ⟨r, by rw [ht.find?_after, if_neg hrcv, if_neg hsnd, hr], ho, hep⟩

theorem mem_onlineAt {r : Client} {ip : Str} {port : Int} :
    r ∈ t.getAll (Client.onlineAt ip port) ↔
      r ∈ t.rows ∧ r.online = true ∧ r.endpoint = (ip, port) := by
  rw [Keyed.mem_getAll]
  simp [Client.onlineAt, Client.online, Client.endpoint]
  tauto

/-- A logout leaves all rows that are not online at its endpoint. -/
theorem find?_logout {ip : Str} {port : Int} {r : Client} (hr : t.find? u = some r)
    (hep : r.endpoint ≠ (ip, port) ∨ r.online = false) :
    ((userLogout ip port).run t).2.find? u = some r := by
  rcases userLogout_run t ip port with ⟨user, hrows, hrun⟩ | ⟨-, hrun⟩
  · rw [hrun]
    have hm := mem_onlineAt.1 (hrows ▸ List.mem_singleton_self user)
    have hne : user.username ≠ u := by
      intro he
      have hu := Keyed.find?_of_mem hm.1
      rw [he, hr] at hu
      cases hu
      rcases hep with hep | ho
      · exact hep hm.2.2
      · rw [ho] at hm
        cases hm.2.1
    rw [Keyed.find?_update, Client.logout_username, if_neg hne]
    exact hr
  · rw [hrun]
    exact hr

theorem logout {c : Conn} (h : OnlineAt t u ep) (hne : ep ≠ c.endpoint) :
    OnlineAt ((userLogout c.clientip c.clientport).run t).2 u ep := by
  obtain ⟨r, hr, ho, rfl⟩ := h
  exact ⟨r, find?_logout hr (.inl hne), ho, rfl⟩

end OnlineAt

/-! ## The invariant -/

structure Sessions (s : Server) : Prop where
  fresh : ∀ c ∈ s.conns.rows, c.id < s.accepted
  endpoints : ∀ c ∈ s.conns.rows, ∀ c' ∈ s.conns.rows, c.endpoint = c'.endpoint → c = c'
  backed : ∀ c ∈ s.conns.rows, c.username ≠ [] → OnlineAt s.table c.username c.endpoint
  fdNames : ∀ fd ∈ s.clientFds, fd.1 ≠ []
  fdIds : ∀ fd ∈ s.clientFds, fd.2 < s.accepted
  fdBacked : ∀ fd ∈ s.clientFds, ∀ c ∈ s.conns.rows, c.id = fd.2 →
    OnlineAt s.table fd.1 c.endpoint

namespace Sessions

variable {s s' : Server} {c : Conn}

theorem init (t : Table) : Sessions (Server.init t) where
  fresh _ h := absurd h List.not_mem_nil
  endpoints _ h := absurd h List.not_mem_nil
  backed _ h := absurd h List.not_mem_nil
  fdNames _ h := absurd h List.not_mem_nil
  fdIds _ h := absurd h List.not_mem_nil
  fdBacked _ h := absurd h List.not_mem_nil

theorem accepting (h : Sessions s) {ip : Str} {port : Int}
    (hfree : ∀ c ∈ s.conns.rows, c.endpoint ≠ (ip, port)) : Sessions (s.accepting ip port) := by
  refine ⟨fun c hc => ?_, fun c hc c' hc' he => ?_, fun c hc hu => ?_, h.fdNames,
    fun fd hfd => Nat.lt_succ_of_lt (h.fdIds fd hfd), fun fd hfd c hc hid => ?_⟩
  · rcases Keyed.mem_replace.1 hc with rfl | ⟨hc, -⟩
    · exact Nat.lt_succ_self _
    · exact Nat.lt_succ_of_lt (h.fresh c hc)
  · rcases Keyed.mem_replace.1 hc with rfl | ⟨hc, -⟩
    · rcases Keyed.mem_replace.1 hc' with rfl | ⟨hc', -⟩
      · rfl
      · exact absurd he.symm (hfree c' hc')
    · rcases Keyed.mem_replace.1 hc' with rfl | ⟨hc', -⟩
      · exact absurd he (hfree c hc)
      · exact h.endpoints c hc c' hc' he
  · rcases Keyed.mem_replace.1 hc with rfl | ⟨hc, -⟩
    · exact absurd rfl hu
    · exact h.backed c hc hu
  · rcases Keyed.mem_replace.1 hc with rfl | ⟨hc, -⟩
    · have := h.fdIds fd hfd
      change s.accepted = fd.2 at hid
      omega
    · exact h.fdBacked fd hfd c hc hid

theorem other_endpoint (h : Sessions s) (hc : c ∈ s.conns.rows) {c' : Conn}
    (hc' : c' ∈ s.conns.rows) (hne : c'.id ≠ c.id) : c'.endpoint ≠ c.endpoint :=
  fun he => hne (congrArg Conn.id (h.endpoints c' hc' c hc he))

theorem disconnect (h : Sessions s) (hc : c ∈ s.conns.rows) : Sessions (s.disconnect c) := by
  refine ⟨fun x hx => h.fresh x (Keyed.mem_erase.1 hx).1,
    fun x hx y hy he => h.endpoints x (Keyed.mem_erase.1 hx).1 y (Keyed.mem_erase.1 hy).1 he,
    fun x hx hu => ?_, fun fd hfd => h.fdNames fd (List.mem_of_mem_eraseP hfd),
    fun fd hfd => h.fdIds fd (List.mem_of_mem_eraseP hfd), fun fd hfd x hx hid => ?_⟩
  · obtain ⟨hx, hne⟩ := Keyed.mem_erase.1 hx
    exact (h.backed x hx hu).logout (h.other_endpoint hc hx hne)
  · obtain ⟨hx, hne⟩ := Keyed.mem_erase.1 hx
    exact (h.fdBacked fd (List.mem_of_mem_eraseP hfd) x hx hid).logout (h.other_endpoint hc hx hne)

/-- A connection that is live after the `switch`: another one, or `c` with its new `username`. -/
theorem mem_after {hd : Handled} {live : Bool} {x : Conn}
    (hx : x ∈ (s.after c hd live).conns.rows) :
    (x ∈ s.conns.rows ∧ x.id ≠ c.id) ∨ x = { c with username := hd.username } := by
  cases live with
  | true =>
    rcases Keyed.mem_update hx with rfl | hx
    · exact .inr rfl
    · exact .inl hx
  | false => exact .inl (Keyed.mem_erase.1 hx)

theorem after (h : Sessions s) (hc : c ∈ s.conns.rows) {item : Cmd × List Str} {hd : Handled}
    (he : s.Effect c item hd) (live : Bool) : Sessions (s.after c hd live) := by
  -- after a login the new name is backed by the row just written
  have hself : hd.username ≠ [] → OnlineAt hd.table hd.username c.endpoint := by
    intro hu
    have hframe : ∀ {u ep}, OnlineAt s.table u ep → OnlineAt hd.table u ep := fun ho => ho.effect he
    cases he with
    | nothing o => exact h.backed c hc hu
    | registered o _ _ => exact hframe (h.backed c hc hu)
    | @loggedIn v p user privatePort _ _ _ hv _ =>
      refine ⟨user.login c.clientip c.clientport privatePort, ?_, rfl, rfl⟩
      rw [Server.loggedIn_table, Server.loggedIn_username, find?_login hv, if_pos rfl]
    | transferred o _ _ _ => exact hframe (h.backed c hc hu)
  have hfds : ∀ fd ∈ hd.clientFds, fd ∈ s.clientFds ∨
      fd = (hd.username, c.id) ∧ hd.username ≠ [] := by
    intro fd hfd
    cases he with
    | nothing | registered | transferred => exact .inl hfd
    | loggedIn _ _ hu =>
      rcases List.mem_append.1 hfd with hfd | hfd
      · exact .inl hfd
      · exact .inr ⟨List.mem_singleton.1 hfd, hu.ne⟩
  refine ⟨fun x hx => ?_, fun x hx y hy hxy => ?_, fun x hx hu => ?_, fun fd hfd => ?_,
    fun fd hfd => ?_, fun fd hfd x hx hid => ?_⟩
  · rcases mem_after hx with ⟨hx, -⟩ | rfl
    · exact h.fresh x hx
    · exact h.fresh c hc
  · rcases mem_after hx with ⟨hx, hnx⟩ | rfl
    · rcases mem_after hy with ⟨hy, -⟩ | rfl
      · exact h.endpoints x hx y hy hxy
      · exact absurd hxy (h.other_endpoint hc hx hnx)
    · rcases mem_after hy with ⟨hy, hny⟩ | rfl
      · exact absurd hxy.symm (h.other_endpoint hc hy hny)
      · rfl
  · rcases mem_after hx with ⟨hx, -⟩ | rfl
    · exact (h.backed x hx hu).effect he
    · exact hself hu
  · rcases hfds fd hfd with hfd | ⟨rfl, hu⟩
    · exact h.fdNames fd hfd
    · exact hu
  · rcases hfds fd hfd with hfd | ⟨rfl, -⟩
    · exact h.fdIds fd hfd
    · exact h.fresh c hc
  · rcases hfds fd hfd with hfd | ⟨rfl, hu⟩
    · rcases mem_after hx with ⟨hx, -⟩ | rfl
      · exact (h.fdBacked fd hfd x hx hid).effect he
      · exact (h.fdBacked fd hfd c hc hid).effect he
    · rcases mem_after hx with ⟨hx, hne⟩ | rfl
      · exact absurd hid hne
      · exact hself hu

theorem step (h : Sessions s) {a : Action} (hs : s.step a = some s') : Sessions s' := by
  rcases Server.step_cases hs with ⟨ip, port, -, hfree, rfl⟩ | ⟨c, hc, -, rfl⟩ |
    ⟨c, hc, buffer, resume, -, -, -, he, rfl⟩
  · exact h.accepting hfree
  · exact h.disconnect hc
  · exact h.after hc he _

theorem run {t : Table} {actions : List Action}
    (h : Run Server.step Any (Server.init t) actions s) : Sessions s :=
  h.inv (fun _ _ _ hi _ hs => hi.step hs) (init t)

/-- No two live connections are logged in under one name. -/
theorem unique (h : Sessions s) (hc : c ∈ s.conns.rows) {c' : Conn} (hc' : c' ∈ s.conns.rows)
    (hu : c.username ≠ []) (he : c.username = c'.username) : c = c' := by
  obtain ⟨r, hr, -, hep⟩ := h.backed c hc hu
  obtain ⟨r', hr', -, hep'⟩ := h.backed c' hc' (he ▸ hu)
  rw [← he, hr] at hr'
  cases hr'
  exact h.endpoints c hc c' hc' (hep.symm.trans hep')

/-- The LIST branch finds the row of a logged-in connection. -/
theorem listCase_sent (h : Sessions s) (hc : c ∈ s.conns.rows) :
    ∃ response, (s.listCase c).outcome = .sent c.id response := by
  unfold Server.listCase
  dsimp only
  split
  · exact ⟨_, rfl⟩
  · rename_i hu
    obtain ⟨r, hr, -, -⟩ := h.backed c hc fun he => hu (.inr he)
    rw [userInfo_eq, hr]
    exact ⟨_, rfl⟩

end Sessions

namespace Server

/-- The message makes `stoi` or `stod` throw. -/
def throws (item : Cmd × List Str) : Bool :=
  match item.1 with
  | .login => !(stoi (arg item.2 1)).isOk
  | .transaction => !(stod (arg item.2 1)).isOk
  | _ => false

/-- The message is a TRANSACTION whose payer has no row, or no `client_fds` entry of a live
connection. -/
def unanswerable (s : Server) (item : Cmd × List Str) : Bool :=
  item.1 = .transaction && ((s.table.find? (arg item.2 0)).bind s.senderFd).isNone

theorem throws_login {u p : Str} : throws (.login, [u, p]) = !(stoi p).isOk := rfl

theorem throws_transaction {snd n rcv : Str} :
    throws (.transaction, [snd, n, rcv]) = !(stod n).isOk := rfl

/-- How the `switch` ends: by an exception of a converter, with a reply, which is the connection's
own unless the command is a TRANSACTION, or by a row or an entry that is not there. -/
inductive Ending (s : Server) (c : Conn) (item : Cmd × List Str) : Outcome → Prop
  | throws : throws item = true → Ending s c item .throws
  | own (response : Str) : throws item = false → item.1 ≠ .transaction →
      Ending s c item (.sent c.id response)
  | payer {fd : Nat} (response : Str) : throws item = false → item.1 = .transaction →
      (s.table.find? (arg item.2 0)).bind s.senderFd = some fd →
      Ending s c item (.sent fd response)
  | noPayer : throws item = false → s.unanswerable item = true → Ending s c item .undefined
  | noRow : throws item = false → item.1 = .list → c.username ≠ [] →
      s.table.find? c.username = none → Ending s c item .undefined

variable {s : Server} {c : Conn} {u p snd n rcv : Str}

theorem listCase_ending {args : List Str} : s.Ending c (.list, args) (s.listCase c).outcome := by
  simp only [listCase]
  split
  · exact .own _ rfl (by simp)
  · rename_i hin
    rw [userInfo_eq]
    cases hu : s.table.find? c.username with
    | none => exact .noRow rfl rfl (fun hout => hin (.inr hout)) hu
    | some user => exact .own _ rfl (by simp)

theorem loginCase_ending : s.Ending c (.login, [u, p]) (s.loginCase c [u, p]).outcome := by
  cases hport : stoi p with
  | error e =>
    rw [loginCase_throws hport]
    exact .throws (by rw [throws_login, hport]; rfl)
  | ok port =>
    have ht : Server.throws (.login, [u, p]) = false := by
      rw [throws_login, hport]
      rfl
    rw [loginCase_eq hport]
    split
    · exact .own _ ht (by simp)
    · split
      · exact .own _ ht (by simp)
      · exact .own _ ht (by simp)

theorem transactionCase_ending :
    s.Ending c (.transaction, [snd, n, rcv]) (s.transactionCase c [snd, n, rcv]).outcome := by
  cases hpay : stod n with
  | error e =>
    rw [transactionCase_throws hpay]
    exact .throws (by rw [throws_transaction, hpay]; rfl)
  | ok pay =>
    have ht : Server.throws (.transaction, [snd, n, rcv]) = false := by
      rw [throws_transaction, hpay]
      rfl
    cases hfd : (s.table.find? snd).bind s.senderFd with
    | none =>
      rw [transactionCase_undefined hpay hfd]
      exact .noPayer ht (by simp [unanswerable, arg, hfd])
    | some fd =>
      rw [transactionCase_sent hpay hfd]
      exact .payer _ ht rfl hfd

/-- **How an iteration's `switch` can end.** -/
theorem handle_ending (s : Server) (c : Conn) (raw : Str) :
    s.Ending c (parseCommand raw) (s.handle c raw).outcome := by
  obtain ⟨-, hcases⟩ := parseCommand_cases raw
  unfold handle
  rcases hcases with hp | hp | ⟨u, hp⟩ | ⟨u, p, hp, -⟩ | ⟨u, n, v, hp, -⟩ | ⟨args, hp⟩
  all_goals rw [hp]
  · exact .own _ rfl (by simp)
  · exact listCase_ending
  · exact .own _ rfl (by simp)
  · exact loginCase_ending
  · exact transactionCase_ending
  · exact .own _ rfl (by simp)

variable {raw : Str}

theorem handle_throws_iff :
    (s.handle c raw).outcome = .throws ↔ throws (parseCommand raw) = true := by
  have he := handle_ending s c raw
  generalize (s.handle c raw).outcome = o at he
  cases he with
  | throws ht => simp [ht]
  | own _ ht | payer _ ht | noPayer ht | noRow ht => simp [ht]

end Server

/-- Every other message is answered. -/
theorem Sessions.handle_sent {s : Server} {c : Conn} (h : Sessions s) (hc : c ∈ s.conns.rows)
    {raw : Str} (ht : Server.throws (parseCommand raw) = false)
    (hn : s.unanswerable (parseCommand raw) = false) :
    ∃ fd response, (s.handle c raw).outcome = .sent fd response := by
  have he := Server.handle_ending s c raw
  generalize (s.handle c raw).outcome = o at he
  cases he with
  | throws ht' =>
    rw [ht] at ht'
    cases ht'
  | own response | payer response => exact ⟨_, _, rfl⟩
  | noPayer _ hn' =>
    rw [hn] at hn'
    cases hn'
  | noRow _ _ hu hrow =>
    obtain ⟨r, hr, -⟩ := h.backed c hc hu
    rw [hrow] at hr
    cases hr

/-- **A live session is backed by its own online row**, from any initial table: so no two live
connections share a name, and LIST and LOGIN always find the row they read. -/
theorem session_backed {t : Table} {actions : List Action} {s : Server}
    (h : Run Server.step Any (Server.init t) actions s) :
    (∀ c ∈ s.conns.rows, c.username ≠ [] → ∃ r, s.table.find? c.username = some r ∧
      r.onlineStatus = 1 ∧ (r.ip, r.publicPort) = c.endpoint) ∧
    (∀ c ∈ s.conns.rows, ∀ c' ∈ s.conns.rows, c.username ≠ [] → c.username = c'.username →
      c = c') ∧
    (∀ c ∈ s.conns.rows, ∀ raw, (parseCommand raw).1 = .list ∨ (parseCommand raw).1 = .login →
      (s.handle c raw).outcome ≠ .undefined) := by
  have hs := Sessions.run h
  refine ⟨fun c hc hu => ?_, fun c hc c' hc' hu he => hs.unique hc hc' hu he,
    fun c hc raw hcmd => ?_⟩
  · obtain ⟨r, hr, ho, hep⟩ := hs.backed c hc hu
    exact ⟨r, hr, by simpa [Client.online] using ho, hep⟩
  · intro hundefined
    have he := Server.handle_ending s c raw
    rw [hundefined] at he
    cases he with
    | noPayer _ hn => rcases hcmd with hcmd | hcmd <;> simp [Server.unanswerable, hcmd] at hn
    | noRow _ _ hu hrow =>
      obtain ⟨r, hr, -⟩ := hs.backed c hc hu
      rw [hrow] at hr
      cases hr

/-- A table left by an earlier run: `a`'s row is still online, at an endpoint that is used again. -/
def staleTable : Table where
  rows := [⟨['a'], ['x'], 1, 11, 1, 10000⟩, ⟨['b'], [], -1, -1, 0, 10000⟩]
  nodup := by decide

theorem session_backed_stale :
    ∃ s, Run Server.step Any (Server.init staleTable)
        [.accept ['x'] 1, .message 0 "b#80".toList true] s ∧
      ∃ c ∈ s.conns.rows, c.username = ['b'] ∧ ∃ r, s.table.find? ['b'] = some r ∧
        r.onlineStatus = 1 ∧ (r.ip, r.publicPort) = c.endpoint := by
  have hrun : (runAll Server.step (Server.init staleTable)
      [.accept ['x'] 1, .message 0 "b#80".toList true]).map (fun s => s.conns.rows) =
        some [⟨0, ['x'], 1, ['b']⟩] := by decide +kernel
  obtain ⟨s, hs, hconns⟩ := Option.map_eq_some_iff.1 hrun
  have h := Run.of_runAll hs
  have hc : (⟨0, ['x'], 1, ['b']⟩ : Conn) ∈ s.conns.rows := by simp [hconns]
  exact ⟨s, h, _, hc, rfl, (session_backed h).1 _ hc (by simp)⟩

end Micropayment
