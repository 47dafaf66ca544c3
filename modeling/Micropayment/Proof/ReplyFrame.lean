import Micropayment.Proof.Session
import Micropayment.Proof.Transfer

/-!
# What a reply says and what it changed

A message that is answered with a failure leaves the table, `client_fds` and all `username`s as they
were, and a success changes its own part of them only, unless nobody can be answered: the payer of a
TRANSACTION has no row or no entry (`reply_frame_iff`). `handle_reply` is one branch after the
other; the statuses are those that the branches get from the database (`dbStatus`).
-/

set_option autoImplicit false

namespace Micropayment

namespace Server

/-- The handling produces a failure: of the database, 'Please login first', or `QUERY_ERROR`. -/
def Fails (s : Server) (c : Conn) (item : Cmd × List Str) : Prop :=
  (∃ st ∈ [Status.registerFail, .loginAuthFail, .loginExist, .transferFail,
      .transferSenderBankrupt, .transferSelfFail], s.dbStatus c item = some st) ∨
  (item.1 = .list ∧ ((list s.table true).length = 0 ∨ c.username = [])) ∨
  item.1 = .err

/-- What the handling of the parsed command `item` does, by the status it gets. -/
inductive Reply (s : Server) (c : Conn) (item : Cmd × List Str) : Handled → Prop
  | kept (o : Outcome) : (o = .throws → ¬ s.Fails c item) →
      (∀ st, s.dbStatus c item = some st → 200 ≤ st.code) →
      Reply s c item ⟨s.table, s.clientFds, c.username, o⟩
  | registered {u : Str} (response : Str) : item = (.register, ["REGISTER".toList, u]) →
      s.dbStatus c item = some .registerOk → s.table.find? u = none →
      Reply s c item
        ⟨s.table.replace (newUser u), s.clientFds, c.username, .sent c.id response⟩
  | loggedIn {u p : Str} {user : Client} {privatePort : Int} : item = (.login, [u, p]) →
      s.dbStatus c item = some .loginSuccess → stoi p = .ok privatePort →
      s.table.find? u = some user →
      Reply s c item (s.loggedIn c u (user.login c.clientip c.clientport privatePort))
  | transferred {snd n rcv : Str} {pay : ℚ} {a b : Client} (o : Outcome) :
      item = (.transaction, [snd, n, rcv]) → s.dbStatus c item = some .transferOk →
      stod n = .ok pay → Transfers s.table snd rcv pay a b → o ≠ .throws →
      Reply s c item
        ⟨(s.table.update (a.debit pay)).update (b.credit pay), s.clientFds, c.username, o⟩

section
variable {s : Server} {c : Conn} {u p snd n rcv raw : Str}

/-- A branch that gets the failure `st` from the database and answers it. -/
theorem Reply.of_failure {item : Cmd × List Str} {st : Status} {o : Outcome}
    (hst : s.dbStatus c item = some st) (hcode : 200 ≤ st.code) (ho : o ≠ .throws) :
    s.Reply c item ⟨s.table, s.clientFds, c.username, o⟩ := by
  refine .kept o (fun h => absurd h ho) fun st' hst' => ?_
  rw [hst] at hst'
  cases hst'
  exact hcode

theorem registerCase_reply : s.Reply c (.register, ["REGISTER".toList, u])
    (s.registerCase c ["REGISTER".toList, u]) := by
  have hdb : s.dbStatus c (.register, ["REGISTER".toList, u]) =
      some ((userRegister u c.clientip).run s.table).1 := rfl
  rw [userRegister_run] at hdb
  simp only [registerCase, arg, List.getD_cons_succ, List.getD_cons_zero, userRegister_run]
  cases hu : s.table.find? u with
  | some user =>
    rw [hu] at hdb
    exact .of_failure hdb (by simp [Status.code]) (by simp)
  | none =>
    rw [hu] at hdb
    exact .registered _ rfl hdb hu

theorem loginCase_reply : s.Reply c (.login, [u, p]) (s.loginCase c [u, p]) := by
  cases hp : stoi p with
  | error e =>
    have hdb : s.dbStatus c (.login, [u, p]) = none := by
      simp [dbStatus, arg, hp, Except.toOption]
    rw [loginCase_throws hp]
    refine .kept _ (fun _ hf => ?_) (by simp [hdb])
    simp [Fails, hdb] at hf
  | ok privatePort =>
    have hdb : s.dbStatus c (.login, [u, p]) =
        some ((userLogin u c.clientip c.clientport privatePort).run s.table).1 :=
      dbStatus_login hp
    rw [userLogin_run] at hdb
    rw [loginCase_eq hp]
    cases hu : s.table.find? u with
    | none =>
      rw [hu] at hdb
      exact .of_failure hdb (by simp [Status.code]) (by simp)
    | some user =>
      simp only [hu] at hdb ⊢
      cases hon : user.online with
      | true =>
        rw [hon] at hdb
        exact .of_failure hdb (by simp [Status.code]) (by simp)
      | false =>
        rw [hon] at hdb
        exact .loggedIn rfl hdb hp hu

theorem transactionCase_reply :
    s.Reply c (.transaction, [snd, n, rcv]) (s.transactionCase c [snd, n, rcv]) := by
  cases hn : stod n with
  | error e =>
    have hdb : s.dbStatus c (.transaction, [snd, n, rcv]) = none := by
      simp [dbStatus, arg, hn, Except.toOption]
    rw [transactionCase_throws hn]
    refine .kept _ (fun _ hf => ?_) (by simp [hdb])
    simp [Fails, hdb] at hf
  | ok pay =>
    have hdb : s.dbStatus c (.transaction, [snd, n, rcv]) =
        some ((userTransaction snd rcv pay).run s.table).1 := dbStatus_transaction hn
    have ho : (s.transactionCase c [snd, n, rcv]).outcome ≠ .throws := by
      cases hfd : (s.table.find? snd).bind s.senderFd with
      | none => simp [transactionCase_undefined hn hfd]
      | some fd => simp [transactionCase_sent hn hfd]
    rw [transactionCase_eq hn] at ho ⊢
    rcases userTransaction_cases s.table snd rcv pay with ⟨-, hrun⟩ | ⟨-, -, hrun⟩ |
      ⟨a, -, -, -, -, -, -, hrun⟩ | ⟨a, b, ht, hrun⟩
    all_goals rw [hrun] at hdb ho ⊢
    · exact .of_failure hdb (by simp [Status.code]) ho
    · exact .of_failure hdb (by simp [Status.code]) ho
    · exact .of_failure hdb (by simp [Status.code]) ho
    · exact .transferred _ rfl hdb hn ht ho

theorem listCase_reply : s.Reply c (.list, ["List".toList]) (s.listCase c) := by
  refine .kept _ (fun ho => ?_) fun st hst => by cases hst
  split at ho
  · cases ho
  · split at ho <;> cases ho

/-- **One message**, by what the database says to it. -/
theorem handle_reply (hx : (parseCommand raw).1 ≠ .exit) :
    s.Reply c (parseCommand raw) (s.handle c raw) := by
  obtain ⟨-, hcases⟩ := parseCommand_cases raw
  unfold handle
  rcases hcases with hp | hp | ⟨u, hp⟩ | ⟨u, p, hp, -⟩ | ⟨u, n, v, hp, -⟩ | ⟨args, hp⟩
  · exact absurd (congrArg Prod.fst hp) hx
  all_goals rw [hp]
  · exact listCase_reply
  · exact registerCase_reply
  · exact loginCase_reply
  · exact transactionCase_reply
  · exact .kept _ (fun ho => by cases ho) fun st hst => by cases hst

/-- The `switch` left the `username` alone, and the call goes on. -/
theorem after_conns {h : Handled} (hc : c ∈ s.conns.rows) (hu : h.username = c.username)
    (ht : h.outcome ≠ .throws) (hdef : h.outcome ≠ .undefined) (resume : Bool) :
    (s.after c h (survives resume h.outcome)).conns = s.conns := by
  have hself : { c with username := h.username } = c := by rw [hu]
  have hlive : survives resume h.outcome = true := by
    cases hout : h.outcome with
    | sent => rfl
    | throws => exact absurd hout ht
    | undefined => exact absurd hout hdef
  rw [hlive]
  simp only [after, if_true, hself]
  exact Keyed.update_self hc

end

/-- What a message on `c` with the parsed command `item` may change. -/
structure Frame (s s' : Server) (c : Conn) (item : Cmd × List Str) : Prop where
  failure : s.Fails c item →
    s'.table = s.table ∧ s'.clientFds = s.clientFds ∧ s'.conns = s.conns
  registered : s.dbStatus c item = some .registerOk →
    s'.table.rows = s.table.rows ++ [newUser (arg item.2 1)] ∧ s'.clientFds = s.clientFds ∧
    s'.conns = s.conns
  loggedIn : s.dbStatus c item = some .loginSuccess →
    (∃ privatePort, stoi (arg item.2 1) = .ok privatePort ∧
      s'.table.rows = s.table.rows.map fun r => if r.username = arg item.2 0 then
        { r with ip := c.clientip, publicPort := c.clientport, privatePort, onlineStatus := 1 }
        else r) ∧
    s'.clientFds = s.clientFds ++ [(arg item.2 0, c.id)] ∧
    s'.conns.rows = s.conns.rows.map fun x =>
      if x.id = c.id then { x with username := arg item.2 0 } else x
  transferred : s.dbStatus c item = some .transferOk →
    (∃ pay, stod (arg item.2 1) = .ok pay ∧ s'.table.rows = s.table.rows.map fun r =>
      if r.username = arg item.2 0 then { r with balance := truncToInt (r.balance - pay) }
      else if r.username = arg item.2 2 then { r with balance := truncToInt (r.balance + pay) }
      else r) ∧
    s'.clientFds = s.clientFds ∧ s'.conns = s.conns
  listed : item.1 = .list →
    s'.table = s.table ∧ s'.clientFds = s.clientFds ∧ s'.conns = s.conns

/-- The message on `c` ends in its frame, whatever undefined behaviour does to the call, and the
server lives on. -/
def Framed (s : Server) (c : Conn) (buffer : Str) : Prop :=
  s.crashes c (cStr buffer) = false ∧ ∀ resume s',
    s.step (.message c.id buffer resume) = some s' → s.Frame s' c (parseCommand (cStr buffer))

section
variable {s : Server} {c : Conn} {item : Cmd × List Str}

/-- A status of success is no failure, and LIST has no status. -/
theorem not_fails_of_status {st : Status} (hst : s.dbStatus c item = some st)
    (hcode : st.code < 200) : ¬ s.Fails c item ∧ item.1 ≠ .list := by
  refine ⟨fun hf => ?_, fun hl => ?_⟩
  · rcases hf with ⟨st', hmem, hst'⟩ | ⟨hl, -⟩ | he
    · rw [hst] at hst'
      cases hst'
      fin_cases hmem <;> simp [Status.code] at hcode
    · simp [dbStatus, hl] at hst
    · simp [dbStatus, he] at hst
  · simp [dbStatus, hl] at hst

/-- What is kept is a failure, or the reply to a LIST. -/
theorem frame_kept {o : Outcome} (hc : c ∈ s.conns.rows)
    (hlist : item.1 = .list → ∃ response, o = .sent c.id response)
    (hthrows : o = .throws → ¬ s.Fails c item) (hdef : o ≠ .undefined)
    (hdb : ∀ st, s.dbStatus c item = some st → 200 ≤ st.code) (resume : Bool) :
    s.Frame (s.after c ⟨s.table, s.clientFds, c.username, o⟩ (survives resume o)) c item := by
  have hsame := fun ho => after_conns (h := ⟨s.table, s.clientFds, c.username, o⟩) hc rfl ho hdef
    resume
  have hfail : ∀ st : Status, st.code < 200 → s.dbStatus c item ≠ some st := by
    intro st hcode hst
    have := hdb st hst
    omega
  refine ⟨fun hf => ⟨rfl, rfl, hsame fun ho => hthrows ho hf⟩, fun hst => ?_, fun hst => ?_,
    fun hst => ?_, fun hl => ⟨rfl, rfl, hsame fun ho => ?_⟩⟩
  · exact absurd hst (hfail _ (by simp [Status.code]))
  · exact absurd hst (hfail _ (by simp [Status.code]))
  · exact absurd hst (hfail _ (by simp [Status.code]))
  · obtain ⟨response, rfl⟩ := hlist hl
    cases ho

theorem frame_registered (hc : c ∈ s.conns.rows) {u response : Str}
    (hitem : item = (.register, ["REGISTER".toList, u]))
    (hdb : s.dbStatus c item = some .registerOk) (hu : s.table.find? u = none) (resume : Bool) :
    s.Frame (s.after c ⟨s.table.replace (newUser u), s.clientFds, c.username, .sent c.id response⟩
      (survives resume (.sent c.id response))) c item := by
  obtain ⟨hf, hl⟩ := not_fails_of_status hdb (by simp [Status.code])
  refine ⟨fun h => absurd h hf, fun _ => ⟨?_, rfl, ?_⟩, fun hst => ?_, fun hst => ?_,
    fun h => absurd h hl⟩
  · rw [hitem]
    exact Keyed.rows_replace_new hu
  · exact after_conns hc rfl (by simp) (by simp) resume
  all_goals
    rw [hdb] at hst
    cases hst

theorem frame_loggedIn (hc : c ∈ s.conns.rows) {u p : Str} {user : Client} {privatePort : Int}
    (hitem : item = (.login, [u, p])) (hdb : s.dbStatus c item = some .loginSuccess)
    (hp : stoi p = .ok privatePort) (hu : s.table.find? u = some user) (resume : Bool) :
    s.Frame (s.after c (s.loggedIn c u (user.login c.clientip c.clientport privatePort))
      (survives resume (s.loggedIn c u (user.login c.clientip c.clientport privatePort)).outcome))
      c item := by
  obtain ⟨hf, hl⟩ := not_fails_of_status hdb (by simp [Status.code])
  refine ⟨fun h => absurd h hf, fun hst => ?_, fun _ => ?_, fun hst => ?_, fun h => absurd h hl⟩
  · rw [hdb] at hst
    cases hst
  · rw [hitem]
    refine ⟨⟨privatePort, hp, ?_⟩, rfl, ?_⟩
    · have hrows := Keyed.rows_update (Keyed.find?_mem hu)
        (fun r => r.login c.clientip c.clientport privatePort) rfl
      rw [Keyed.find?_key hu] at hrows
      exact hrows
    · exact Keyed.rows_update hc (fun x => { x with username := u }) rfl
  · rw [hdb] at hst
    cases hst

theorem frame_transferred (hc : c ∈ s.conns.rows) {snd n rcv : Str} {pay : ℚ} {a b : Client}
    {o : Outcome} (hitem : item = (.transaction, [snd, n, rcv]))
    (hdb : s.dbStatus c item = some .transferOk) (hn : stod n = .ok pay)
    (ht : Transfers s.table snd rcv pay a b) (ho : o ≠ .throws) (hdef : o ≠ .undefined)
    (resume : Bool) :
    s.Frame (s.after c
      ⟨(s.table.update (a.debit pay)).update (b.credit pay), s.clientFds, c.username, o⟩
      (survives resume o)) c item := by
  obtain ⟨hf, hl⟩ := not_fails_of_status hdb (by simp [Status.code])
  refine ⟨fun h => absurd h hf, fun hst => ?_, fun hst => ?_, fun _ => ⟨⟨pay, ?_, ?_⟩, rfl, ?_⟩,
    fun h => absurd h hl⟩
  · rw [hdb] at hst
    cases hst
  · rw [hdb] at hst
    cases hst
  · rw [hitem]
    exact hn
  · rw [hitem]
    exact ht.rows_after
  · exact after_conns hc rfl ho hdef resume

theorem Reply.frame {hd : Handled} (h : s.Reply c item hd) (hc : c ∈ s.conns.rows)
    (hlist : item.1 = .list → ∃ response, hd.outcome = .sent c.id response)
    (hdef : hd.outcome ≠ .undefined) (resume : Bool) :
    s.Frame (s.after c hd (survives resume hd.outcome)) c item := by
  cases h with
  | kept o hthrows hdb => exact frame_kept hc hlist hthrows hdef hdb resume
  | registered response hitem hdb hu => exact frame_registered hc hitem hdb hu resume
  | loggedIn hitem hdb hp hu => exact frame_loggedIn hc hitem hdb hp hu resume
  | transferred o hitem hdb hn ht ho => exact frame_transferred hc hitem hdb hn ht ho hdef resume

end

section
variable {s : Server} {c : Conn} {buffer : Str}

theorem iteration_handle (hraw : cStr buffer ≠ []) (hx : (parseCommand (cStr buffer)).1 ≠ .exit)
    (resume : Bool) : s.iteration c buffer resume = s.after c (s.handle c (cStr buffer))
      (survives resume (s.handle c (cStr buffer)).outcome) := by
  simp [iteration, hraw, hx]

/-- A message that is answered, or ends the call by an exception, ends in its frame. -/
theorem framed_of_defined (hs : Sessions s) (hc : c ∈ s.conns.rows) (hraw : cStr buffer ≠ [])
    (hdef : (s.handle c (cStr buffer)).outcome ≠ .undefined) : s.Framed c buffer := by
  refine ⟨not_crashes hdef, fun resume s' hstep => ?_⟩
  rw [step_message hc, Option.some.injEq] at hstep
  subst hstep
  by_cases hx : (parseCommand (cStr buffer)).1 = .exit
  · constructor <;> simp [Fails, dbStatus, hx]
  · rw [iteration_handle hraw hx]
    refine (handle_reply hx).frame hc (fun hl => ?_) hdef resume
    obtain ⟨response, hsent⟩ := hs.listCase_sent hc
    exact ⟨response, by simp [handle, hl, hsent]⟩

/-- Whatever `user_transaction` returns, the connections are to stay; but the call may end. -/
theorem not_framed_of_undefined (hc : c ∈ s.conns.rows) (hraw : cStr buffer ≠ [])
    (hcmd : (parseCommand (cStr buffer)).1 = .transaction)
    (hconv : throws (parseCommand (cStr buffer)) = false)
    (hundef : (s.handle c (cStr buffer)).outcome = .undefined) : ¬ s.Framed c buffer := by
  rintro ⟨-, hframe⟩
  have hframe := hframe false _ (step_message hc buffer false)
  rw [iteration_handle hraw (by simp [hcmd]), hundef] at hframe
  have hkept : (s.conns.erase c.id) ≠ s.conns := by
    intro he
    have hfind := Keyed.find?_of_mem hc
    rw [← he, Keyed.find?_erase, if_pos rfl] at hfind
    cases hfind
  obtain ⟨snd, n, rcv, hp, -, -⟩ := parseCommand_transaction hcmd
  rw [hp] at hframe hconv
  cases hn : stod n with
  | error e =>
    rw [throws_transaction, hn] at hconv
    cases hconv
  | ok pay =>
    have hdb : s.dbStatus c (.transaction, [snd, n, rcv]) =
        some ((userTransaction snd rcv pay).run s.table).1 := dbStatus_transaction hn
    apply hkept
    rcases userTransaction_cases s.table snd rcv pay with ⟨-, hrun⟩ | ⟨-, -, hrun⟩ |
      ⟨a, -, -, -, -, -, -, hrun⟩ | ⟨a, b, ht, hrun⟩
    all_goals rw [hrun] at hdb
    · exact (hframe.failure (.inl ⟨_, by simp, hdb⟩)).2.2
    · exact (hframe.failure (.inl ⟨_, by simp, hdb⟩)).2.2
    · exact (hframe.failure (.inl ⟨_, by simp, hdb⟩)).2.2
    · exact (hframe.transferred hdb).2.2

end

end Server

open Server

/-- **Failure replies leave the server state as it was**, and each success changes only its own
part, for any message on any live connection of a reachable state: exactly if the message is no
TRANSACTION that converts and whose payer has no row or no live `client_fds` entry. -/
theorem reply_frame_iff {t : Table} {actions : List Action} {s : Server} {c : Conn} {buffer : Str}
    (h : Run Server.step Any (Server.init t) actions s) (hc : c ∈ s.conns.rows)
    (hraw : cStr buffer ≠ []) :
    s.Framed c buffer ↔ (throws (parseCommand (cStr buffer)) = false →
      s.unanswerable (parseCommand (cStr buffer)) = false) := by
  have hs := Sessions.run h
  have hending := handle_ending s c (cStr buffer)
  constructor
  · intro hframed hconv
    by_contra hun
    rw [Bool.not_eq_false] at hun
    have hcmd : (parseCommand (cStr buffer)).1 = .transaction := by
      simp only [unanswerable, Bool.and_eq_true, decide_eq_true_eq] at hun
      exact hun.1
    refine not_framed_of_undefined hc hraw hcmd hconv ?_ hframed
    generalize (s.handle c (cStr buffer)).outcome = o at hending
    cases hending with
    | throws ht =>
      rw [hconv] at ht
      cases ht
    | own response _ hne => exact absurd hcmd hne
    | payer response _ _ hfd => simp [unanswerable, hcmd, hfd] at hun
    | noPayer | noRow => rfl
  · intro hcond
    refine framed_of_defined hs hc hraw fun hundef => ?_
    rw [hundef] at hending
    cases hending with
    | noPayer hconv hun =>
      rw [hcond hconv] at hun
      cases hun
    | noRow _ _ hu hrow =>
      obtain ⟨r, hr, -⟩ := hs.backed c hc hu
      rw [hrow] at hr
      cases hr

/-- A LOGIN under a name that has no row. -/
theorem reply_frame_iff_authFail :
    ∃ s, Run Server.step Any (Server.init Keyed.empty) [.accept ['x'] 1] s ∧
      ∃ c ∈ s.conns.rows, s.dbStatus c (parseCommand "a#80".toList) = some .loginAuthFail ∧
        s.Framed c "a#80".toList := by
  let s : Server := (Server.init Keyed.empty).accepting ['x'] 1
  have h : Run Server.step Any (Server.init Keyed.empty) [.accept ['x'] 1] s := .one trivial rfl
  have hc : (⟨0, ['x'], 1, []⟩ : Conn) ∈ s.conns.rows := by decide
  refine ⟨s, h, _, hc, by decide +kernel, (reply_frame_iff h hc (by decide)).2 fun _ => ?_⟩
  decide +kernel

/-- `a` is logged in, and its connection brings a transfer of `z`, which has no row:
`user_transaction` fails, and `user_info(sender)[0]` ends the server. -/
theorem failed_not_framed :
    ∃ s, Run Server.step Any (Server.init Keyed.empty)
        [.accept ['x'] 1, .message 0 "REGISTER#a".toList true, .message 0 "a#11".toList true] s ∧
      ∃ c ∈ s.conns.rows, c.username = ['a'] ∧
        s.Fails c (parseCommand "z#5#a".toList) ∧
        s.crashes c "z#5#a".toList = true ∧ ¬ s.Framed c "z#5#a".toList := by
  have hrun : (runAll Server.step (Server.init Keyed.empty)
      [.accept ['x'] 1, .message 0 "REGISTER#a".toList true, .message 0 "a#11".toList true]).map
      (fun s => (s.conns.rows, s.dbStatus ⟨0, ['x'], 1, ['a']⟩ (parseCommand "z#5#a".toList),
        s.crashes ⟨0, ['x'], 1, ['a']⟩ "z#5#a".toList)) =
      some ([⟨0, ['x'], 1, ['a']⟩], some .transferFail, true) := by
    decide +kernel
  obtain ⟨s, hs, hout⟩ := Option.map_eq_some_iff.1 hrun
  obtain ⟨hconns, hout⟩ := Prod.mk.inj hout
  obtain ⟨hst, hcrash⟩ := Prod.mk.inj hout
  refine ⟨s, Run.of_runAll hs, ⟨0, ['x'], 1, ['a']⟩, by simp [hconns], rfl,
    .inl ⟨.transferFail, by decide, hst⟩, hcrash, fun hframed => ?_⟩
  have hlives : s.crashes ⟨0, ['x'], 1, ['a']⟩ "z#5#a".toList = false := hframed.1
  rw [hcrash] at hlives
  cases hlives

end Micropayment
