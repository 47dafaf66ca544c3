import Micropayment.Proof.Orphans

/-!
# Transfer requests are answered to their payers

The TRANSACTION branch reads `user_info(sender)[0]` and `*sender_fd` for any name a message brings.
Both are defined, and the reply goes to the payer, as long as all payers named are online
(`payer_answered`): then an online row, its connection and its `client_fds` entry stay together
(`Owned`, `Entered`). A payer without a row or a session is undefined behaviour (`unknown_payer`).
-/

set_option autoImplicit false

namespace Micropayment

instance (t : Table) (u : Str) : Decidable (HasSession t u) :=
  inferInstanceAs (Decidable (∃ c ∈ t.rows, c.username = u ∧ c.onlineStatus = 1))

namespace Server

/-- The TRANSACTION message `raw` on `c` is handled without undefined behaviour, and an online payer
gets the reply on the connection that is logged in under that name. -/
def Answered (s : Server) (c : Conn) (raw : Str) : Prop :=
  (s.handle c raw).outcome ≠ .undefined ∧
  ∀ r ∈ s.table.rows, r.username = arg (parseCommand raw).2 0 → r.onlineStatus = 1 →
    ∃ payer ∈ s.conns.rows, payer.username = r.username ∧ payer.endpoint = (r.ip, r.publicPort) ∧
      ∃ response, (s.handle c raw).outcome = .sent payer.id response

/-- The payer of the parsed TRANSACTION is online, and `stod` converts its amount; or neither. -/
def PayerOnline (s : Server) (item : Cmd × List Str) : Prop :=
  HasSession s.table (arg item.2 0) ↔ throws item = false

instance (s : Server) (item : Cmd × List Str) : Decidable (s.PayerOnline item) :=
  inferInstanceAs (Decidable (_ ↔ _))

/-- No second LOGIN and no unreadable number on a logged-in connection, and online payers only. -/
def PayersOnline (s : Server) : Action → Prop
  | .message id buffer _ => ∀ c ∈ s.conns.find? id,
      (c.username ≠ [] → s.loginSucceeds (parseCommand (cStr buffer)) = false ∧
        throws (parseCommand (cStr buffer)) = false) ∧
      ((parseCommand (cStr buffer)).1 = .transaction → s.PayerOnline (parseCommand (cStr buffer)))
  | _ => True

instance (s : Server) (a : Action) : Decidable (s.PayersOnline a) :=
  match a with
  | .accept _ _ => .isTrue trivial
  | .hangup _ => .isTrue trivial
  | .message id buffer _ => inferInstanceAs (Decidable (∀ c ∈ s.conns.find? id,
      (c.username ≠ [] → s.loginSucceeds (parseCommand (cStr buffer)) = false ∧
        throws (parseCommand (cStr buffer)) = false) ∧
      ((parseCommand (cStr buffer)).1 = .transaction →
        s.PayerOnline (parseCommand (cStr buffer)))))

end Server

section
variable {s s' : Server}

/-- An online row has a connection, and `*sender_fd` is that connection. -/
theorem Owned.senderFd (h : Owned s) (hen : Entered s) {r : Client} (hr : r ∈ s.table.rows)
    (ho : r.online = true) :
    ∃ payer ∈ s.conns.rows, payer.username = r.username ∧ payer.endpoint = r.endpoint ∧
      (s.table.find? r.username).bind s.senderFd = some payer.id := by
  obtain ⟨payer, hp, hu, hep⟩ := h.rows r hr ho
  refine ⟨payer, hp, hu, hep, ?_⟩
  rw [← hu]
  exact senderFd_of h.entries hen hp (hu ▸ h.names r hr)

theorem Server.PayersOnline.keepsSession (h : Owned s) (hen : Entered s) {a : Action}
    (hg : s.PayersOnline a) : s.KeepsSession a := by
  cases a with
  | accept | hangup => trivial
  | message id buffer resume =>
    intro c hc hu
    obtain ⟨hconn, hpay⟩ := hg c hc
    obtain ⟨hl, ht⟩ := hconn hu
    refine ⟨hl, ht, ?_⟩
    by_cases hcmd : (parseCommand (cStr buffer)).1 = .transaction
    · obtain ⟨r, hr, hname, ho⟩ := (hpay hcmd).2 ht
      obtain ⟨payer, -, -, -, hfd⟩ := h.senderFd hen hr (by simpa [Client.online] using ho)
      rw [hname] at hfd
      simp [Server.unanswerable, hfd]
    · simp [Server.unanswerable, hcmd]

/-- **Online rows, connections and entries stay together** while all payers are online. -/
theorem Owned.step_payersOnline (h : Owned s ∧ Entered s) {a : Action} (hg : s.PayersOnline a)
    (hs : s.step a = some s') : Owned s' ∧ Entered s' :=
  ⟨h.1.step (hg.keepsSession h.1 h.2) hs, h.2.step h.1.sessions hs⟩

/-- Without a session of the payer there is no entry to find. -/
theorem Owned.senderFd_offline (h : Owned s) {u : Str} (hu : ¬ HasSession s.table u) :
    (s.table.find? u).bind s.senderFd = none := by
  cases hr : s.table.find? u with
  | none => rfl
  | some r =>
    have hfind : (s.clientFds.find? fun fd => fd.1 = r.username) = none := by
      rw [List.find?_eq_none]
      intro fd hfd hname
      obtain ⟨c, hc, hcu, -⟩ := h.fds fd hfd
      -- the entry's connection would be backed by an online row of the payer
      obtain ⟨r', hr', ho, -⟩ := h.sessions.backed c hc (hcu ▸ h.sessions.fdNames fd hfd)
      refine hu (hasSession_iff.2 ⟨r', ?_, ho⟩)
      rw [← hr', hcu, of_decide_eq_true hname, Keyed.find?_key hr]
    rw [Option.bind_some, Server.senderFd, hfind]

end

/-! ## One message -/

section
variable {s : Server} {c : Conn} {raw snd n rcv : Str}

/-- The amount does not convert: nobody is answered, which suits an offline payer. -/
theorem answered_throws (hp : parseCommand raw = (.transaction, [snd, n, rcv])) {e : NumError}
    (hn : stod n = .error e) : s.Answered c raw ↔ ¬ HasSession s.table snd := by
  have hhandle : (s.handle c raw).outcome = .throws := by
    rw [Server.handle_transaction hp, Server.transactionCase_throws hn]
  unfold Server.Answered
  rw [hhandle, hp]
  constructor
  · rintro ⟨-, h⟩ ⟨r, hr, hu, ho⟩
    obtain ⟨payer, -, -, -, response, hsent⟩ := h r hr hu ho
    cases hsent
  · intro h
    exact ⟨by simp, fun r hr hu ho => absurd ⟨r, hr, hu, ho⟩ h⟩

theorem answered_converts (h : Owned s) (hen : Entered s)
    (hp : parseCommand raw = (.transaction, [snd, n, rcv])) {pay : ℚ} (hn : stod n = .ok pay) :
    s.Answered c raw ↔ HasSession s.table snd := by
  unfold Server.Answered
  rw [Server.handle_transaction hp, hp]
  constructor
  · rintro ⟨hdef, -⟩
    by_contra hoff
    exact hdef (Server.transactionCase_undefined hn (h.senderFd_offline hoff))
  · rintro ⟨r, hr, rfl, ho⟩
    obtain ⟨payer, hpayer, hu, hep, hfd⟩ := h.senderFd hen hr (by simpa [Client.online] using ho)
    rw [Server.transactionCase_sent hn hfd]
    refine ⟨by simp, fun r' hr' hu' _ => ?_⟩
    obtain rfl : r' = r := Keyed.eq_of_key hr' hr hu'
    exact ⟨payer, hpayer, hu, hep, _, rfl⟩

end

/-- **Every transfer request is answered to the payer** in a run whose payers are all online: in
every state reached, a TRANSACTION is answered exactly if its payer is online and its amount
converts, or neither. -/
theorem payer_answered {actions : List Action} {s : Server}
    (h : Run Server.step Server.PayersOnline (Server.init Keyed.empty) actions s) (c : Conn)
    {raw : Str} (hcmd : (parseCommand raw).1 = .transaction) :
    s.Answered c raw ↔ s.PayerOnline (parseCommand raw) := by
  have hempty : Entered (Server.init Keyed.empty) := fun c hc => absurd hc List.not_mem_nil
  obtain ⟨ho, hen⟩ := h.inv (fun _ _ _ hi hg hs => Owned.step_payersOnline hi hg hs)
    ⟨Owned.init, hempty⟩
  obtain ⟨snd, n, rcv, hp, -, -⟩ := parseCommand_transaction hcmd
  rw [Server.PayerOnline, hp]
  cases hn : stod n with
  | error e =>
    rw [answered_throws hp hn]
    simp [Server.throws, arg, hn, Except.isOk, Except.toBool]
  | ok pay =>
    rw [answered_converts ho hen hp hn]
    simp [Server.throws, arg, hn, Except.isOk, Except.toBool]

/-- `a` and `b` are online; `c` is only registered. -/
def payersRun : List Action :=
  [.accept ['x'] 1, .accept ['x'] 2, .message 0 "REGISTER#a".toList true,
    .message 0 "REGISTER#b".toList true, .message 0 "REGISTER#c".toList true,
    .message 0 "a#11".toList true, .message 1 "b#12".toList true,
    .message 1 "a#300#b".toList true]

/-- `b`'s connection brings a second transfer of `a`. -/
theorem payer_answered_paid :
    ∃ s, Run Server.step Server.PayersOnline (Server.init Keyed.empty) payersRun s ∧
      s.Answered ⟨1, ['x'], 2, ['b']⟩ "a#5#b".toList := by
  obtain ⟨s, hs, h⟩ := Run.of_allowed (by decide +kernel : allowed Server.step Server.PayersOnline
    (Server.init Keyed.empty) payersRun = true)
  have hon : (runAll Server.step (Server.init Keyed.empty) payersRun).map
      (fun s => decide (s.PayerOnline (parseCommand "a#5#b".toList))) = some true := by
    decide +kernel
  rw [hs, Option.map_some, Option.some.injEq, decide_eq_true_eq] at hon
  exact ⟨s, h, (payer_answered h ⟨1, ['x'], 2, ['b']⟩ (by decide)).2 hon⟩

/-- The payer `z` has no row, so `user_info(sender)[0]` is out of range; `c` has no session, so
`sender_fd` is never set. -/
theorem unknown_payer :
    ∃ s, Run Server.step Any (Server.init Keyed.empty) payersRun s ∧
      ⟨0, ['x'], 1, ['a']⟩ ∈ s.conns.rows ∧
      (parseCommand "z#5#b".toList).1 = .transaction ∧
      userInfo s.table ['z'] = none ∧ ¬ s.Answered ⟨0, ['x'], 1, ['a']⟩ "z#5#b".toList ∧
      (parseCommand "c#5#b".toList).1 = .transaction ∧
      (userInfo s.table ['c']).isSome ∧ ¬ s.Answered ⟨0, ['x'], 1, ['a']⟩ "c#5#b".toList := by
  have hrun : (runAll Server.step (Server.init Keyed.empty) payersRun).map (fun s =>
      decide (⟨0, ['x'], 1, ['a']⟩ ∈ s.conns.rows ∧ userInfo s.table ['z'] = none ∧
        (s.handle ⟨0, ['x'], 1, ['a']⟩ "z#5#b".toList).outcome = .undefined ∧
        (userInfo s.table ['c']).isSome ∧
        (s.handle ⟨0, ['x'], 1, ['a']⟩ "c#5#b".toList).outcome = .undefined)) = some true := by
    decide +kernel
  obtain ⟨s, hs, hout⟩ := Option.map_eq_some_iff.1 hrun
  obtain ⟨hc, hz, hzo, hu, hco⟩ := of_decide_eq_true hout
  exact ⟨s, Run.of_runAll hs, hc, by decide, hz, fun h => h.1 hzo, by decide, hu,
    fun h => h.1 hco⟩

end Micropayment
