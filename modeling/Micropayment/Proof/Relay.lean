import Micropayment.Peer
import Micropayment.Proof.Framing
import Micropayment.Proof.Orphans
import Micropayment.Proof.Serial

/-!
# What a peer can do through a client

`receiving` decrypts a peer's message and sends it on over the client's own connection, whatever it
is. `relay_harmless_iff`: the server takes it for nothing but a transfer to that client's user, and
neither side dies of it, exactly if it is `Relayable`. `relayed_exit` is a message that logs the
client out.
-/

set_option autoImplicit false

namespace Micropayment

/-- The tokens are no command, or those of a TRANSACTION to `u`. -/
def OnlyTransfers (u : Str) : List Str → Prop
  | [cmd] => cmd ≠ "Exit".toList ∧ cmd ≠ "List".toList
  | [cmd, port] => cmd ≠ "REGISTER".toList ∧ isNumber port false = false
  | [_, amount, receiver] => isNumber amount true = true → receiver = u
  | _ => True

/-- The client can print its notification, the tokens are no command but that of a transfer to `u`,
and such a transfer converts and has a payer that can be answered. -/
structure Relayable (s : Server) (u msg : Str) : Prop where
  tokens : 2 ≤ (split msg "#".toList).length
  transfer : OnlyTransfers u (split msg "#".toList)
  converts : Server.throws (parseCommand msg) = false
  payer : s.unanswerable (parseCommand msg) = false

/-- The message on `c` is handled as no command, or as a TRANSACTION to the user of `c`: nobody is
registered, logged in or logged out, server and client go on, `c` stays with its `username`, and the
reply, if it goes to `c`, is to no other command. -/
structure Harmless (s : Server) (c : Conn) (msg : Str) : Prop where
  command : (parseCommand msg).1 = .err ∨
    (parseCommand msg).1 = .transaction ∧ arg (parseCommand msg).2 2 = c.username
  sessions : ∀ resume, SameSessions s.table (s.iteration c msg resume).table
  loggedIn : ∀ resume, OnlineAt (s.iteration c msg resume).table c.username c.endpoint
  username : ∀ resume, c ∈ (s.iteration c msg resume).conns.rows
  alive : s.crashes c msg = false
  notified : (notification (split msg "#".toList)).isSome = true
  reply : ∀ response, (s.handle c msg).outcome = .sent c.id response →
    response = toStr Server.queryError ∨ ∃ st, response = Server.transferResponse st

theorem onlyTransfers_iff (u : Str) (args : List Str) :
    OnlyTransfers u args ↔ cmdType args = .err ∨ cmdType args = .transaction ∧ arg args 2 = u := by
  have hother : ∀ {x : Cmd} {p q : Prop}, x ≠ .err → x ≠ .transaction → ¬ p →
      (p ↔ x = .err ∨ x = .transaction ∧ q) := by
    intro x p q herr htr hp
    refine ⟨fun h => absurd h hp, ?_⟩
    rintro (h | ⟨h, -⟩)
    · exact absurd h herr
    · exact absurd h htr
  rcases args with _ | ⟨a, _ | ⟨b, _ | ⟨v, _ | ⟨d, l⟩⟩⟩⟩
  · exact ⟨fun _ => .inl rfl, fun _ => trivial⟩
  · rw [cmdType_one]
    by_cases hx : a = "Exit".toList
    · rw [if_pos hx]
      exact hother (by decide) (by decide) fun h => h.1 hx
    · by_cases hl : a = "List".toList
      · rw [if_neg hx, if_pos hl]
        exact hother (by decide) (by decide) fun h => h.2 hl
      · rw [if_neg hx, if_neg hl]
        exact ⟨fun _ => .inl rfl, fun _ => ⟨hx, hl⟩⟩
  · rw [cmdType_two]
    by_cases hr : a = "REGISTER".toList
    · rw [if_pos hr]
      exact hother (by decide) (by decide) fun h => h.1 hr
    · by_cases hb : isNumber b false = true
      · rw [if_neg hr, if_pos hb]
        exact hother (by decide) (by decide) fun h => absurd hb (by simp [h.2])
      · rw [if_neg hr, if_neg hb]
        exact ⟨fun _ => .inl rfl, fun _ => ⟨hr, by simpa using hb⟩⟩
  · rw [cmdType_three]
    by_cases hb : isNumber b true = true
    · rw [if_pos hb]
      refine ⟨fun h => .inr ⟨rfl, h hb⟩, ?_⟩
      rintro (h | ⟨-, h⟩)
      · cases h
      · exact fun _ => h
    · rw [if_neg hb]
      exact ⟨fun _ => .inl rfl, fun _ h => absurd h hb⟩
  · have herr : cmdType (a :: b :: v :: d :: l) = .err := by
      simp only [cmdType, List.length_cons]
      rw [if_neg (by omega), if_neg (by omega), if_neg (by omega), if_neg (by omega),
        if_neg (by omega)]
    exact ⟨fun _ => .inl herr, fun _ => trivial⟩

/-- The frame of a peer's message comes out of the client as a frame of the same message. -/
theorem receiving_frame {clientKey serverKey : Rsa} {seed seed' : Nat} {msg frame : Str}
    (hm : Sendable msg) (hf : sendP3 (clientKey.encrypt seed) msg = some frame) :
    ∃ forwarded,
      (∀ stale, receiving clientKey.decrypt (serverKey.encrypt seed') (some frame) stale =
        some forwarded) ∧
      ∀ s c stale,
        Server.receive s c serverKey.decrypt (some forwarded) stale = .plaintext msg := by
  obtain ⟨block, -, -, hforward⟩ := sendP3_some serverKey seed' hm.fits
  refine ⟨block ++ List.replicate 3840 '\x00', fun stale => ?_, fun s c stale => ?_⟩
  · unfold receiving
    rw [(recvP3_frame hm hf stale).2]
    exact hforward
  · unfold Server.receive
    rw [(recvP3_frame hm hforward stale).2]
    dsimp only
    rw [cStr_eq hm.nul, if_neg]
    rintro (h | h)
    · omega
    · exact hm.ne h

section
variable {s : Server} {c : Conn} {msg : Str}

/-- What the `switch` does with a message that is no command or a TRANSACTION. -/
theorem handle_transfer (h : (parseCommand msg).1 = .err ∨ (parseCommand msg).1 = .transaction) :
    SameSessions s.table (s.handle c msg).table ∧ (s.handle c msg).username = c.username ∧
      ∀ fd response, (s.handle c msg).outcome = .sent fd response →
        response = toStr Server.queryError ∨ ∃ st, response = Server.transferResponse st := by
  obtain ⟨-, hcases⟩ := parseCommand_cases msg
  unfold Server.handle
  rcases hcases with hp | hp | ⟨u, hp⟩ | ⟨u, p, hp, -⟩ | ⟨u, n, v, hp, -⟩ | ⟨args, hp⟩
  all_goals rw [hp] at h ⊢
  · simp at h
  · simp at h
  · simp at h
  · simp at h
  · dsimp only
    cases hn : stod n with
    | error e =>
      rw [Server.transactionCase_throws hn]
      exact ⟨fun _ => rfl, rfl, fun fd response hr => by cases hr⟩
    | ok pay =>
      rw [Server.transactionCase_eq hn]
      refine ⟨?_, rfl, fun fd response hr => ?_⟩
      · rcases userTransaction_run s.table u v pay with ⟨a, b, ht, hrun⟩ | ⟨-, st, -, hrun⟩
        · rw [hrun]
          exact SameSessions.transfer (fun _ => rfl) ht
        · rw [hrun]
          exact fun _ => rfl
      · dsimp only at hr
        split at hr
        · exact .inr ⟨_, (Outcome.sent.inj hr).2.symm⟩
        · cases hr
  · exact ⟨fun _ => rfl, rfl, fun fd response hr => .inl (Outcome.sent.inj hr).2.symm⟩

/-- A user stays online where nobody's session changes. -/
theorem OnlineAt.sameSessions {t t' : Table} {u : Str} {ep : Str × Int} (h : OnlineAt t u ep)
    (hs : SameSessions t t') : OnlineAt t' u ep := by
  obtain ⟨r, hr, ho, hep⟩ := h
  have hu := hs u
  rw [hr] at hu
  obtain ⟨r', hr', hsame⟩ := Option.map_eq_some_iff.1 hu
  refine ⟨r', hr', (Client.online_of_session hsame).trans ho, ?_⟩
  simp only [Client.session, Prod.mk.injEq] at hsame
  rw [← hep, Client.endpoint, Client.endpoint, hsame.1, hsame.2.1]

theorem iteration_relayed (hm : Sendable msg) (resume : Bool) :
    s.iteration c msg resume = s.after c (s.handle c msg)
      ((parseCommand msg).1 ≠ .exit && Server.survives resume (s.handle c msg).outcome) := by
  unfold Server.iteration
  rw [cStr_eq hm.nul, if_neg hm.ne]

theorem notification_isSome (tokens : List Str) :
    (notification tokens).isSome = true ↔ 2 ≤ tokens.length := by
  rcases tokens with _ | ⟨a, _ | ⟨b, l⟩⟩
  · simp [notification]
  · simp [notification]
  · simp [notification]

/-- The connection is still there after every way the call may go on: the message is answered. -/
theorem answered_of_live (hm : Sendable msg)
    (hlive : ∀ resume, c ∈ (s.iteration c msg resume).conns.rows) :
    Server.throws (parseCommand msg) = false ∧ s.unanswerable (parseCommand msg) = false := by
  have hgone : ∀ h : Handled, c ∉ (s.after c h false).conns.rows := by
    intro h hmem
    have hfind : (s.conns.erase c.id).find? c.id = some c := Keyed.find?_of_mem hmem
    rw [Keyed.find?_erase, if_pos rfl] at hfind
    cases hfind
  have hlive := hlive false
  rw [iteration_relayed hm] at hlive
  have hending := Server.handle_ending s c msg
  generalize (s.handle c msg).outcome = o at hending hlive
  cases hending with
  | throws | noPayer | noRow =>
    simp only [Server.survives, Bool.and_false] at hlive
    exact absurd hlive (hgone _)
  | own response ht hne => exact ⟨ht, by simp [Server.unanswerable, hne]⟩
  | payer response ht hcmd hfd => exact ⟨ht, by simp [Server.unanswerable, hfd]⟩

theorem harmless_iff (hs : Sessions s) (hc : c ∈ s.conns.rows) (hu : c.username ≠ [])
    (hm : Sendable msg) : Harmless s c msg ↔ Relayable s c.username msg := by
  constructor
  · intro h
    obtain ⟨hconv, hpayer⟩ := answered_of_live hm h.username
    exact ⟨(notification_isSome _).1 h.notified, (onlyTransfers_iff _ _).2 h.command, hconv, hpayer⟩
  · intro h
    have hcmd : (parseCommand msg).1 = .err ∨
        (parseCommand msg).1 = .transaction ∧ arg (parseCommand msg).2 2 = c.username :=
      (onlyTransfers_iff _ _).1 h.transfer
    obtain ⟨hsame, hname, hreply⟩ := handle_transfer (s := s) (c := c) (hcmd.imp_right And.left)
    obtain ⟨fd, response, hsent⟩ := hs.handle_sent hc h.converts h.payer
    have hnotexit : (parseCommand msg).1 ≠ .exit := by
      rcases hcmd with hcmd | ⟨hcmd, -⟩ <;> simp [hcmd]
    have hiter : ∀ resume, s.iteration c msg resume = s.after c (s.handle c msg) true := by
      intro resume
      rw [iteration_relayed hm, hsent]
      simp [hnotexit, Server.survives]
    refine ⟨hcmd, fun resume => ?_, fun resume => ?_, fun resume => ?_, ?_,
      (notification_isSome _).2 h.tokens, fun response hr => hreply _ _ hr⟩
    · rw [hiter]
      exact hsame
    · rw [hiter]
      exact (hs.backed c hc hu).sameSessions hsame
    · rw [hiter]
      refine Keyed.find?_mem (k := c.id) ?_
      rw [Server.find?_after hc, if_pos rfl, if_pos rfl, hname]
    · exact Server.not_crashes (by rw [hsent]; simp)

/-- **A relayed message is harmless** exactly if it is `Relayable`: its tokens are no command or
those of a TRANSACTION to the client's user that the server can answer, in every reachable state of
the server. -/
theorem relay_harmless_iff {t : Table} {actions : List Action}
    (h : Run Server.step Any (Server.init t) actions s) (hc : c ∈ s.conns.rows)
    (hu : c.username ≠ []) (clientKey serverKey : Rsa) (seed seed' : Nat)
    (hm : Sendable msg) :
    ∃ frame forwarded, sendP3 (clientKey.encrypt seed) msg = some frame ∧
      (∀ stale, receiving clientKey.decrypt (serverKey.encrypt seed') (some frame) stale =
        some forwarded) ∧
      (∀ stale, s.receive c serverKey.decrypt (some forwarded) stale = .plaintext msg) ∧
      (Harmless s c msg ↔ Relayable s c.username msg) := by
  obtain ⟨block, -, -, hf⟩ := sendP3_some clientKey seed hm.fits
  obtain ⟨forwarded, hrelay, hrecv⟩ := receiving_frame hm hf
  exact ⟨_, forwarded, hf, hrelay, hrecv s c, harmless_iff (Sessions.run h) hc hu hm⟩

end

/-! ## Messages to the client of `a` -/

/-- `a` and `b` register and log in. -/
def bothLoggedIn : List Action :=
  [.accept ['x'] 1, .accept ['x'] 2, .message 0 "REGISTER#a".toList true,
    .message 0 "REGISTER#b".toList true, .message 0 "a#11".toList true,
    .message 1 "b#12".toList true]

theorem relay_harmless_iff_paid :
    ∃ s, Run Server.step Any (Server.init Keyed.empty) bothLoggedIn s ∧
      ∃ c ∈ s.conns.rows, c.username = ['a'] ∧ Harmless s c "b#5#a".toList := by
  have hrun : (runAll Server.step (Server.init Keyed.empty) bothLoggedIn).map
      (fun s => (s.conns.rows, s.unanswerable (parseCommand "b#5#a".toList))) =
      some ([⟨0, ['x'], 1, ['a']⟩, ⟨1, ['x'], 2, ['b']⟩], false) := by decide +kernel
  obtain ⟨s, hs, hout⟩ := Option.map_eq_some_iff.1 hrun
  obtain ⟨hconns, hpayer⟩ := Prod.mk.inj hout
  have h := Run.of_runAll hs
  have hc : (⟨0, ['x'], 1, ['a']⟩ : Conn) ∈ s.conns.rows := by simp [hconns]
  have hm : Sendable "b#5#a".toList := ⟨by simp, by simp, by simp⟩
  have hargs : split "b#5#a".toList "#".toList = [['b'], ['5'], ['a']] := by decide +kernel
  obtain ⟨-, -, -, -, -, hiff⟩ :=
    relay_harmless_iff h hc (by simp) paddingOnly paddingOnly 0 0 hm
  refine ⟨s, h, _, hc, rfl, hiff.2 ⟨?_, ?_, by decide +kernel, hpayer⟩⟩
  · rw [hargs]
    exact Nat.le_succ 2
  · rw [hargs]
    exact fun _ => rfl

/-- A peer sends `Exit`: the client logs itself out and is told `Bye`. -/
theorem relayed_exit :
    ∃ s, Run Server.step Any (Server.init Keyed.empty) bothLoggedIn s ∧
      ∃ c ∈ s.conns.rows, c.username = ['a'] ∧ Sendable "Exit".toList ∧
        ¬ OnlineAt (s.handle c "Exit".toList).table ['a'] c.endpoint ∧
        (s.handle c "Exit".toList).outcome = .sent c.id "Bye\n".toList ∧
        ¬ Harmless s c "Exit".toList := by
  have hrun : (runAll Server.step (Server.init Keyed.empty) bothLoggedIn).map
      (fun s => (s.conns.rows,
        ((s.handle ⟨0, ['x'], 1, ['a']⟩ "Exit".toList).table.find? ['a']).map Client.online,
        (s.handle ⟨0, ['x'], 1, ['a']⟩ "Exit".toList).outcome)) =
      some ([⟨0, ['x'], 1, ['a']⟩, ⟨1, ['x'], 2, ['b']⟩], some false, .sent 0 "Bye\n".toList) := by
    decide +kernel
  obtain ⟨s, hs, hout⟩ := Option.map_eq_some_iff.1 hrun
  obtain ⟨hconns, hout⟩ := Prod.mk.inj hout
  obtain ⟨hoffline, hsent⟩ := Prod.mk.inj hout
  have hcmd : (parseCommand "Exit".toList).1 = .exit := by decide +kernel
  refine ⟨s, Run.of_runAll hs, ⟨0, ['x'], 1, ['a']⟩, by simp [hconns], rfl,
    ⟨by simp, by simp, by simp⟩, ?_, hsent, fun h => ?_⟩
  · rintro ⟨r, hr, ho, -⟩
    rw [hr, Option.map_some, ho] at hoffline
    cases hoffline
  · have := h.command
    rw [hcmd] at this
    simp at this

end Micropayment
