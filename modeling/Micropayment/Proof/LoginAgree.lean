import Micropayment.Pair
import Micropayment.Proof.Answers

/-!
# Client and server agree on who is logged in

The client knows the outcome of its LOGIN only from the lines of the frame it receives next. That is
the reply to the LOGIN as long as nothing else is under way on the connection (`Undisturbed`), and
then both sides agree (`login_agreed`): the invariant `Coupled` follows the LOGIN through its
phases `Idle`, `Sent` and `Answered`. A client whose `bind` or `listen` has failed goes on as if it
were not logged in, while the server answers the transfers of others on its connection
(`login_disagreed`).
-/

set_option autoImplicit false

namespace Micropayment

namespace Pair

/-- While the client runs, the server has its connection under its name, and it took the success
path on those LOGINs that `user_login` has accepted. -/
structure Agree (p : Pair) : Prop where
  name : p.clientServerOpen = true → p.main ≠ .gone → ∃ c, p.conn = some c ∧ c.username = p.name
  handled : p.took.length ≤ p.statuses.length
  attempts : ∀ x ∈ p.took.zip p.statuses, x.1 = true ↔ x.2 = some .loginSuccess

/-- The message is no TRANSACTION that converts, or `*sender_fd` is the connection of another
client. -/
def Elsewhere (p : Pair) (item : Cmd × List Str) : Prop :=
  item.1 = .transaction → (stod (arg item.2 1)).isOk = true →
    ((p.server.table.find? (arg item.2 0)).bind p.server.senderFd).any
      (fun fd => p.serverFd ≠ some fd) = true

/-- The server survives the message, and whoever it is to answer has a row and a connection. -/
def Defined (p : Pair) (c : Conn) (text : Str) : Prop :=
  p.server.exits c (cStr text) = false ∧
  (Server.throws (parseCommand (cStr text)) = false →
    p.server.unanswerable (parseCommand (cStr text)) = false)

/-- All messages are `Defined`. A LOGIN is sent when no frame of the connection is under way, and no
other connection's message is answered on it until the server has handled the LOGIN. -/
def Undisturbed (p : Pair) : Turn → Prop
  | .login _ _ true => p.toServer = [] ∧ p.toClient = []
  | .serve _ _ => ∀ c ∈ p.conn, ∀ q ∈ p.toServer.head?, p.Defined c q.2
  | .otherMessage id buffer _ _ => (∀ c ∈ p.server.conns.find? id, p.Defined c buffer) ∧
    ((p.toServer.any fun q => q.1 = .main .login) = true → p.Elsewhere (parseCommand (cStr buffer)))
  | _ => True

instance (p : Pair) (item : Cmd × List Str) : Decidable (p.Elsewhere item) :=
  inferInstanceAs (Decidable (_ → _ → _))

instance (p : Pair) (c : Conn) (text : Str) : Decidable (p.Defined c text) :=
  inferInstanceAs (Decidable (_ ∧ _))

instance (p : Pair) (turn : Turn) : Decidable (p.Undisturbed turn) :=
  match turn with
  | .login _ _ true => inferInstanceAs (Decidable (_ ∧ _))
  | .serve _ _ =>
    inferInstanceAs (Decidable (∀ c ∈ p.conn, ∀ q ∈ p.toServer.head?, p.Defined c q.2))
  | .otherMessage id buffer _ _ => inferInstanceAs (Decidable
      ((∀ c ∈ p.server.conns.find? id, p.Defined c buffer) ∧
      ((p.toServer.any fun q => q.1 = .main .login) = true →
        p.Elsewhere (parseCommand (cStr buffer)))))
  | .login _ _ false | .connect .. | .register .. | .list | .reply .. | .forward .. | .hangup
  | .otherAccept .. | .otherHangup _ => .isTrue trivial

/-! ## The invariant -/

/-- A frame that is no LOGIN, neither for the client nor for the server; its numbers convert, and it
does not log out. -/
structure Plain (q : Origin × Str) : Prop where
  main : q.1 ≠ .main .login
  login : (parseCommand (cStr q.2)).1 ≠ .login
  exit : (parseCommand (cStr q.2)).1 ≠ .exit
  converts : Server.throws (parseCommand (cStr q.2)) = false
  ne : cStr q.2 ≠ []

/-- The server has the connection under the client's name. -/
def Named (p : Pair) : Prop := ∃ c, p.conn = some c ∧ c.username = p.name

/-- No LOGIN is under way. -/
structure Idle (p : Pair) : Prop where
  waits : p.main ≠ .waiting .login
  plain : ∀ q ∈ p.toServer, Plain q
  lengths : p.took.length = p.statuses.length
  opened : p.clientServerOpen = true → p.main ≠ .start ∧ (p.main ≠ .gone → p.Named)

/-- A LOGIN has been sent, and nothing else. -/
structure Sent (p : Pair) : Prop where
  waits : p.main = .waiting .login
  closed : p.clientServerOpen = false
  frame : ∃ port : Int, -2 ^ 31 ≤ port ∧ port < 2 ^ 31 ∧
    p.toServer = [(.main .login, p.name ++ "#".toList ++ toStr port)]
  quiet : p.toClient = []
  lengths : p.took.length = p.statuses.length

/-- The server has answered the LOGIN: its reply is the next frame that the client receives. -/
structure Answered (p : Pair) : Prop where
  waits : p.main = .waiting .login
  closed : p.clientServerOpen = false
  quiet : p.toServer = []
  reply : ∃ response rest past status, p.toClient = response :: rest ∧
    p.statuses = past ++ [status] ∧ p.took.length = past.length ∧
    (isSuccess response = true ↔ status = some .loginSuccess) ∧
    (isSuccess response = true → p.Named)

structure Coupled (p : Pair) : Prop where
  sessions : Sessions p.server
  clean : Clean p.server
  alive : p.exited = false
  fd : ∀ id, p.serverFd = some id → id < p.server.accepted
  typed : p.name = [] ∨ IsArg p.name
  attempts : ∀ x ∈ p.took.zip p.statuses, x.1 = true ↔ x.2 = some .loginSuccess
  phase : Idle p ∨ Sent p ∨ Answered p

/-! ## Frames that are no LOGIN -/

section
variable {s : Server} {c : Conn} {name : Str}

theorem isArg_of_isName (h : isName name = true) : IsArg name := by
  simp only [isName, ne_eq, Bool.and_eq_true, decide_eq_true_eq, List.all_eq_true,
    Bool.not_eq_true'] at h
  obtain ⟨hne, hall⟩ := h
  refine ⟨hne, fun c hc hsep => ?_, fun hnul => (hall _ hnul).1.2 rfl⟩
  obtain rfl : c = '#' := by simpa using hsep
  exact (hall _ hc).1.1 rfl

/-- Only a LOGIN changes what the connection is logged in as. -/
theorem username_handle {raw : Str} (h : (parseCommand raw).1 ≠ .login) :
    (s.handle c raw).username = c.username := by
  by_cases hx : (parseCommand raw).1 = .exit
  · rw [Server.handle_exit hx]
    rfl
  · have he := Server.handle_effect (s := s) (c := c) hx
    exact (he.username (by simp [Server.loginSucceeds, h])).1

/-- The request of a command is not the receive branch's empty message. -/
theorem cStr_ne_nil {raw : Str} (h : (parseCommand raw).1 ≠ .err) : cStr raw ≠ [] := by
  intro he
  rw [← parseCommand_cStr, he] at h
  exact h rfl

theorem plain_register (h : IsArg name) : Plain (.main .register, "REGISTER#".toList ++ name) := by
  have hr : IsArg "REGISTER".toList := ⟨by simp, by simp, by simp⟩
  have hp := parseCommand_two hr h
  rw [cmdType_two, if_pos rfl] at hp
  have htext : "REGISTER#".toList ++ name = "REGISTER".toList ++ "#".toList ++ name := rfl
  rw [← htext] at hp
  refine ⟨by simp, ?_, ?_, ?_, cStr_ne_nil (by rw [hp]; simp)⟩
  all_goals
    rw [parseCommand_cStr, hp]
    simp [Server.throws]

theorem plain_list : Plain (.main (.list false), "List".toList) := by
  refine ⟨by simp, ?_, ?_, ?_, by decide⟩
  all_goals decide +kernel

theorem plain_transfer {sender receiver : Str} {amount : Int} (hs : IsArg sender)
    (hr : IsArg receiver) (h1 : -2 ^ 31 ≤ amount) (h2 : amount < 2 ^ 31) :
    Plain (.receiving, transactMsg sender amount receiver) := by
  have hp := parseCommand_transactMsg hs (x := (amount, receiver)) ⟨h1, h2, hr⟩
  refine ⟨by simp, ?_, ?_, ?_, cStr_ne_nil (by simp [hp])⟩
  · rw [parseCommand_cStr, hp]
    simp
  · rw [parseCommand_cStr, hp]
    simp
  · rw [parseCommand_cStr, hp, Server.throws_transaction, stod_toStr h1 h2]
    rfl

/-- A LOGIN is no Exit, whatever the name makes of it. -/
theorem login_ne_exit (h : name = [] ∨ IsArg name) (port : Int) :
    (parseCommand (name ++ "#".toList ++ toStr port)).1 ≠ .exit := by
  rcases h with rfl | hname
  · have hp := congrArg Prod.fst (parseCommand_unnamed port)
    intro he
    cases hp.symm.trans he
  · rw [parseCommand_two hname (isArg_toStr port), cmdType_two]
    split
    · simp
    · split <;> simp

end

/-! ## The server and the other connections -/

section
variable {p : Pair} {c : Conn}

theorem conn_some (h : p.conn = some c) : p.serverFd = some c.id ∧ c ∈ p.server.conns.rows := by
  obtain ⟨-, h⟩ := Option.ite_none_left_eq_some.1 h
  obtain ⟨id, hid, hc⟩ := Option.bind_eq_some_iff.1 h
  obtain rfl := Keyed.find?_key hc
  exact ⟨hid, Keyed.find?_mem hc⟩

/-- The call of `process_request` that answers a message goes on with what the `switch` has left. -/
theorem conn_serve (hlive : p.exited = false) (hfd : p.serverFd = some c.id)
    (hc : c ∈ p.server.conns.rows) (origin : Origin) {text : Str} (hraw : cStr text ≠ [])
    (hx : (parseCommand (cStr text)).1 ≠ .exit) {fd : Nat} {response : Str}
    (h : (p.server.handle c (cStr text)).outcome = .sent fd response) (resume stray : Bool) :
    (p.serve c origin text resume stray).conn =
      some { c with username := (p.server.handle c (cStr text)).username } := by
  show (if p.exited then none
    else p.serverFd.bind (p.server.iteration c text resume).conns.find?) = _
  rw [hlive, if_neg Bool.false_ne_true, hfd]
  exact Server.find?_iteration_sent hc hraw hx h resume

/-- A LOGIN without a reply yet is no attempt. -/
theorem zip_handled {took : List Bool} {past : List (Option Status)}
    (h : took.length = past.length) (status : Option Status) :
    took.zip (past ++ [status]) = took.zip past :=
  calc took.zip (past ++ [status])
      = (took ++ []).zip (past ++ [status]) := by rw [List.append_nil]
    _ = took.zip past ++ [].zip [status] := List.zip_append h
    _ = took.zip past := List.append_nil _

/-- While no LOGIN is waited for, none is under way. -/
theorem Coupled.idle (h : Coupled p) (hwaits : p.main ≠ .waiting .login) : Idle p := by
  rcases h.phase with hi | hw | ha
  · exact hi
  · exact absurd hw.waits hwaits
  · exact absurd ha.waits hwaits

/-- What is answered elsewhere puts no frame on the client's connection. -/
theorem mail_elsewhere (hother : p.serverFd ≠ some c.id) {text : Str}
    (h : p.Elsewhere (parseCommand (cStr text))) (stray : Bool) : p.mail c text stray = [] := by
  have he := Server.handle_ending p.server c (cStr text)
  unfold mail
  split
  · rfl
  generalize (p.server.handle c (cStr text)).outcome = o at he
  cases he with
  | throws => rfl
  | own => exact if_neg hother
  | payer response ht hcmd hfd =>
    have hpaid := h hcmd (by simpa [Server.throws, hcmd] using ht)
    rw [hfd, Option.any_some, decide_eq_true_eq] at hpaid
    exact if_neg hpaid
  | noPayer ht hn =>
    simp only [Server.unanswerable, Bool.and_eq_true, decide_eq_true_eq,
      Option.isNone_iff_eq_none] at hn
    have hpaid := h hn.1 (by simpa [Server.throws, hn.1] using ht)
    rw [hn.2] at hpaid
    cases hpaid
  | noRow _ hcmd =>
    have hst : transferStatus p.server (cStr text) = none := by
      simp [transferStatus, hcmd]
    rw [hst]

/-- Steps of the server that leave the client's connection alone. While the client waits for its
LOGIN to be handled they send it nothing. -/
theorem Coupled.other (h : Coupled p) {server : Server} (frames : List Str)
    (hs : Sessions server) (hcl : Clean server) (hacc : p.server.accepted ≤ server.accepted)
    (hfind : ∀ id, p.serverFd = some id → server.conns.find? id = p.server.conns.find? id)
    (hquiet : (p.toServer.any fun q => q.1 = .main .login) = true → frames = []) :
    Coupled { p with server, toClient := p.toClient ++ frames } := by
  have hconn : ({ p with server, toClient := p.toClient ++ frames } : Pair).conn = p.conn := by
    show (if p.exited then none else p.serverFd.bind server.conns.find?) =
      if p.exited then none else p.serverFd.bind p.server.conns.find?
    congr 1
    cases hfd : p.serverFd with
    | none => rfl
    | some id => exact hfind id hfd
  refine ⟨hs, hcl, h.alive, fun id hid => Nat.lt_of_lt_of_le (h.fd id hid) hacc, h.typed,
    h.attempts, ?_⟩
  rcases h.phase with hi | hw | ha
  · refine .inl ⟨hi.waits, hi.plain, hi.lengths, fun ho => ?_⟩
    rw [Named, hconn]
    exact hi.opened ho
  · refine .inr (.inl ⟨hw.waits, hw.closed, hw.frame, ?_, hw.lengths⟩)
    obtain ⟨port, -, -, hframe⟩ := hw.frame
    show p.toClient ++ frames = []
    rw [hw.quiet, hquiet (by simp [hframe])]
    rfl
  · refine .inr (.inr ⟨ha.waits, ha.closed, ha.quiet, ?_⟩)
    obtain ⟨response, rest, past, status, hr, hst, hlen, hiff, hname⟩ := ha.reply
    refine ⟨response, rest ++ frames, past, status, ?_, hst, hlen, hiff, ?_⟩
    · show p.toClient ++ frames = response :: (rest ++ frames)
      rw [hr]
      rfl
    · rw [Named, hconn]
      exact hname

/-- A new connection is a fresh one, of clean texts. -/
theorem Coupled.accepting (h : Coupled p) {a b c d : UInt8} {port : Int} {server : Server}
    (hs : p.server.step (.accept (inetNtoa a b c d) port) = some server) :
    Sessions server ∧ Clean server ∧ server.accepted = p.server.accepted + 1 := by
  have hcl : Clean server := by
    refine h.clean.step (fun ip port' ha => ?_) hs
    cases ha
    have htoken : IsToken [] (inetNtoa a b c d) := isToken_inetNtoa a b c d (by simp)
    exact htoken.nul
  refine ⟨h.sessions.step hs, hcl, ?_⟩
  rw [Server.step_accept hs]
  rfl

theorem Coupled.otherAccept (h : Coupled p) {a b c d : UInt8} {port : Int} {server : Server}
    (hs : p.server.step (.accept (inetNtoa a b c d) port) = some server) :
    Coupled { p with server } := by
  obtain ⟨hsess, hcl, hacc⟩ := h.accepting hs
  have hc := h.other [] hsess hcl (by omega) (fun id hid => ?_) fun _ => rfl
  · rwa [List.append_nil] at hc
  · have hne : p.server.accepted ≠ id := by
      have := h.fd id hid
      omega
    rw [Server.step_accept hs, Server.accepting, Keyed.find?_replace, if_neg hne]

theorem Coupled.otherMessage (h : Coupled p) (hc : c ∈ p.server.conns.rows)
    (hother : p.serverFd ≠ some c.id) {text : Str} {resume stray : Bool}
    (hg : (p.toServer.any fun q => q.1 = .main .login) = true →
      p.Elsewhere (parseCommand (cStr text))) :
    Coupled (p.served c text resume stray) := by
  have hs := Server.step_message hc text resume
  refine h.other _ (h.sessions.step hs) (h.clean.step (by simp) hs)
    (Server.accepted_iteration ..).ge (fun id hid => ?_)
    fun hl => mail_elsewhere hother (hg hl) stray
  apply Server.find?_iteration_other hc
  rintro rfl
  exact hother hid

theorem Coupled.otherHangup (h : Coupled p) (hc : c ∈ p.server.conns.rows)
    (hother : p.serverFd ≠ some c.id) : Coupled { p with server := p.server.disconnect c } := by
  have hs := Server.step_hangup hc
  have hc := h.other [] (h.sessions.step hs) (h.clean.step (by simp) hs) le_rfl
    (fun id hid => ?_) fun _ => rfl
  · rwa [List.append_nil] at hc
  · have hne : c.id ≠ id := by
      rintro rfl
      exact hother hid
    rw [Server.disconnect, Keyed.find?_erase, if_neg hne]

/-! ## The client's connection -/

theorem Coupled.connect (h : Coupled p) (hmain : p.main = .start) {a b c d : UInt8} {port : Int}
    {server : Server} (hs : p.server.step (.accept (inetNtoa a b c d) port) = some server) :
    Coupled { p with server, serverFd := some p.server.accepted, main := .menu } := by
  obtain ⟨hsess, hcl, hacc⟩ := h.accepting hs
  have hi : Idle p := h.idle (by rw [hmain]; simp)
  refine ⟨hsess, hcl, h.alive, fun id hid => ?_, h.typed, h.attempts,
    .inl ⟨by simp, hi.plain, hi.lengths, fun ho => absurd hmain (hi.opened ho).1⟩⟩
  cases hid
  show p.server.accepted < server.accepted
  omega

theorem Coupled.hangup (h : Coupled p) (hconn : p.conn = some c) (hmain : p.main = .gone) :
    Coupled { p with server := p.server.disconnect c } := by
  have hs := Server.step_hangup (conn_some hconn).2
  have hi : Idle p := h.idle (by rw [hmain]; simp)
  exact ⟨h.sessions.step hs, h.clean.step (by simp) hs, h.alive, h.fd, h.typed, h.attempts,
    .inl ⟨hi.waits, hi.plain, hi.lengths, fun ho => ⟨(hi.opened ho).1, absurd hmain⟩⟩⟩

/-- The server takes a frame that is no LOGIN. -/
theorem Coupled.serve_plain (h : Coupled p) (hi : Idle p) (hconn : p.conn = some c)
    {origin : Origin} {text : Str} {rest : List (Origin × Str)}
    (hq : p.toServer = (origin, text) :: rest)
    (hdef : p.Defined c text) (resume stray : Bool) :
    Coupled (p.serve c origin text resume stray) := by
  obtain ⟨hfd, hc⟩ := conn_some hconn
  have hs := Server.step_message hc text resume
  have hplain : Plain (origin, text) := hi.plain _ (by rw [hq]; exact List.mem_cons_self)
  have hstatuses : (p.serve c origin text resume stray).statuses = p.statuses :=
    if_neg hplain.main
  refine ⟨h.sessions.step hs, h.clean.step (by simp) hs, h.alive, fun id hid => ?_, h.typed, ?_,
    .inl ⟨hi.waits, fun q hq => hi.plain q (List.mem_of_mem_tail hq), ?_, fun ho => ?_⟩⟩
  · exact Nat.lt_of_lt_of_le (h.fd id hid) (Server.accepted_iteration ..).ge
  · rw [hstatuses]
    exact h.attempts
  · rw [hstatuses]
    exact hi.lengths
  · obtain ⟨hstart, hnamed⟩ := hi.opened ho
    obtain ⟨fd, response, hsent⟩ := h.sessions.handle_sent hc hplain.converts
      (hdef.2 hplain.converts)
    refine ⟨hstart, fun hgone =>
      ⟨_, conn_serve h.alive hfd hc _ hplain.ne hplain.exit hsent .., ?_⟩⟩
    obtain ⟨c', hc', hname⟩ := hnamed hgone
    obtain rfl : c = c' := Option.some.inj (hconn.symm.trans hc')
    exact (username_handle hplain.login).trans hname

/-- The server takes the LOGIN. -/
theorem Coupled.serve_login (h : Coupled p) (hw : Sent p) (hconn : p.conn = some c)
    {origin : Origin} {text : Str} {rest : List (Origin × Str)}
    (hq : p.toServer = (origin, text) :: rest) (resume stray : Bool) :
    Coupled (p.serve c origin text resume stray) := by
  obtain ⟨hfd, hc⟩ := conn_some hconn
  have hs := Server.step_message hc text resume
  obtain ⟨port, h1, h2, hframe⟩ := hw.frame
  obtain ⟨⟨rfl, rfl⟩, rfl⟩ : (origin = .main .login ∧ text = p.name ++ "#".toList ++ toStr port) ∧
      rest = [] := by
    simpa using hq.symm.trans hframe
  obtain ⟨response, hans⟩ := exists_loginAnswer h.clean hc h.typed h1 h2
  have hlines : isSuccess response = true ↔ 2 < (split response "\n".toList).length := by
    simp only [isSuccess, decide_eq_true_eq]
  have htext := cStr_login h.typed port
  have hx := login_ne_exit h.typed port
  have hne : p.name ++ "#".toList ++ toStr port ≠ [] := by simp
  generalize p.name ++ "#".toList ++ toStr port = text at hq hans hs htext hx hne ⊢
  have hmail : p.mail c text stray = [response] := by
    unfold mail
    rw [htext, if_neg hne, hans.sent]
    exact if_pos hfd
  have hstatuses : (p.serve c (.main .login) text resume stray).statuses =
      p.statuses ++ [p.server.dbStatus c (parseCommand text)] := by
    unfold serve
    rw [if_pos rfl, htext]
  have hlives : (p.serve c (.main .login) text resume stray).conn =
      some { c with username := (p.server.handle c text).username } := by
    have hsent : (p.server.handle c (cStr text)).outcome = .sent c.id response := by
      rw [htext]
      exact hans.sent
    rw [conn_serve h.alive hfd hc _ (by rwa [htext]) (by rwa [htext]) hsent, htext]
  refine ⟨h.sessions.step hs, h.clean.step (by simp) hs, h.alive, fun id hid => ?_, h.typed, ?_,
    .inr (.inr ⟨hw.waits, hw.closed, ?_, response, [], p.statuses, _, ?_, hstatuses, hw.lengths,
      hlines.trans hans.status, fun hsucc => ⟨_, hlives, hans.accepted (hlines.1 hsucc)⟩⟩)⟩
  · exact Nat.lt_of_lt_of_le (h.fd id hid) (Server.accepted_iteration ..).ge
  · rw [hstatuses]
    show ∀ x ∈ p.took.zip _, _
    rw [zip_handled hw.lengths]
    exact h.attempts
  · show p.toServer.tail = []
    rw [hq]
    rfl
  · show p.toClient ++ p.mail c text stray = [response]
    rw [hw.quiet, hmail]
    rfl

theorem Coupled.serve (h : Coupled p) (hconn : p.conn = some c) {origin : Origin} {text : Str}
    {rest : List (Origin × Str)} (hq : p.toServer = (origin, text) :: rest)
    (hdef : p.Defined c text) (resume stray : Bool) :
    Coupled (p.serve c origin text resume stray) := by
  rcases h.phase with hi | hw | ha
  · exact h.serve_plain hi hconn hq hdef resume stray
  · exact h.serve_login hw hconn hq resume stray
  · rw [ha.quiet] at hq
    cases hq

end

/-! ## The client -/

section
variable {p : Pair} {name : Str}

theorem Coupled.rename (h : Coupled p) (hi : Idle p) (hname : name = [] ∨ IsArg name)
    (hopen : p.clientServerOpen = true → name = p.name) (loginPort : Int) :
    Coupled { p with name, loginPort } := by
  refine ⟨h.sessions, h.clean, h.alive, h.fd, hname, h.attempts,
    .inl ⟨hi.waits, hi.plain, hi.lengths, fun ho => ?_⟩⟩
  obtain ⟨hstart, hnamed⟩ := hi.opened ho
  refine ⟨hstart, fun hgone => ?_⟩
  obtain ⟨c, hc, hu⟩ := hnamed hgone
  exact ⟨c, hc, hu.trans (hopen ho).symm⟩

/-- The main thread sends a request other than a LOGIN. -/
theorem Coupled.request (h : Coupled p) (hi : Idle p) (hgone : p.main ≠ .gone) {r : Request}
    {text : Str} (hr : r ≠ .login) (hplain : Plain (.main r, text)) :
    Coupled (p.request r text) := by
  refine ⟨h.sessions, h.clean, h.alive, h.fd, h.typed, h.attempts,
    .inl ⟨?_, fun q hq => ?_, hi.lengths, fun ho => ⟨?_, fun _ => (hi.opened ho).2 hgone⟩⟩⟩
  · simpa [Pair.request] using hr
  · rcases List.mem_append.1 hq with hq | hq
    · exact hi.plain q hq
    · rw [List.mem_singleton.1 hq]
      exact hplain
  · simp [Pair.request]

theorem Coupled.register (h : Coupled p) (hmenu : p.main = .menu) (hname : IsArg name) :
    Coupled ({ p with name := if p.clientServerOpen then p.name else name }.request .register
      ("REGISTER#".toList ++ name)) := by
  have hi : Idle p := h.idle (by simp [hmenu])
  have hr : Coupled { p with name := if p.clientServerOpen then p.name else name } := by
    refine h.rename hi ?_ (fun ho => if_pos ho) p.loginPort
    split
    · exact h.typed
    · exact .inr hname
  exact hr.request (hr.idle hi.waits) (by simp [hmenu]) (by simp) (plain_register hname)

/-- A LOGIN is sent while nothing is under way. -/
theorem Coupled.login (h : Coupled p) (hi : Idle p) (hclosed : p.clientServerOpen = false)
    (hquiet : p.toServer = [] ∧ p.toClient = []) {port : Int} (h1 : -2 ^ 31 ≤ port)
    (h2 : port < 2 ^ 31) :
    Coupled (p.request .login (p.name ++ "#".toList ++ toStr port)) := by
  refine ⟨h.sessions, h.clean, h.alive, h.fd, h.typed, h.attempts,
    .inr (.inl ⟨rfl, hclosed, ⟨port, h1, h2, ?_⟩, hquiet.2, hi.lengths⟩)⟩
  show p.toServer ++ _ = _
  rw [hquiet.1]
  rfl

theorem Coupled.forward (h : Coupled p) (hopen : p.clientServerOpen = true)
    {q : Origin × Str} (hq : Plain q) : Coupled { p with toServer := p.toServer ++ [q] } := by
  have hi : Idle p := by
    rcases h.phase with hi | hw | ha
    · exact hi
    · rw [hw.closed] at hopen
      cases hopen
    · rw [ha.closed] at hopen
      cases hopen
  refine ⟨h.sessions, h.clean, h.alive, h.fd, h.typed, h.attempts,
    .inl ⟨hi.waits, fun x hx => ?_, hi.lengths, hi.opened⟩⟩
  rcases List.mem_append.1 hx with hx | hx
  · exact hi.plain x hx
  · rw [List.mem_singleton.1 hx]
    exact hq

/-- The main thread is back at the menu, or ends. -/
theorem Coupled.goOn (h : Coupled p) (hi : Idle p) (hgone : p.main ≠ .gone) (main : Main)
    (hmain : main ≠ .waiting .login) (hstart : main ≠ .start) (toClient : List Str) :
    Coupled { p with main, toClient } :=
  ⟨h.sessions, h.clean, h.alive, h.fd, h.typed, h.attempts,
    .inl ⟨hmain, hi.plain, hi.lengths, fun ho => ⟨hstart, fun _ => (hi.opened ho).2 hgone⟩⟩⟩

/-- The client takes the reply to its LOGIN, which says what `user_login` has returned. -/
theorem Coupled.attempted (h : Coupled p) (ha : Answered p) {text : Str} {rest : List Str}
    (hq : p.toClient = text :: rest) (main : Main) (hmain : main ≠ .waiting .login)
    (hstart : main ≠ .start) (opens : Bool) (hopens : opens = true → isSuccess text = true) :
    Coupled { p with
      toClient := rest, main, clientServerOpen := opens
      took := p.took ++ [isSuccess text] } := by
  obtain ⟨response, rest', past, status, hr, hst, hlen, hiff, hname⟩ := ha.reply
  obtain ⟨rfl, rfl⟩ := List.cons.inj (hq.symm.trans hr)
  have hpast : p.took.zip p.statuses = p.took.zip past := by
    rw [hst, zip_handled hlen]
  refine ⟨h.sessions, h.clean, h.alive, h.fd, h.typed, fun x hx => ?_,
    .inl ⟨hmain, fun q hq => ?_, ?_, fun ho => ⟨hstart, fun _ => hname (hopens ho)⟩⟩⟩
  · have hx : x ∈ (p.took ++ [isSuccess text]).zip p.statuses := hx
    rw [hst, List.zip_append hlen] at hx
    rcases List.mem_append.1 hx with hx | hx
    · exact h.attempts x (hpast ▸ hx)
    · rw [List.mem_singleton.1 hx]
      exact hiff
  · have hq : q ∈ p.toServer := hq
    rw [ha.quiet] at hq
    cases hq
  · show (p.took ++ [isSuccess text]).length = p.statuses.length
    rw [hst, List.length_append, List.length_append, hlen]
    rfl

theorem Coupled.resume_login (h : Coupled p) (ha : Answered p) {text : Str} {rest : List Str}
    (hq : p.toClient = text :: rest) (info : Except ListError ListInfo) (bound : Bool) :
    Coupled ({ p with toClient := rest }.resume text info bound .login) := by
  have hclosed := h.attempted ha hq .menu nofun nofun p.clientServerOpen
    (by simp [ha.closed])
  cases hsucc : isSuccess text with
  | false =>
    rw [hsucc] at hclosed
    simpa [resume, hsucc] using hclosed
  | true =>
    have hopen := h.attempted ha hq .renewing nofun nofun true fun _ => hsucc
    rw [hsucc] at hclosed hopen
    cases bound with
    | true => simpa [resume, hsucc] using hopen
    | false => simpa [resume, hsucc] using hclosed

theorem Coupled.resume (h : Coupled p) {r : Request} (hmain : p.main = .waiting r) {text : Str}
    {rest : List Str} (hq : p.toClient = text :: rest) (info : Except ListError ListInfo)
    (bound : Bool) : Coupled ({ p with toClient := rest }.resume text info bound r) := by
  by_cases hr : r = .login
  · subst hr
    rcases h.phase with hi | hw | ha
    · exact absurd hmain hi.waits
    · rw [hw.quiet] at hq
      cases hq
    · exact h.resume_login ha hq info bound
  have hi : Idle p := h.idle (by simpa [hmain] using hr)
  have hrun : p.main ≠ .gone := by simp [hmain]
  have hmenu := h.goOn hi hrun .menu (by simp) (by simp) rest
  have hgone := h.goOn hi hrun .gone (by simp) (by simp) rest
  cases r with
  | login => exact absurd rfl hr
  | list pay =>
    unfold Pair.resume
    dsimp only
    split
    · exact hmenu
    · split
      · exact hgone
      · exact hmenu
  | register | transfer | exit => exact hmenu

/-! ## Every run -/

theorem Coupled.step (h : Coupled p) {turn : Turn} (hg : p.Undisturbed turn) {p' : Pair}
    (hs : p.step turn = some p') : Coupled p' := by
  cases turn with
  | connect a b c d port =>
    obtain ⟨⟨hmain, -⟩, hs⟩ := Option.ite_none_right_eq_some.1 hs
    obtain ⟨server, hserver, rfl⟩ := Option.map_eq_some_iff.1 hs
    exact h.connect hmain hserver
  | register name =>
    obtain ⟨⟨hmain, hname⟩, ⟨⟩⟩ := Option.ite_none_right_eq_some.1 hs
    exact h.register hmain (isArg_of_isName hname)
  | login typed port bound =>
    obtain ⟨⟨hmain, hclosed, htyped, h1, h2⟩, ⟨⟩⟩ := Option.ite_none_right_eq_some.1 hs
    have hi : Idle p := h.idle (by simp [hmain])
    have hr : Coupled { p with name := typed.getD p.name, loginPort := port } := by
      refine h.rename hi ?_ (fun ho => absurd ho (by simp [hclosed])) port
      cases typed with
      | none => exact h.typed
      | some name => exact .inr (isArg_of_isName htyped)
    cases bound with
    | true => exact hr.login (hr.idle hi.waits) hclosed hg h1 h2
    | false => exact hr
  | list =>
    obtain ⟨hmain, ⟨⟩⟩ := Option.ite_none_right_eq_some.1 hs
    refine h.request (h.idle ?_) ?_ (by simp) plain_list
    all_goals
      rcases hmain with hmain | hmain
      all_goals simp [hmain]
  | reply bound mixed =>
    simp only [Pair.step] at hs
    split at hs
    · rename_i r text rest hmain hq
      obtain ⟨-, ⟨⟩⟩ := Option.ite_none_right_eq_some.1 hs
      exact h.resume hmain hq _ bound
    · cases hs
  | forward sender amount receiver =>
    obtain ⟨⟨hopen, -, hsender, hreceiver, h1, h2⟩, ⟨⟩⟩ := Option.ite_none_right_eq_some.1 hs
    exact h.forward hopen
      (plain_transfer (isArg_of_isName hsender) (isArg_of_isName hreceiver) h1 h2)
  | serve resume stray =>
    simp only [Pair.step] at hs
    split at hs
    · rename_i c origin text rest hconn hq
      have hdef : p.Defined c text := hg c hconn (origin, text) (by rw [hq]; rfl)
      rw [hdef.1, if_neg Bool.false_ne_true, Option.some.injEq] at hs
      subst hs
      exact h.serve hconn hq hdef resume stray
    · cases hs
  | hangup =>
    simp only [Pair.step] at hs
    split at hs
    · rename_i c hconn hq
      obtain ⟨hmain, ⟨⟩⟩ := Option.ite_none_right_eq_some.1 hs
      exact h.hangup hconn hmain
    · cases hs
  | otherAccept a b c d port =>
    obtain ⟨-, hs⟩ := Option.ite_none_left_eq_some.1 hs
    obtain ⟨server, hserver, rfl⟩ := Option.map_eq_some_iff.1 hs
    exact h.otherAccept hserver
  | otherMessage id buffer resume stray =>
    obtain ⟨hother, hs⟩ := Option.ite_none_left_eq_some.1 hs
    obtain ⟨c, hc, rfl⟩ := Option.map_eq_some_iff.1 hs
    obtain rfl := Keyed.find?_key hc
    rw [(hg.1 c hc).1, if_neg Bool.false_ne_true]
    exact h.otherMessage (Keyed.find?_mem hc) (not_or.1 hother).2 hg.2
  | otherHangup id =>
    obtain ⟨hother, hs⟩ := Option.ite_none_left_eq_some.1 hs
    obtain ⟨c, hc, rfl⟩ := Option.map_eq_some_iff.1 hs
    obtain rfl := Keyed.find?_key hc
    exact h.otherHangup (Keyed.find?_mem hc) (not_or.1 hother).2

theorem Coupled.init {t : Table} (ht : ∀ r ∈ t.rows, '\x00' ∉ r.username ∧ '\x00' ∉ r.ip) :
    Coupled (Pair.init t) := by
  refine ⟨.init t, .init ht, rfl, ?_, .inl rfl, ?_, .inl ⟨?_, ?_, rfl, ?_⟩⟩
  · simp [Pair.init]
  · simp [Pair.init]
  · simp [Pair.init]
  · simp [Pair.init]
  · simp [Pair.init]

theorem Coupled.agree (h : Coupled p) : Agree p := by
  rcases h.phase with hi | hw | ha
  · exact ⟨fun ho => (hi.opened ho).2, hi.lengths.le, h.attempts⟩
  · exact ⟨fun ho => absurd ho (by simp [hw.closed]), hw.lengths.le, h.attempts⟩
  · obtain ⟨response, rest, past, status, -, hst, hlen, -, -⟩ := ha.reply
    refine ⟨fun ho => absurd ho (by simp [ha.closed]), ?_, h.attempts⟩
    rw [hst, List.length_append, hlen]
    omega

/-- **Client and server agree on who is logged in** in every run in which each LOGIN is sent when no
other frame is under way on the connection, and answered before the server answers anyone else
there, and in which no message ends the server or has nobody to answer. -/
theorem login_agreed {t : Table} (ht : ∀ r ∈ t.rows, '\x00' ∉ r.username ∧ '\x00' ∉ r.ip)
    {turns : List Turn} (h : Run Pair.step Undisturbed (Pair.init t) turns p) : Agree p :=
  (h.inv (fun _ _ _ hi hg hs => hi.step hg hs) (Coupled.init ht)).agree

end

/-! ## One client and another connection -/

/-- The client and another connection register as `a` and `b`. -/
def registered : List Turn :=
  [.connect 127 0 0 1 5000, .otherAccept 127 0 0 1 5001,
    .register "a".toList, .serve false false, .reply true none,
    .otherMessage 1 "REGISTER#b".toList false false]

theorem login_agreed_one : ∃ p, Run Pair.step Undisturbed (Pair.init Keyed.empty)
    (registered ++ [.login none 6000 true, .otherMessage 1 "b#6001".toList false false,
      .serve false false, .reply true none, .list, .otherMessage 1 "a#1#b".toList false false,
      .serve false false, .reply true none]) p ∧ Agree p := by
  have hrun : allowed Pair.step Undisturbed (Pair.init Keyed.empty)
      (registered ++ [.login none 6000 true, .otherMessage 1 "b#6001".toList false false,
        .serve false false, .reply true none, .list, .otherMessage 1 "a#1#b".toList false false,
        .serve false false, .reply true none]) = true := by
    decide +kernel
  obtain ⟨p, -, hr⟩ := Run.of_allowed hrun
  exact ⟨p, hr, login_agreed (fun r hr => absurd hr List.not_mem_nil) hr⟩

/-- The client logs in as `a`, and its port is taken by then. It goes on at the menu, where the
answer to another connection's transfer of `a` waits for it: it takes that for the reply to its
next LOGIN, as `b`, and the list for `b` for the reply to the one as `z`. -/
def misled : List Turn :=
  [.login none 6000 true, .serve false false, .reply false none,
    .otherMessage 1 "a#1#b".toList false false,
    .login (some "b".toList) 6000 true, .reply true none, .serve false false,
    .login (some "z".toList) 6000 true, .reply true none]

theorem login_disagreed : ∃ p, Run Pair.step Any (Pair.init Keyed.empty) (registered ++ misled) p ∧
    p.clientServerOpen = true ∧ p.main = .renewing ∧ p.name = "z".toList ∧
    p.conn.map Conn.username = some "b".toList ∧ p.took = [true, false, true] ∧
    p.statuses = [some .loginSuccess, some .loginSuccess] ∧ ¬Agree p := by
  have hend : (runAll Pair.step (Pair.init Keyed.empty) (registered ++ misled)).any (fun p =>
      p.clientServerOpen = true ∧ p.main = .renewing ∧ p.name = "z".toList ∧
        p.conn.map Conn.username = some "b".toList ∧ p.took = [true, false, true] ∧
        p.statuses = [some .loginSuccess, some .loginSuccess]) = true := by
    decide +kernel
  obtain ⟨p, hp, hend⟩ := (Option.any_eq_true _ _).1 hend
  obtain ⟨hopen, hmain, hname, hconn, htook, hst⟩ := of_decide_eq_true hend
  refine ⟨p, Run.of_runAll hp, hopen, hmain, hname, hconn, htook, hst, fun h => ?_⟩
  obtain ⟨c, hc, hagree⟩ := h.name hopen (by simp [hmain])
  rw [hc, Option.map_some, hagree, hname] at hconn
  cases hconn

end Pair

end Micropayment
