import Micropayment.Database

/-!
# The server (`process_request` of `server.cpp`)

The state is the table, `client_fds` and, for every live connection, its endpoint and the local
`username` of its `process_request`. `Server.step` is one accepted connection, or one whole
iteration of a connection's loop; the branches of its `switch` are the `..Case` functions. What an
iteration can change is collected in `handle_cases`, and `step_cases` for the whole system.
-/

set_option autoImplicit false

namespace Micropayment

/-- A running `process_request`. Its `id` is the variable `connection`, to which `client_fds`
points. -/
structure Conn where
  id : Nat
  clientip : Str
  clientport : Int
  username : Str
  deriving DecidableEq, Repr

/-- `accepted` is the number of connections so far: the next one gets it as its `id`. -/
structure Server where
  table : Table
  clientFds : List (Str × Nat)
  conns : Keyed Conn.id
  accepted : Nat

/-- How the `switch` of an iteration ends: in `send_P3`, by an exception, or with undefined
behaviour (an empty vector's `[0]`, or a `sender_fd` that is not set or points to an ended call). -/
inductive Outcome where
  | sent (fd : Nat) (response : Str)
  | throws
  | undefined
  deriving DecidableEq, Repr

/-- What the `switch` leaves of the variables it can change, and how it ends. -/
structure Handled where
  table : Table
  clientFds : List (Str × Nat)
  username : Str
  outcome : Outcome

def Conn.endpoint (c : Conn) : Str × Int := (c.clientip, c.clientport)

def Client.endpoint (r : Client) : Str × Int := (r.ip, r.publicPort)

/-- The reply to a LIST and to a successful LOGIN of `user`. -/
def listResponse (t : Table) (user : Client) : Str :=
  toStr user.balance ++ "\n".toList ++ (toStr (userNum t) ++ "\n".toList) ++ userListInfo t

namespace Server

/-- The `for` loop that removes a connection's entry from `client_fds`. -/
def eraseFd (fds : List (Str × Nat)) (username : Str) : List (Str × Nat) :=
  fds.eraseP fun fd => fd.1 = username

/-! ## The branches of the `switch` -/

section
variable (s : Server) (c : Conn) (processedCmd : List Str)

def registerCase : Handled :=
  let r := (userRegister (arg processedCmd 1) c.clientip).run s.table
  let response :=
    if r.1 = .registerOk then toStr r.1.code ++ " OK\n".toList
    else toStr r.1.code ++ " FAIL\n".toList
  ⟨r.2, s.clientFds, c.username, .sent c.id response⟩

def loginCase : Handled :=
  match stoi (arg processedCmd 1) with
  | .error _ => ⟨s.table, s.clientFds, c.username, .throws⟩
  | .ok privatePort =>
    let r := (userLogin (arg processedCmd 0) c.clientip c.clientport privatePort).run s.table
    match r.1 with
    | .loginAuthFail =>
      ⟨r.2, s.clientFds, c.username, .sent c.id (toStr r.1.code ++ " AUTH_FAIL\n".toList)⟩
    | .loginExist =>
      ⟨r.2, s.clientFds, c.username, .sent c.id (toStr r.1.code ++ " DUPLICATE_LOGIN\n".toList)⟩
    | _ =>
      let username := arg processedCmd 0
      ⟨r.2, s.clientFds ++ [(username, c.id)], username,
        match userInfo r.2 username with
        | some user => .sent c.id (listResponse r.2 user)
        | none => .undefined⟩

def listCase : Handled :=
  ⟨s.table, s.clientFds, c.username,
    if (list s.table true).length = 0 ∨ c.username = [] then
      .sent c.id "Please login first\n".toList
    else match userInfo s.table c.username with
      | some user => .sent c.id (listResponse s.table user)
      | none => .undefined⟩

def transferResponse : Status → Str
  | .transferOk => "transfer OK\n".toList
  | .transferFail => "transfer FAIL\n".toList
  | .transferSenderBankrupt => "transfer FAIL due to bankruptcy\n".toList
  | .transferSelfFail => "transfer FAIL; can't transfer to yourself\n".toList
  | _ => []

/-- The descriptor that `*sender_fd` reads, if that is defined. -/
def senderFd (sender : Client) : Option Nat :=
  match s.clientFds.find? fun fd => fd.1 = sender.username with
  | some fd => if (s.conns.find? fd.2).isSome then some fd.2 else none
  | none => none

def transactionCase : Handled :=
  match stod (arg processedCmd 1) with
  | .error _ => ⟨s.table, s.clientFds, c.username, .throws⟩
  | .ok pay =>
    let r := (userTransaction (arg processedCmd 0) (arg processedCmd 2) pay).run s.table
    ⟨r.2, s.clientFds, c.username,
      match (userInfo r.2 (arg processedCmd 0)).bind s.senderFd with
      | some fd => .sent fd (transferResponse r.1)
      | none => .undefined⟩

def exitCase : Handled :=
  ⟨((userLogout c.clientip c.clientport).run s.table).2, eraseFd s.clientFds c.username,
    c.username, .sent c.id "Bye\n".toList⟩

end

/-- `QUERY_ERROR` -/
def queryError : Int := 400

/-- The `switch` on the parsed command. -/
def handle (s : Server) (c : Conn) (raw : Str) : Handled :=
  let item := parseCommand raw
  match item.1 with
  | .register => s.registerCase c item.2
  | .login => s.loginCase c item.2
  | .list => s.listCase c
  | .transaction => s.transactionCase c item.2
  | .exit => s.exitCase c
  | .err => ⟨s.table, s.clientFds, c.username, .sent c.id (toStr queryError)⟩

/-- The `switch` comes to the `[0]` of an empty vector, as `user_info` finds no row, and the server
dies there. Any other undefined access is that of `*sender_fd`. -/
def crashes (s : Server) (c : Conn) (raw : Str) : Bool :=
  let item := parseCommand raw
  let h := s.handle c raw
  h.outcome = .undefined && !(item.1 = .transaction && (userInfo h.table (arg item.2 0)).isSome)

/-- The status that the branch of the parsed command `item` gets from the database; `none` if it
asks for none, or `stoi` or `stod` throws before. -/
def dbStatus (s : Server) (c : Conn) (item : Cmd × List Str) : Option Status :=
  match item.1 with
  | .register => some ((userRegister (arg item.2 1) c.clientip).run s.table).1
  | .login => (stoi (arg item.2 1)).toOption.map fun privatePort =>
      ((userLogin (arg item.2 0) c.clientip c.clientport privatePort).run s.table).1
  | .transaction => (stod (arg item.2 1)).toOption.map fun pay =>
      ((userTransaction (arg item.2 0) (arg item.2 2) pay).run s.table).1
  | _ => none

/-! ## The loop -/

/-- The branch taken when nothing could be received: `user_logout`, and the loop ends. -/
def disconnect (s : Server) (c : Conn) : Server where
  table := ((userLogout c.clientip c.clientport).run s.table).2
  clientFds := eraseFd s.clientFds c.username
  conns := s.conns.erase c.id
  accepted := s.accepted

/-- The state after the `switch`, with the connection still live or not. -/
def after (s : Server) (c : Conn) (h : Handled) (live : Bool) : Server where
  table := h.table
  clientFds := h.clientFds
  conns := if live then s.conns.update { c with username := h.username } else s.conns.erase c.id
  accepted := s.accepted

/-- Does the call of `process_request` survive the `switch`? An exception ends it, undefined
behaviour may or may not (`resume`). -/
def survives (resume : Bool) : Outcome → Bool
  | .sent _ _ => true
  | .throws => false
  | .undefined => resume

/-- One iteration of a connection's loop, in which `recv_P3` has delivered `buffer`. -/
def iteration (s : Server) (c : Conn) (buffer : Str) (resume : Bool) : Server :=
  let raw := cStr buffer
  if raw = [] then s.disconnect c
  else
    let h := s.handle c raw
    s.after c h ((parseCommand raw).1 ≠ .exit && survives resume h.outcome)

end Server

/-- What happens next: a new connection, a message on a live one, or a failed `recv`. -/
inductive Action where
  | accept (clientip : Str) (clientport : Int)
  | message (id : Nat) (buffer : Str) (resume : Bool)
  | hangup (id : Nat)
  deriving DecidableEq, Repr

namespace Server

def init (t : Table) : Server := ⟨t, [], Keyed.empty, 0⟩

/-- A new `process_request`. -/
def accepting (s : Server) (clientip : Str) (clientport : Int) : Server :=
  { s with
    conns := s.conns.replace ⟨s.accepted, clientip, clientport, []⟩
    accepted := s.accepted + 1 }

/-- No two live connections have the same endpoint, so an endpoint in use is not accepted. -/
def step (s : Server) : Action → Option Server
  | .accept clientip clientport =>
    if s.conns.rows.any fun c => c.endpoint = (clientip, clientport) then none
    else some (s.accepting clientip clientport)
  | .message id buffer resume => (s.conns.find? id).map fun c => s.iteration c buffer resume
  | .hangup id => (s.conns.find? id).map s.disconnect

/-! ## The branches, by what they find -/

/-- A successful LOGIN that writes the row `user`. -/
def loggedIn (s : Server) (c : Conn) (u : Str) (user : Client) : Handled :=
  ⟨s.table.update user, s.clientFds ++ [(u, c.id)], u,
    .sent c.id (listResponse (s.table.update user) user)⟩

section
variable {s : Server} {c : Conn} {u p snd n rcv : Str}

@[simp] theorem loggedIn_table (user : Client) :
    (s.loggedIn c u user).table = s.table.update user := rfl
@[simp] theorem loggedIn_username (user : Client) : (s.loggedIn c u user).username = u := rfl

theorem loginCase_throws {e : NumError} (hp : stoi p = .error e) :
    s.loginCase c [u, p] = ⟨s.table, s.clientFds, c.username, .throws⟩ := by
  simp only [loginCase, arg, List.getD_cons_succ, List.getD_cons_zero, hp]

theorem loginCase_eq {privatePort : Int} (hp : stoi p = .ok privatePort) :
    s.loginCase c [u, p] =
      match s.table.find? u with
      | none => ⟨s.table, s.clientFds, c.username,
          .sent c.id (toStr Status.loginAuthFail.code ++ " AUTH_FAIL\n".toList)⟩
      | some user =>
        if user.online then ⟨s.table, s.clientFds, c.username,
          .sent c.id (toStr Status.loginExist.code ++ " DUPLICATE_LOGIN\n".toList)⟩
        else s.loggedIn c u (user.login c.clientip c.clientport privatePort) := by
  simp only [loginCase, arg, List.getD_cons_succ, List.getD_cons_zero, hp, userLogin_run,
    userInfo_eq]
  cases hu : s.table.find? u with
  | none => rfl
  | some user =>
    dsimp only
    cases ho : user.online with
    | true => rfl
    | false =>
      simp only [Bool.false_eq_true, if_false, find?_login hu, if_true]
      rfl

theorem transactionCase_throws {e : NumError} (hn : stod n = .error e) :
    s.transactionCase c [snd, n, rcv] = ⟨s.table, s.clientFds, c.username, .throws⟩ := by
  simp only [transactionCase, arg, List.getD_cons_succ, List.getD_cons_zero, hn]

/-- A transfer changes no names, so the reply goes where the payer's row says before it. -/
theorem find?_transferred {pay : ℚ} :
    (((userTransaction snd rcv pay).run s.table).2.find? snd).bind s.senderFd =
      (s.table.find? snd).bind s.senderFd := by
  rcases userTransaction_run s.table snd rcv pay with ⟨a, b, ht, hrun⟩ | ⟨-, st, -, hrun⟩
  · rw [hrun, ht.find?_after, if_neg ht.ne.symm, if_pos rfl, ht.sender]
    rfl
  · rw [hrun]

theorem transactionCase_eq {pay : ℚ} (hn : stod n = .ok pay) :
    s.transactionCase c [snd, n, rcv] =
      ⟨((userTransaction snd rcv pay).run s.table).2, s.clientFds, c.username,
        match (s.table.find? snd).bind s.senderFd with
        | some fd => .sent fd (transferResponse ((userTransaction snd rcv pay).run s.table).1)
        | none => .undefined⟩ := by
  simp only [transactionCase, arg, List.getD_cons_succ, List.getD_cons_zero, hn, userInfo_eq,
    find?_transferred]

theorem transactionCase_sent {pay : ℚ} (hn : stod n = .ok pay) {fd : Nat}
    (hfd : (s.table.find? snd).bind s.senderFd = some fd) :
    (s.transactionCase c [snd, n, rcv]).outcome =
      .sent fd (transferResponse ((userTransaction snd rcv pay).run s.table).1) := by
  rw [transactionCase_eq hn, hfd]

theorem transactionCase_undefined {pay : ℚ} (hn : stod n = .ok pay)
    (hfd : (s.table.find? snd).bind s.senderFd = none) :
    (s.transactionCase c [snd, n, rcv]).outcome = .undefined := by
  rw [transactionCase_eq hn, hfd]

theorem dbStatus_login {privatePort : Int} (hp : stoi p = .ok privatePort) :
    s.dbStatus c (.login, [u, p]) =
      some ((userLogin u c.clientip c.clientport privatePort).run s.table).1 := by
  simp [dbStatus, arg, hp, Except.toOption]

theorem dbStatus_transaction {pay : ℚ} (hn : stod n = .ok pay) :
    s.dbStatus c (.transaction, [snd, n, rcv]) =
      some ((userTransaction snd rcv pay).run s.table).1 := by
  simp [dbStatus, arg, hn, Except.toOption]

/-! ## The `switch`, by the parsed command -/

variable {raw : Str}

theorem handle_register {args : List Str} (hp : parseCommand raw = (.register, args)) :
    s.handle c raw = s.registerCase c args := by
  simp only [handle, hp]

theorem handle_login {args : List Str} (hp : parseCommand raw = (.login, args)) :
    s.handle c raw = s.loginCase c args := by
  simp only [handle, hp]

theorem handle_list (hp : (parseCommand raw).1 = .list) : s.handle c raw = s.listCase c := by
  simp only [handle, hp]

theorem handle_transaction {args : List Str} (hp : parseCommand raw = (.transaction, args)) :
    s.handle c raw = s.transactionCase c args := by
  simp only [handle, hp]

theorem handle_exit (hp : (parseCommand raw).1 = .exit) : s.handle c raw = s.exitCase c := by
  simp only [handle, hp]

/-- What is no command is answered as such, and changes nothing. -/
theorem handle_err (hp : (parseCommand raw).1 = .err) :
    s.handle c raw =
      ⟨s.table, s.clientFds, c.username, .sent c.id (toStr queryError)⟩ := by
  simp only [handle, hp]

end

theorem not_crashes {s : Server} {c : Conn} {raw : Str}
    (h : (s.handle c raw).outcome ≠ .undefined) : s.crashes c raw = false := by
  simp [crashes, h]

/-! ## What a step can do -/

/-- What the branches other than EXIT can do on the parsed command `item`. -/
inductive Effect (s : Server) (c : Conn) (item : Cmd × List Str) : Handled → Prop
  | nothing (o : Outcome) : Effect s c item ⟨s.table, s.clientFds, c.username, o⟩
  | registered {u : Str} (o : Outcome) : IsArg u → s.table.find? u = none →
      Effect s c item ⟨s.table.replace (newUser u), s.clientFds, c.username, o⟩
  | loggedIn {u p : Str} {user : Client} {privatePort : Int} :
      item = (.login, [u, p]) → stoi p = .ok privatePort → IsArg u →
      s.table.find? u = some user → user.online = false →
      Effect s c item (s.loggedIn c u (user.login c.clientip c.clientport privatePort))
  | transferred {snd n rcv : Str} {pay : ℚ} {a b : Client} (o : Outcome) :
      item = (.transaction, [snd, n, rcv]) → stod n = .ok pay → Transfers s.table snd rcv pay a b →
      Effect s c item
        ⟨(s.table.update (a.debit pay)).update (b.credit pay), s.clientFds, c.username, o⟩

section
variable {s s' : Server} {c : Conn} {raw : Str}

theorem registerCase_effect {item : Cmd × List Str} {args : List Str} (h : IsArg (arg args 1)) :
    Effect s c item (s.registerCase c args) := by
  unfold registerCase
  simp only [userRegister_run]
  cases hu : s.table.find? (arg args 1) with
  | some user => exact .nothing _
  | none => exact .registered _ h hu

theorem loginCase_effect {u p : Str} (h : IsArg u) :
    Effect s c (.login, [u, p]) (s.loginCase c [u, p]) := by
  cases hp : stoi p with
  | error e =>
    rw [loginCase_throws hp]
    exact .nothing _
  | ok privatePort =>
    rw [loginCase_eq hp]
    cases hu : s.table.find? u with
    | none => exact .nothing _
    | some user =>
      dsimp only
      split
      · exact .nothing _
      · rename_i ho
        exact .loggedIn rfl hp h hu (by simpa using ho)

theorem transactionCase_effect {snd n rcv : Str} :
    Effect s c (.transaction, [snd, n, rcv]) (s.transactionCase c [snd, n, rcv]) := by
  cases hn : stod n with
  | error e =>
    rw [transactionCase_throws hn]
    exact .nothing _
  | ok pay =>
    rw [transactionCase_eq hn]
    rcases userTransaction_run s.table snd rcv pay with ⟨a, b, ht, hrun⟩ | ⟨-, st, -, hrun⟩
    · rw [hrun]
      exact .transferred _ rfl hn ht
    · rw [hrun]
      exact .nothing _

theorem handle_effect (hx : (parseCommand raw).1 ≠ .exit) :
    Effect s c (parseCommand raw) (s.handle c raw) := by
  obtain ⟨hargs, hcases⟩ := parseCommand_cases raw
  unfold handle
  rcases hcases with h | h | ⟨u, h⟩ | ⟨u, p, h, -⟩ | ⟨u, n, v, h, -⟩ | ⟨args, h⟩
  · exact absurd (congrArg Prod.fst h) hx
  · rw [h]
    exact .nothing _
  · rw [h] at hargs ⊢
    exact registerCase_effect (hargs u (by simp))
  · rw [h] at hargs ⊢
    exact loginCase_effect (hargs u (by simp))
  · rw [h]
    exact transactionCase_effect
  · rw [h]
    exact .nothing _

/-- The step ends the connection in the receive branch or by an Exit message. -/
def Ends (a : Action) (c : Conn) : Prop :=
  a = .hangup c.id ∨ ∃ buffer resume, a = .message c.id buffer resume ∧
    (cStr buffer = [] ∨ (parseCommand (cStr buffer)).1 = .exit)

/-- An Exit message does what the receive branch does, and is answered. -/
theorem iteration_ends {buffer : Str} (resume : Bool)
    (h : cStr buffer = [] ∨ (parseCommand (cStr buffer)).1 = .exit) :
    s.iteration c buffer resume = s.disconnect c := by
  by_cases hraw : cStr buffer = []
  · simp [iteration, hraw]
  · have hx := h.resolve_left hraw
    simp [iteration, hraw, hx, handle, exitCase, after, disconnect]

theorem step_ends {a : Action} (hc : c ∈ s.conns.rows) (h : Ends a c) :
    s.step a = some (s.disconnect c) := by
  rcases h with rfl | ⟨buffer, resume, rfl, h⟩
  · simp [step, Keyed.find?_of_mem hc]
  · simp [step, Keyed.find?_of_mem hc, iteration_ends resume h]

/-- **What a step can do**: accept a connection, end one, or have the `switch` of one change what
`Effect` says. -/
theorem step_cases {a : Action} (h : s.step a = some s') :
    (∃ ip port, a = .accept ip port ∧ (∀ c ∈ s.conns.rows, c.endpoint ≠ (ip, port)) ∧
      s' = s.accepting ip port) ∨
    (∃ c ∈ s.conns.rows, Ends a c ∧ s' = s.disconnect c) ∨
    (∃ c ∈ s.conns.rows, ∃ buffer resume, a = .message c.id buffer resume ∧
      cStr buffer ≠ [] ∧ (parseCommand (cStr buffer)).1 ≠ .exit ∧
      Effect s c (parseCommand (cStr buffer)) (s.handle c (cStr buffer)) ∧
      s' = s.after c (s.handle c (cStr buffer))
        (survives resume (s.handle c (cStr buffer)).outcome)) := by
  cases a with
  | accept ip port =>
    simp only [step] at h
    split at h
    · cases h
    · rename_i hfree
      refine .inl ⟨ip, port, rfl, fun c hc he => hfree ?_, (Option.some.inj h).symm⟩
      rw [List.any_eq_true]
      exact ⟨c, hc, by simpa using he⟩
  | hangup id =>
    obtain ⟨c, hc, rfl⟩ := Option.map_eq_some_iff.1 h
    obtain rfl := Keyed.find?_key hc
    exact .inr (.inl ⟨c, Keyed.find?_mem hc, .inl rfl, rfl⟩)
  | message id buffer resume =>
    obtain ⟨c, hc, rfl⟩ := Option.map_eq_some_iff.1 h
    obtain rfl := Keyed.find?_key hc
    have hmem := Keyed.find?_mem hc
    by_cases hend : cStr buffer = [] ∨ (parseCommand (cStr buffer)).1 = .exit
    · exact .inr (.inl ⟨c, hmem, .inr ⟨buffer, resume, rfl, hend⟩, iteration_ends resume hend⟩)
    · obtain ⟨hraw, hx⟩ := not_or.1 hend
      refine .inr (.inr ⟨c, hmem, buffer, resume, rfl, hraw, hx, handle_effect hx, ?_⟩)
      simp [iteration, hraw, hx]

theorem step_accept {ip : Str} {port : Int} (h : s.step (.accept ip port) = some s') :
    s' = s.accepting ip port := by
  simp only [step] at h
  split at h
  · cases h
  · exact (Option.some.inj h).symm

theorem step_message (hc : c ∈ s.conns.rows) (buffer : Str) (resume : Bool) :
    s.step (.message c.id buffer resume) = some (s.iteration c buffer resume) := by
  simp [step, Keyed.find?_of_mem hc]

theorem step_hangup (hc : c ∈ s.conns.rows) : s.step (.hangup c.id) = some (s.disconnect c) := by
  simp [step, Keyed.find?_of_mem hc]

theorem accepted_iteration (c : Conn) (buffer : Str) (resume : Bool) :
    (s.iteration c buffer resume).accepted = s.accepted := by
  unfold iteration
  dsimp only
  split
  · rfl
  · rfl

/-! ## The connections after a step -/

theorem find?_after (hc : c ∈ s.conns.rows) (hd : Handled) (live : Bool) (id : Nat) :
    (s.after c hd live).conns.find? id =
      if c.id = id then (if live then some { c with username := hd.username } else none)
      else s.conns.find? id := by
  cases live with
  | true =>
    show (s.conns.update { c with username := hd.username }).find? id = _
    rw [Keyed.find?_update]
    by_cases hid : c.id = id
    · subst hid
      rw [if_pos rfl, if_pos rfl, Keyed.find?_of_mem hc]
      rfl
    · rw [if_neg hid, if_neg hid]
  | false => exact Keyed.find?_erase s.conns c.id id

/-- A call that answers its message goes on. -/
theorem find?_iteration_sent (hc : c ∈ s.conns.rows) {buffer : Str} (hraw : cStr buffer ≠ [])
    (hx : (parseCommand (cStr buffer)).1 ≠ .exit) {fd : Nat} {response : Str}
    (h : (s.handle c (cStr buffer)).outcome = .sent fd response) (resume : Bool) :
    (s.iteration c buffer resume).conns.find? c.id =
      some { c with username := (s.handle c (cStr buffer)).username } := by
  unfold iteration
  dsimp only
  rw [if_neg hraw, find?_after hc, if_pos rfl, if_pos]
  simp [hx, h, survives]

/-- The other connections are left alone. -/
theorem find?_iteration_other (hc : c ∈ s.conns.rows) {id : Nat} (hid : c.id ≠ id) (buffer : Str)
    (resume : Bool) : (s.iteration c buffer resume).conns.find? id = s.conns.find? id := by
  unfold iteration
  dsimp only
  split
  · rw [disconnect, Keyed.find?_erase, if_neg hid]
  · rw [find?_after hc, if_neg hid]

end

end Server

end Micropayment
