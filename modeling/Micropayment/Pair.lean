import Micropayment.World

/-!
# One client and its connection

The menu of one client (REGISTER, LOGIN and LIST), its receive thread and the server, where the
other connections may do anything. `World` has many clients that all keep to their menus; here there
is one, with what it learns about its LOGINs: `bind` and `listen` may fail before the LOGIN is sent
and after it has succeeded. Frames arrive whole and in order; when the server has exited, nobody
handles them any more.
-/

set_option autoImplicit false

namespace Micropayment

/-- Who has put a frame on the server connection: the main thread with a request, or `receiving`. -/
inductive Origin where
  | main (r : Request)
  | receiving
  deriving DecidableEq, Repr

/-- The globals of the client, the frames on its server connection in both directions, and the
server, which has the connection as `serverFd`. For the LOGINs in the order in which they were sent,
`statuses` has what the database returned to those the server has handled, and `took` whether the
client took its success path on those it has a reply to. -/
structure Pair where
  server : Server
  serverFd : Option Nat
  main : Main
  name : Str
  loginPort : Int
  clientServerOpen : Bool
  toServer : List (Origin × Str)
  toClient : List Str
  statuses : List (Option Status)
  took : List Bool
  exited : Bool

/-- What happens next: on the client's side, at the server with the client's connection, and there
with the others. `bound` is whether `bind` and `listen` succeed, `stray` whether what an undefined
`sender_fd` leads to reaches this client; `mixed` is what comes of a `parse_list_info` between whose
`strtok` calls those of `receiving` come, if they do. -/
inductive Turn where
  | connect (a b c d : UInt8) (clientport : Int)
  | register (name : Str)
  | login (typed : Option Str) (port : Int) (bound : Bool)
  | list
  | reply (bound : Bool) (mixed : Option (Except ListError ListInfo))
  | forward (sender : Str) (amount : Int) (receiver : Str)
  | serve (resume stray : Bool)
  | hangup
  | otherAccept (a b c d : UInt8) (clientport : Int)
  | otherMessage (id : Nat) (buffer : Str) (resume stray : Bool)
  | otherHangup (id : Nat)

/-- What `scanf("%s", ..)` reads as a name, without a `#`. -/
def isName (name : Str) : Bool :=
  name ≠ [] && name.all fun c => c ≠ '#' && c ≠ '\x00' && !isSpace c

/-- A reply with more than two lines: the test of the menu after a LOGIN. -/
def isSuccess (text : Str) : Bool := 2 < (split text "\n".toList).length

namespace Pair

def init (t : Table) : Pair := ⟨Server.init t, none, .start, [], 0, false, [], [], [], [], false⟩

/-! ## The main thread -/

/-- The main thread sends `text` and goes on to wait for the reply. -/
def request (p : Pair) (r : Request) (text : Str) : Pair :=
  { p with main := .waiting r, toServer := p.toServer ++ [(.main r, text)] }

/-- The main thread goes on with a frame it has received; `info` is what `parse_list_info` makes of
it. -/
def resume (p : Pair) (text : Str) (info : Except ListError ListInfo) (bound : Bool) :
    Request → Pair
  | .login =>
    if !isSuccess text then { p with main := .menu, took := p.took ++ [false] }
    else if bound then
      { p with main := .renewing, clientServerOpen := true, took := p.took ++ [true] }
    else { p with main := .menu, took := p.took ++ [true] }
  | .list _ =>
    if cStr text = "Please login first\n".toList then { p with main := .menu }
    else match info with
      | .error _ => { p with main := .gone }
      | .ok _ => { p with main := .menu }
  | .register | .transfer | .exit => { p with main := .menu }

/-! ## The server -/

/-- The client's connection at the server, while it is live. -/
def conn (p : Pair) : Option Conn :=
  if p.exited then none else p.serverFd.bind p.server.conns.find?

/-- What a message on the connection `c` makes the server write to this client. -/
def mail (p : Pair) (c : Conn) (text : Str) (stray : Bool) : List Str :=
  if cStr text = [] then []
  else match (p.server.handle c (cStr text)).outcome with
    | .sent fd response => if p.serverFd = some fd then [response] else []
    | .throws => []
    | .undefined =>
      match transferStatus p.server (cStr text) with
      | some status => if stray then [Server.transferResponse status] else []
      | none => []

/-- An iteration of the loop of `c` with the message `text`, which the server survives. -/
def served (p : Pair) (c : Conn) (text : Str) (resume stray : Bool) : Pair :=
  { p with
    server := p.server.iteration c text resume
    toClient := p.toClient ++ p.mail c text stray }

/-- The same on this client's connection, with its oldest frame. -/
def serve (p : Pair) (c : Conn) (origin : Origin) (text : Str) (resume stray : Bool) : Pair :=
  { p.served c text resume stray with
    toServer := p.toServer.tail
    statuses := if origin = .main .login then
        p.statuses ++ [p.server.dbStatus c (parseCommand (cStr text))]
      else p.statuses }

/-! ## Steps -/

def step (p : Pair) : Turn → Option Pair
  | .connect a b c d clientport =>
    if p.main = .start ∧ p.exited = false then
      (p.server.step (.accept (inetNtoa a b c d) clientport)).map fun server =>
        { p with server, serverFd := some p.server.accepted, main := .menu }
    else none
  | .register name =>
    if p.main = .menu ∧ isName name = true then
      some ({ p with name := if p.clientServerOpen then p.name else name }.request .register
        ("REGISTER#".toList ++ name))
    else none
  | .login typed port bound =>
    let name := typed.getD p.name
    if p.main = .menu ∧ p.clientServerOpen = false ∧ typed.all isName = true ∧
        -2 ^ 31 ≤ port ∧ port < 2 ^ 31 then
      let p := { p with name, loginPort := port }
      some (if bound then p.request .login (name ++ "#".toList ++ toStr port) else p)
    else none
  | .list =>
    if p.main = .menu ∨ p.main = .renewing then some (p.request (.list false) "List".toList)
    else none
  | .reply bound mixed =>
    match p.main, p.toClient with
    | .waiting r, text :: rest =>
      if mixed = none ∨ p.clientServerOpen = true then
        some ({ p with toClient := rest }.resume text (mixed.getD (parseListInfo text)) bound r)
      else none
    | _, _ => none
  | .forward sender amount receiver =>
    if p.clientServerOpen = true ∧ p.main ≠ .gone ∧ isName sender = true ∧
        isName receiver = true ∧ -2 ^ 31 ≤ amount ∧ amount < 2 ^ 31 then
      some { p with toServer := p.toServer ++ [(.receiving, transactMsg sender amount receiver)] }
    else none
  | .serve resume stray =>
    match p.conn, p.toServer with
    | some c, (origin, text) :: _ =>
      some (if p.server.exits c (cStr text) then { p with exited := true }
        else p.serve c origin text resume stray)
    | _, _ => none
  | .hangup =>
    match p.conn, p.toServer with
    | some c, [] =>
      if p.main = .gone then some { p with server := p.server.disconnect c } else none
    | _, _ => none
  | .otherAccept a b c d clientport =>
    if p.exited then none
    else (p.server.step (.accept (inetNtoa a b c d) clientport)).map fun server =>
      { p with server }
  | .otherMessage id buffer resume stray =>
    if p.exited = true ∨ p.serverFd = some id then none
    else (p.server.conns.find? id).map fun c =>
      if p.server.exits c (cStr buffer) then { p with exited := true }
      else p.served c buffer resume stray
  | .otherHangup id =>
    if p.exited = true ∨ p.serverFd = some id then none
    else (p.server.conns.find? id).map fun c => { p with server := p.server.disconnect c }

end Pair

end Micropayment
