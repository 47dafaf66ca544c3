import Micropayment.Lib.Mail
import Micropayment.Peer

/-!
# Clients and server together

Any number of running clients (`Program`, the globals and the two threads of `client.cpp`) and the
server. Frames arrive whole and in order; a `Packet` is a message on its way with the request it
belongs to: the client, and the number of the request among that client's. The server's reply, and
a message that a client passes on, stay with the request that caused them. `World.step` is one
step of a main thread, of a receive thread, or one iteration of a server loop. What ends a client or
is undefined behaviour in it (a name that overruns a buffer, a request over 245 bytes) is no step; a
server that has exited takes none any more.
-/

set_option autoImplicit false

namespace Micropayment

/-- What the main thread has asked for. The List of menu item 4 is followed by a payment (`pay`). -/
inductive Request where
  | register
  | login
  | list (pay : Bool)
  | transfer
  | exit
  deriving DecidableEq, Repr

/-- The main thread: not connected yet, at the menu, at the prompts of `p2p_transaction`, before the
`request_list` that follows a LOGIN or a payment, in `recv_P3` on the server connection, or
ended. -/
inductive Main where
  | start
  | menu
  | asking
  | renewing
  | waiting (r : Request)
  | gone
  deriving DecidableEq, Repr

/-- Where a message is: on the server connection of a client in either direction, at a client's
listening port, or in the `buffer` of its `receiving`. -/
inductive Place (ι : Type) where
  | toServer (i : ι)
  | toClient (i : ι)
  | port (i : ι)
  | buffer (i : ι)
  deriving DecidableEq, Repr

structure Packet (ι : Type) where
  place : Place ι
  client : ι
  request : Nat
  text : Str
  deriving DecidableEq, Repr

/-- A running client. `serverFd` is the server's name for the connection of `server_fd`;
`announcing` is the message that `receiving` has passed on and not printed yet, with
`transfer_info`. -/
structure Program (ι : Type) where
  main : Main
  name : Str
  clientServerOpen : Bool
  loginPort : Int
  peerList : List (List Str)
  serverFd : Option Nat
  requests : Nat
  announcing : Option (Packet ι × List Str)

/-- `accepted` has the client of each connection, by its `id`. `notified` are the messages whose
notification has been printed, with `transfer_info`; `handled` all messages the server has handled,
with the status of `user_transaction` for a TRANSACTION. -/
structure World (ι : Type) where
  server : Server
  accepted : List ι
  programs : ι → Program ι
  packets : List (Packet ι)
  notified : List (Packet ι × List Str)
  handled : List (Packet ι × Option Status)
  exited : Bool

/-- What happens next. A `connect` is over when a thread of the pool has taken the connection.
`list` is menu item 3, or the `request_list` that follows a LOGIN or a payment. `heap` is the memory
that `new char[]` returns. `mixed` is what comes of a `split` between whose `strtok` calls those of
the client's other thread come, if they do. The stray of `serve` stands for an undefined
`sender_fd`. -/
inductive Happening (ι : Type) where
  | connect (i : ι) (a b c d : UInt8) (clientport : Int)
  | register (i : ι) (name : Str)
  | login (i : ι) (typed : Option Str) (port : Int)
  | list (i : ι)
  | transaction (i : ι)
  | notFound (i : ι) (receiver : Str)
  | pay (i : ι) (receiver : Str) (amount : Int) (peer : ι) (heap : Str)
  | exit (i : ι)
  | reply (i : ι) (mixed : Option (Except ListError ListInfo))
  | accept (i : ι)
  | forward (i : ι) (mixed : Option (List Str))
  | announce (i : ι)
  | serve (i : ι) (resume : Bool) (stray : Option Nat)
  | hangup (i : ι)

/-- `stoi(peer_info[2])` of the entry that `find_peer_info` finds; `none` if one of them throws (an
entry of less than three parts is taken as such). -/
def hostPort (peerList : List (List Str)) (receiver : Str) : Option Int :=
  (findPeerInfo peerList receiver).bind fun info => (stoi (arg info 2)).toOption

/-- The status of the `user_transaction` of a TRANSACTION. -/
def transferStatus (s : Server) (raw : Str) : Option Status :=
  let item := parseCommand raw
  match item.1, stod (arg item.2 1) with
  | .transaction, .ok pay =>
    some ((userTransaction (arg item.2 0) (arg item.2 2) pay).run s.table).1
  | _, _ => none

namespace World

variable {ι : Type} [DecidableEq ι]

def init (t : Table) : World ι where
  server := Server.init t
  accepted := []
  programs _ := ⟨.start, [], false, 0, [], none, 0, none⟩
  packets := []
  notified := []
  handled := []
  exited := false

def set (w : World ι) (i : ι) (p : Program ι) : World ι :=
  { w with programs := Function.update w.programs i p }

@[simp] theorem programs_set_self (w : World ι) (i : ι) (p : Program ι) :
    (w.set i p).programs i = p := Function.update_self ..

theorem programs_set_other {i k : ι} (w : World ι) (p : Program ι) (h : k ≠ i) :
    (w.set i p).programs k = w.programs k := Function.update_of_ne h ..

/-- The oldest packet at a place. -/
def next (w : World ι) (l : Place ι) : Option (Packet ι) :=
  (Mail.queue Packet.place w.packets l).head?

def take (w : World ι) (l : Place ι) : World ι :=
  { w with packets := Mail.takeFirst Packet.place w.packets l }

def post (w : World ι) (ps : List (Packet ι)) : World ι :=
  { w with packets := w.packets ++ ps }

/-! ## The main thread -/

/-- The main thread sends `text` and goes on to wait for the reply. -/
def request (w : World ι) (i : ι) (p : Program ι) (r : Request) (place : Place ι) (text : Str) :
    World ι :=
  (w.set i { p with main := .waiting r, requests := p.requests + 1 }).post
    [⟨place, i, p.requests + 1, text⟩]

/-- The main thread of `p` has received its reply, and goes on as that of `p'`. -/
structure GoesOn (p p' : Program ι) : Prop where
  serverFd : p'.serverFd = p.serverFd
  requests : p'.requests = p.requests
  announcing : p'.announcing = p.announcing
  opened : p.clientServerOpen = true → p'.clientServerOpen = true
  idle : ∀ r, p'.main ≠ .waiting r

/-- What follows a List: the prompts of a payment, or the menu. -/
def afterList (pay : Bool) : Main := if pay then .asking else .menu

/-- The main thread goes on with a frame it has received; `info` is what `parse_list_info` makes of
it. -/
def resume (w : World ι) (i : ι) (text : Str) (info : Except ListError ListInfo) :
    Request → World ι
  | .register => w.set i { w.programs i with main := .menu }
  | .login =>
    if (split text "\n".toList).length ≤ 2 then w.set i { w.programs i with main := .menu }
    else w.set i { w.programs i with main := .renewing, clientServerOpen := true }
  | .list pay =>
    if cStr text = "Please login first\n".toList then
      w.set i { w.programs i with main := afterList pay }
    else match info with
      | .error _ => w.set i { w.programs i with main := .gone }
      | .ok info => w.set i { w.programs i with main := afterList pay, peerList := info.peerList }
  | .transfer => w.set i { w.programs i with main := .renewing }
  | .exit => w.set i { w.programs i with main := .gone }

/-- A main thread that goes on sends nothing before its next step. -/
theorem resume_eq (w : World ι) (i : ι) (text : Str) (info : Except ListError ListInfo)
    (r : Request) : ∃ p, w.resume i text info r = w.set i p ∧ GoesOn (w.programs i) p := by
  cases r with
  | register | transfer | exit => exact ⟨_, rfl, rfl, rfl, rfl, id, nofun⟩
  | login =>
    unfold resume
    dsimp only
    split
    · exact ⟨_, rfl, rfl, rfl, rfl, id, nofun⟩
    · exact ⟨_, rfl, rfl, rfl, rfl, fun _ => rfl, nofun⟩
  | list pay =>
    have hafter : ∀ r, afterList pay ≠ .waiting r := by
      intro r
      cases pay <;> nofun
    unfold resume
    dsimp only
    split
    · exact ⟨_, rfl, rfl, rfl, rfl, id, hafter⟩
    · split
      · exact ⟨_, rfl, rfl, rfl, rfl, id, nofun⟩
      · exact ⟨_, rfl, rfl, rfl, rfl, id, hafter⟩

/-! ## The server -/

/-- `send_P3` on a connection: the reply stays with the request of `q`. -/
def deliver (w : World ι) (q : Packet ι) (fd : Nat) (response : Str) : List (Packet ι) :=
  match w.accepted[fd]? with
  | some i => [⟨.toClient i, q.client, q.request, response⟩]
  | none => []

/-- The replies to a message. With an undefined `sender_fd` the response of a TRANSACTION may go to
any connection, or nowhere. -/
def replies (w : World ι) (c : Conn) (q : Packet ι) (stray : Option Nat) : List (Packet ι) :=
  match (w.server.handle c (cStr q.text)).outcome with
  | .sent fd response => if cStr q.text = [] then [] else w.deliver q fd response
  | .throws => []
  | .undefined =>
    match stray, transferStatus w.server (cStr q.text) with
    | some fd, some status => w.deliver q fd (Server.transferResponse status)
    | _, _ => []

/-- An iteration of the loop of `c` with the message `q` of client `i`, which the server
survives. -/
def serve (w : World ι) (i : ι) (c : Conn) (q : Packet ι) (resume : Bool) (stray : Option Nat) :
    World ι :=
  { w.take (.toServer i) with
    server := w.server.iteration c q.text resume
    packets := (w.take (.toServer i)).packets ++ w.replies c q stray
    handled := (q, transferStatus w.server (cStr q.text)) :: w.handled }

/-! ## Steps -/

/-- A live connection of the client at the server. -/
def conn (w : World ι) (i : ι) : Option Conn := (w.programs i).serverFd.bind w.server.conns.find?

/-- What the client's connection is logged in as, while it is live. -/
def session (w : World ι) (i : ι) : Option Str := (w.conn i).map Conn.username

/-- The client has a receive thread. -/
def listening (w : World ι) (i : ι) : Bool :=
  (w.programs i).clientServerOpen && (w.programs i).main ≠ .gone

def step (w : World ι) : Happening ι → Option (World ι)
  | .connect i a b c d clientport =>
    if (w.programs i).main = .start ∧ w.exited = false then
      (w.server.step (.accept (inetNtoa a b c d) clientport)).map fun server =>
        { w.set i { w.programs i with main := .menu, serverFd := some w.server.accepted } with
          server, accepted := w.accepted ++ [i] }
    else none
  | .register i name =>
    let p := w.programs i
    if p.main = .menu ∧ ("REGISTER#".toList ++ name).length ≤ 245 then
      some (w.request i { p with name := if p.clientServerOpen then p.name else name } .register
        (.toServer i) ("REGISTER#".toList ++ name))
    else none
  | .login i typed port =>
    let p := w.programs i
    let name := typed.getD p.name
    -- `tmp_name` has 20 bytes
    if p.main = .menu ∧ p.clientServerOpen = false ∧ -2 ^ 31 ≤ port ∧ port < 2 ^ 31 ∧
        typed.all (fun name => name.length < 20) = true ∧
        (name ++ "#".toList ++ toStr port).length ≤ 245 then
      some (w.request i { p with name, loginPort := port } .login (.toServer i)
        (name ++ "#".toList ++ toStr port))
    else none
  | .list i =>
    if (w.programs i).main = .menu ∨ (w.programs i).main = .renewing then
      some (w.request i (w.programs i) (.list false) (.toServer i) "List".toList)
    else none
  | .transaction i =>
    if (w.programs i).main = .menu then
      some (w.request i (w.programs i) (.list true) (.toServer i) "List".toList)
    else none
  | .notFound i receiver =>
    let p := w.programs i
    if p.main = .asking ∧ hostPort p.peerList receiver = none ∧ p.name.length < 20 ∧
        receiver.length < 20 then
      some (w.set i { p with main := .menu })
    else none
  | .pay i receiver amount peer heap =>
    let p := w.programs i
    if p.main = .asking ∧ -2 ^ 31 ≤ amount ∧ amount < 2 ^ 31 ∧ w.listening peer = true ∧
        (hostPort p.peerList receiver).any (fun port =>
          port % 2 ^ 16 = (w.programs peer).loginPort % 2 ^ 16) then
      (p2pMessage heap p.name amount receiver).map fun text =>
        w.request i p .transfer (.port peer) text
    else none
  | .exit i =>
    if (w.programs i).main = .menu then
      some (w.request i (w.programs i) .exit (.toServer i) "Exit".toList)
    else none
  | .reply i mixed =>
    match (w.programs i).main, w.next (.toClient i) with
    | .waiting r, some q =>
      if mixed = none ∨ w.listening i = true then
        some ((w.take (.toClient i)).resume i q.text (mixed.getD (parseListInfo q.text)) r)
      else none
    | _, _ => none
  | .accept i =>
    match w.next (.port i), w.next (.buffer i) with
    | some q, none =>
      if w.listening i = true ∧ (w.programs i).announcing = none then
        some ((w.take (.port i)).post [{ q with place := .buffer i }])
      else none
    | _, _ => none
  | .forward i mixed =>
    match w.next (.buffer i) with
    | some q =>
      if w.listening i = true then
        some (((w.take (.buffer i)).post [{ q with place := .toServer i }]).set i
          { w.programs i with
            announcing :=
              some ({ q with place := .toServer i }, mixed.getD (split q.text "#".toList)) })
      else none
    | none => none
  | .announce i =>
    match (w.programs i).announcing with
    | some x =>
      if w.listening i = true ∧ (notification x.2).isSome = true then
        some { w.set i { w.programs i with announcing := none } with notified := x :: w.notified }
      else none
    | none => none
  | .serve i resume stray =>
    match w.conn i, w.next (.toServer i) with
    | some c, some q =>
      if w.exited then none
      else some (if w.server.exits c (cStr q.text) then { w with exited := true }
        else w.serve i c q resume stray)
    | _, _ => none
  | .hangup i =>
    match w.conn i, w.next (.toServer i) with
    | some c, none =>
      if (w.programs i).main = .gone ∧ w.exited = false then
        some { w with server := w.server.disconnect c }
      else none
    | _, _ => none

/-- What each happening can do. -/
inductive Stepped (w : World ι) : Happening ι → World ι → Prop
  | connect {i : ι} {a b c d : UInt8} {clientport : Int} {server : Server} :
      (w.programs i).main = .start →
      w.server.step (.accept (inetNtoa a b c d) clientport) = some server →
      Stepped w (.connect i a b c d clientport)
        { w.set i { w.programs i with main := .menu, serverFd := some w.server.accepted } with
          server, accepted := w.accepted ++ [i] }
  | register {i : ι} {name : Str} : (w.programs i).main = .menu →
      Stepped w (.register i name) (w.request i { w.programs i with
          name := if (w.programs i).clientServerOpen then (w.programs i).name else name }
        .register (.toServer i) ("REGISTER#".toList ++ name))
  | login {i : ι} {typed : Option Str} {port : Int} : (w.programs i).main = .menu →
      (w.programs i).clientServerOpen = false → -2 ^ 31 ≤ port → port < 2 ^ 31 →
      Stepped w (.login i typed port) (w.request i { w.programs i with
          name := typed.getD (w.programs i).name, loginPort := port }
        .login (.toServer i) (typed.getD (w.programs i).name ++ "#".toList ++ toStr port))
  | list {i : ι} : (w.programs i).main = .menu ∨ (w.programs i).main = .renewing →
      Stepped w (.list i) (w.request i (w.programs i) (.list false) (.toServer i) "List".toList)
  | transaction {i : ι} : (w.programs i).main = .menu →
      Stepped w (.transaction i)
        (w.request i (w.programs i) (.list true) (.toServer i) "List".toList)
  | notFound {i : ι} {receiver : Str} : (w.programs i).main = .asking →
      Stepped w (.notFound i receiver) (w.set i { w.programs i with main := .menu })
  | pay {i peer : ι} {receiver heap text : Str} {amount : Int} {ok : Int → Bool} :
      (w.programs i).main = .asking → -2 ^ 31 ≤ amount → amount < 2 ^ 31 →
      (hostPort (w.programs i).peerList receiver).any ok = true →
      p2pMessage heap (w.programs i).name amount receiver = some text →
      Stepped w (.pay i receiver amount peer heap)
        (w.request i (w.programs i) .transfer (.port peer) text)
  | exit {i : ι} : (w.programs i).main = .menu →
      Stepped w (.exit i) (w.request i (w.programs i) .exit (.toServer i) "Exit".toList)
  | reply {i : ι} {r : Request} {q : Packet ι} {mixed : Option (Except ListError ListInfo)} :
      (w.programs i).main = .waiting r → w.next (.toClient i) = some q →
      Stepped w (.reply i mixed)
        ((w.take (.toClient i)).resume i q.text (mixed.getD (parseListInfo q.text)) r)
  | accept {i : ι} {q : Packet ι} : w.next (.port i) = some q →
      Stepped w (.accept i) ((w.take (.port i)).post [{ q with place := .buffer i }])
  | forward {i : ι} {q : Packet ι} {mixed : Option (List Str)} : w.next (.buffer i) = some q →
      (w.programs i).clientServerOpen = true → (w.programs i).main ≠ .gone →
      Stepped w (.forward i mixed)
        (((w.take (.buffer i)).post [{ q with place := .toServer i }]).set i
          { w.programs i with
            announcing :=
              some ({ q with place := .toServer i }, mixed.getD (split q.text "#".toList)) })
  | announce {i : ι} {x : Packet ι × List Str} : (w.programs i).announcing = some x →
      (notification x.2).isSome = true →
      Stepped w (.announce i)
        { w.set i { w.programs i with announcing := none } with notified := x :: w.notified }
  | serve {i : ι} {c : Conn} {q : Packet ι} {resume : Bool} {stray : Option Nat} :
      w.conn i = some c → w.next (.toServer i) = some q →
      w.server.exits c (cStr q.text) = false →
      Stepped w (.serve i resume stray) (w.serve i c q resume stray)
  | exits {i : ι} {c : Conn} {q : Packet ι} {resume : Bool} {stray : Option Nat} :
      w.exited = false → w.conn i = some c → w.next (.toServer i) = some q →
      w.server.exits c (cStr q.text) = true →
      Stepped w (.serve i resume stray) { w with exited := true }
  | hangup {i : ι} {c : Conn} : w.conn i = some c → w.next (.toServer i) = none →
      (w.programs i).main = .gone →
      Stepped w (.hangup i) { w with server := w.server.disconnect c }

theorem step_cases {w w' : World ι} {e : Happening ι} (h : w.step e = some w') :
    Stepped w e w' := by
  cases e with
  | connect i a b c d port =>
    simp only [step] at h
    split at h
    · rename_i hmain
      obtain ⟨server, hserver, rfl⟩ := Option.map_eq_some_iff.1 h
      exact .connect hmain.1 hserver
    · cases h
  | register i name =>
    obtain ⟨⟨hmain, -⟩, ⟨⟩⟩ := Option.ite_none_right_eq_some.1 h
    exact .register hmain
  | login i typed port =>
    obtain ⟨⟨hmain, hclosed, h1, h2, -⟩, ⟨⟩⟩ := Option.ite_none_right_eq_some.1 h
    exact .login hmain hclosed h1 h2
  | list i =>
    obtain ⟨hmain, ⟨⟩⟩ := Option.ite_none_right_eq_some.1 h
    exact .list hmain
  | transaction i =>
    obtain ⟨hmain, ⟨⟩⟩ := Option.ite_none_right_eq_some.1 h
    exact .transaction hmain
  | notFound i receiver =>
    obtain ⟨⟨hmain, -⟩, ⟨⟩⟩ := Option.ite_none_right_eq_some.1 h
    exact .notFound hmain
  | pay i receiver amount peer heap =>
    obtain ⟨⟨hmain, h1, h2, -, hport⟩, h⟩ := Option.ite_none_right_eq_some.1 h
    obtain ⟨text, htext, rfl⟩ := Option.map_eq_some_iff.1 h
    exact .pay hmain h1 h2 hport htext
  | exit i =>
    obtain ⟨hmain, ⟨⟩⟩ := Option.ite_none_right_eq_some.1 h
    exact .exit hmain
  | reply i mixed =>
    simp only [step] at h
    split at h
    · rename_i r q hmain hq
      obtain ⟨-, ⟨⟩⟩ := Option.ite_none_right_eq_some.1 h
      exact .reply hmain hq
    · cases h
  | accept i =>
    simp only [step] at h
    split at h
    · rename_i q hq _
      obtain ⟨-, ⟨⟩⟩ := Option.ite_none_right_eq_some.1 h
      exact .accept hq
    · cases h
  | forward i mixed =>
    simp only [step] at h
    split at h
    · rename_i q hq
      obtain ⟨hlisten, ⟨⟩⟩ := Option.ite_none_right_eq_some.1 h
      obtain ⟨hopen, hgone⟩ : (w.programs i).clientServerOpen = true ∧
          (w.programs i).main ≠ .gone := by
        simpa [listening] using hlisten
      exact .forward hq hopen hgone
    · cases h
  | announce i =>
    simp only [step] at h
    split at h
    · rename_i x hann
      obtain ⟨⟨-, htokens⟩, ⟨⟩⟩ := Option.ite_none_right_eq_some.1 h
      exact .announce hann htokens
    · cases h
  | serve i resume stray =>
    simp only [step] at h
    split at h
    · rename_i c q hconn hq
      obtain ⟨hlives, h⟩ := Option.ite_none_left_eq_some.1 h
      cases hexits : w.server.exits c (cStr q.text) with
      | true =>
        rw [hexits, if_pos rfl, Option.some.injEq] at h
        subst h
        exact .exits (Bool.eq_false_iff.2 hlives) hconn hq hexits
      | false =>
        rw [hexits, if_neg Bool.false_ne_true, Option.some.injEq] at h
        subst h
        exact .serve hconn hq hexits
    · cases h
  | hangup i =>
    simp only [step] at h
    split at h
    · rename_i c hconn hq
      obtain ⟨⟨hmain, -⟩, ⟨⟩⟩ := Option.ite_none_right_eq_some.1 h
      exact .hangup hconn hq hmain
    · cases h

end World

end Micropayment
