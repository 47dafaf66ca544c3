import Micropayment.Wire

/-!
# The client's part (`client.cpp`)

What a client makes of a list reply (`parse_list_info`) and the message of a `p2p_transaction`,
which goes to a peer and from there, unread, to the server (`receiving`). `Network` is the server
together with one user's client; everybody else may send the server any message at any time, since
the server hands its public key to every connection. Memory from `new char[]` is taken as zeroed but
in `p2pPlaintext`.
-/

set_option autoImplicit false

namespace Micropayment

/-- The line of `user_list_info` for one user. -/
def listLine (username ip : Str) (privatePort : Int) : Str :=
  username ++ "#".toList ++ ip ++ "#".toList ++ toStr privatePort ++ "\n".toList

/-- All lines of a list, taken apart as `parse_list_info` does it. -/
def splitLines (msg : Str) : List (List Str) :=
  (split msg "\n".toList).map fun line => split line "#".toList

/-- The globals that `parse_list_info` sets. -/
structure ListInfo where
  acctBalance : Int
  onlineNum : Int
  peerList : List (List Str)
  deriving DecidableEq, Repr

/-- `stoi` throws, or the behaviour is undefined: an index past the tokens, or the overflow of the
loop's `int i`. -/
inductive ListError where
  | throws (e : NumError)
  | undefined
  deriving DecidableEq, Repr

/-- `stoi(tmp[i])` -/
def stoiAt (tmp : List Str) (i : Nat) : Except ListError Int :=
  match tmp[i]? with
  | none => .error .undefined
  | some s => (stoi s).mapError .throws

/-- The `for` loop over the user lines, at the index `i` and with `n` turns to go. -/
def peerLoop (tmp : List Str) : Nat → Nat → Except ListError (List (List Str))
  | 0, _ => .ok []
  | n + 1, i =>
    match tmp[i]? with
    | none => .error .undefined
    | some line =>
      if i + 1 < 2 ^ 31 then
        (peerLoop tmp n (i + 1)).map fun infos => split line "#".toList :: infos
      else .error .undefined

/-- `2 + online_num` is a `long`, so the loop takes `online_num` turns. -/
def parseListInfo (msg : Str) : Except ListError ListInfo := do
  let tmp := split msg "\n".toList
  let acctBalance ← stoiAt tmp 0
  let onlineNum ← stoiAt tmp 1
  let peerList ← peerLoop tmp onlineNum.toNat 2
  return ⟨acctBalance, onlineNum, peerList⟩

/-- `inet_ntoa` -/
def inetNtoa (a b c d : UInt8) : Str :=
  toStr a.toNat ++ ".".toList ++ toStr b.toNat ++ ".".toList ++ toStr c.toNat ++ ".".toList ++
    toStr d.toNat

/-- `find_peer_info`: the first entry of the peer list under the name. -/
def findPeerInfo (peerList : List (List Str)) (name : Str) : Option (List Str) :=
  peerList.find? fun info => info.head? = some name

/-- `transact_msg` of `p2p_transaction`. -/
def transactMsg (sender : Str) (amount : Int) (receiver : Str) : Str :=
  sender ++ "#".toList ++ toStr amount ++ "#".toList ++ receiver

/-- `transact_msg` in the memory that `new char[MAX_LENGTH]` returns, whatever it holds. -/
def buildTransactMsg (heap sender : Str) (amount : Int) (receiver : Str) : Option Str := do
  let msg ← strcat heap sender
  let msg ← strcat msg "#".toList
  let msg ← strcat msg (toStr amount)
  let msg ← strcat msg "#".toList
  strcat msg receiver

/-- The string that `p2p_transaction` passes to `send_P3`: `transact_msg`, copied to `buffer`. -/
def p2pPlaintext (heap sender : Str) (amount : Int) (receiver : Str) : Option Str := do
  let msg ← buildTransactMsg heap sender amount receiver
  let buffer ← strcpy (List.replicate 2048 '\x00') msg
  return cStr buffer

/-- The message of a `p2p_transaction` that stays within `sender`, `receiver` and `transact_msg` and
fits an RSA block. -/
def p2pMessage (heap sender : Str) (amount : Int) (receiver : Str) : Option Str :=
  if heap.length = 2048 ∧ sender.length < 20 ∧ receiver.length < 20 then
    (p2pPlaintext heap sender amount receiver).filter fun text => text.length ≤ 245
  else none

/-- A turn of `receiving`: the frame that goes to the server for the one received from a peer;
`none` is an exit in `recv_P3` or `send_P3`. -/
def receiving (decrypt encrypt : Str → Option Str) (recv : Option Str) (stale : Str) : Option Str :=
  match recvP3 decrypt recv stale with
  | none => none
  | some (_, buffer) => sendP3 encrypt buffer

/-- `transfer_info[0]` and `transfer_info[1]`, which `receiving` prints as "[0] just sent you
$[1]!"; `none` is an index past the tokens. -/
def notification : List Str → Option (Str × Str)
  | sender :: amount :: _ => some (sender, amount)
  | _ => none

/-- A call of `p2p_transaction` that reaches the peer: the amount, an `int`, and the receiver. -/
abbrev P2pCall := Int × Str

/-- The server and the client of one user. `calls` are its `p2p_transaction` calls, `outstanding`
the messages of these that have not reached the server, and `debits` the amounts and receivers of
the user's transfers on which `user_transaction` has returned `TRANSFER_OK`. -/
structure Network where
  server : Server
  calls : List P2pCall
  outstanding : List Str
  debits : List (ℚ × Str)

inductive Event where
  | p2pTransaction (listMsg : Str) (amount : Int) (receiver : Str)
  | server (a : Action)

/-- The transfer by `user` that the server carries out in this step, if any. -/
def debitOf (user : Str) (s : Server) : Action → List (ℚ × Str)
  | .message _ buffer _ =>
    let item := parseCommand (cStr buffer)
    match item.1, stod (arg item.2 1) with
    | .transaction, .ok pay =>
      if arg item.2 0 = user ∧
          ((userTransaction user (arg item.2 2) pay).run s.table).1 = .transferOk then
        [(pay, arg item.2 2)]
      else []
    | _, _ => []
  | _ => []

namespace Network

def init (t : Table) : Network := ⟨Server.init t, [], [], []⟩

/-- The message that the server receives in this step is no longer outstanding. -/
def deliver (outstanding : List Str) : Action → List Str
  | .message _ buffer _ => outstanding.erase (cStr buffer)
  | _ => outstanding

def step (user : Str) (n : Network) : Event → Option Network
  | .p2pTransaction listMsg amount receiver =>
    if -2 ^ 31 ≤ amount ∧ amount < 2 ^ 31 ∧
        (findPeerInfo (splitLines listMsg) receiver).any fun info => (stoi (arg info 2)).isOk then
      some { n with
        calls := (amount, receiver) :: n.calls
        outstanding := transactMsg user amount receiver :: n.outstanding }
    else none
  | .server a => (n.server.step a).map fun server =>
    { server
      calls := n.calls
      outstanding := deliver n.outstanding a
      debits := debitOf user n.server a ++ n.debits }

end Network

end Micropayment
