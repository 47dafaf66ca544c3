import Micropayment.Pool
import Micropayment.Server

/-!
# The server's process (`main` of `server.cpp`)

`options` is what `main` makes of its arguments. After that the main thread accepts connections and
pushes a call of `process_request` for each into the thread pool, and `Listener.step` is one step of
it: of the main thread, of a thread of the pool, or of a `process_request`, whose iterations are
those of `Server.step`. A task of the pool is the endpoint of the connection that it is for.
-/

set_option autoImplicit false

namespace Micropayment

/-! ## The arguments -/

/-- `strtol(s, NULL, 10)`, which stops at the bounds of a `long`. -/
def strtol (s : Str) : Int :=
  let n : Int := Nat.ofDigitChars 10 ((readSign s).2.takeWhile Char.isDigit) 0
  let v := if (readSign s).1 then -n else n
  max (-2 ^ 63) (min v (2 ^ 63 - 1))

/-- `atoi` keeps the low 32 bits of the `long`. -/
def atoi (s : Str) : Int := (strtol s).bmod (2 ^ 32)

/-- `atoi(arg) <= num_of_threads ? atoi(arg) : num_of_threads`: the right-hand side is unsigned, so
the left-hand side is compared modulo `2 ^ 32`. -/
def threadLimit (arg : Str) (numOfThreads : Nat) : Int :=
  if atoi arg % 2 ^ 32 ≤ numOfThreads then atoi arg else numOfThreads

def isSilent (arg : Str) : Bool := arg = "-s".toList || arg = "--silent".toList

/-- The argument of `assign_port`, `none` where it is not called, with the other settings. -/
structure Options where
  port : Option Str
  verbose : Bool
  limit : Int
  deriving DecidableEq, Repr

/-- The `switch` on `argc`. -/
def options (argv : List Str) (hardwareConcurrency : Nat) : Options :=
  let numOfThreads := if hardwareConcurrency = 0 then 1 else hardwareConcurrency
  match argv with
  | [_, port] => ⟨some port, true, numOfThreads⟩
  | [_, port, arg] =>
    if isSilent arg then ⟨some port, false, numOfThreads⟩
    else ⟨some port, true, threadLimit arg numOfThreads⟩
  | [_, port, arg, silent] =>
    if isSilent silent then ⟨some port, false, threadLimit arg numOfThreads⟩
    else ⟨none, true, numOfThreads⟩
  | _ => ⟨some "0".toList, true, numOfThreads⟩

/-! ## The main thread and the calls of `process_request` -/

/-- Where a thread of the pool is in `process_request`: nowhere or before its loop, in the loop for
the connection of the `id`, or between the two counters behind it. -/
inductive Serving where
  | no
  | loop (id : Nat)
  | leaving
  deriving DecidableEq, Repr

/-- The connection that the loop is for. -/
def Serving.connection : Serving → Option Nat
  | .loop id => some id
  | .no | .leaving => none

/-- `lost` is the number of calls that did not get to the end of `process_request`. -/
structure Listener (ι : Type) where
  pool : ThreadPool ι (Str × Int)
  server : Server
  serving : ι → Serving
  currentUser : Int
  tmpCurrentUser : Int
  lost : Nat

/-- What happens next. `accept` is a turn of the main thread up to the middle of `push`, `notify`
the rest of it; `start` is the part of `process_request` before its loop, `leave` the end of it. -/
inductive Arrival (ι : Type) where
  | accept (clientip : Str) (clientport : Int)
  | notify (wake : Option ι)
  | work (i : ι)
  | spurious (i : ι)
  | start (i : ι)
  | message (i : ι) (buffer : Str) (resume : Bool)
  | hangup (i : ι)
  | leave (i : ι)
  deriving DecidableEq, Repr

namespace Listener

variable {ι : Type}

def init (t : Table) : Listener ι := ⟨ThreadPool.init, Server.init t, fun _ => .no, 0, 0, 0⟩

variable [DecidableEq ι] [Fintype ι]

/-- After an iteration of the call `id` of thread `i` that left `server` behind: the loop goes on,
or it has ended by itself (`ended`), or an exception or undefined behaviour has ended the call. -/
def goOn (l : Listener ι) (i : ι) (id : Nat) (ended : Bool) (server : Server) :
    Option (Listener ι) :=
  if (server.conns.find? id).isSome then some { l with server }
  else if ended then
    some { l with
      server
      serving := Function.update l.serving i .leaving
      currentUser := l.currentUser - 1 }
  else
    (l.pool.step (.finish i)).map fun pool =>
      { l with
        pool
        server
        serving := Function.update l.serving i .no
        lost := l.lost + 1 }

/-- The message ends the loop of `process_request`. -/
def endsLoop (buffer : Str) : Bool :=
  cStr buffer = [] || (parseCommand (cStr buffer)).1 = .exit

/-- No two connections of the process that are waiting or served have the same endpoint. -/
def step (l : Listener ι) : Arrival ι → Option (Listener ι)
  | .accept clientip clientport =>
    if l.pool.pushing = [] ∧ (clientip, clientport) ∉ l.pool.q ∧
        ∀ i, (clientip, clientport) ∉ (l.pool.workers i).task then
      (l.pool.step (.enqueue (clientip, clientport))).map fun pool =>
        { l with pool, tmpCurrentUser := l.tmpCurrentUser + 1 }
    else none
  | .notify wake =>
    l.pool.pushing.head?.bind fun f =>
      (l.pool.step (.notify f wake)).map fun pool => { l with pool }
  | .work i => (l.pool.step (.work i)).map fun pool => { l with pool }
  | .spurious i => (l.pool.step (.spurious i)).map fun pool => { l with pool }
  | .start i =>
    match l.pool.workers i, l.serving i with
    | .running f, .no =>
      (l.server.step (.accept f.1 f.2)).map fun server =>
        { l with
          server
          serving := Function.update l.serving i (.loop l.server.accepted)
          currentUser := l.currentUser + 1 }
    | _, _ => none
  | .message i buffer resume =>
    (l.serving i).connection.bind fun id =>
      (l.server.step (.message id buffer resume)).bind (l.goOn i id (endsLoop buffer))
  | .hangup i =>
    (l.serving i).connection.bind fun id => (l.server.step (.hangup id)).bind (l.goOn i id true)
  | .leave i =>
    if l.serving i = .leaving then
      (l.pool.step (.finish i)).map fun pool =>
        { l with
          pool
          serving := Function.update l.serving i .no
          tmpCurrentUser := l.tmpCurrentUser - 1 }
    else none

end Listener

end Micropayment
