import Micropayment.Lib.Run
import Micropayment.Lib.Tally

/-!
# The thread pool (`ctpl_stl.h`)

`ThreadPool` is a pool whose constructor has returned: the shared variables and, for every thread,
where it is in the function that `set_thread` gives it. `ThreadPool.work` is the next step of a
thread: a step is one access to the queue (which has a mutex of its own), to a flag, or to the mutex
of the condition variable. A `push` is two steps, the second one being its `notify_one`; `stop` is
called once. What a task throws ends up in its `packaged_task`, so a thread sees every task return.
-/

set_option autoImplicit false

namespace Micropayment

/-- A thread of the pool. From `predicate` to `leave` it is in the `wait` that begins with `lock`;
`leave` has what the predicate's `pop` has got. -/
inductive Worker (τ : Type) where
  | pop
  | running (f : τ)
  | ran
  | lock
  | predicate
  | popFailed
  | notDone
  | asleep
  | woken
  | leave (f : Option τ)
  | returned
  deriving DecidableEq, Repr

/-- The task that the thread has taken from the queue and not finished. -/
def Worker.task {τ : Type} : Worker τ → Multiset τ
  | running f | leave (some f) => {f}
  | _ => 0

/-- How far the call of `stop` is: before it, setting the flags and emptying the queue (only without
`isWait`), about to notify all threads, joining them, emptying the queue again, and returned. -/
inductive Stopping where
  | no
  | commanding
  | notifying
  | joining
  | clearing
  | stopped
  deriving DecidableEq, Repr

/-- `mutex` is the thread that holds it; `pushing` are the tasks of the calls of `push` that have
not notified yet. What no step reads: the tasks in the order in which they were `pushed` and
`popped`, those that have `finished`, those that `clear_queue` has `deleted`, and those that were
being pushed, or had not been yet, when `stop` was called (`late`). -/
structure ThreadPool (ι τ : Type) where
  workers : ι → Worker τ
  q : List τ
  mutex : Option ι
  nWaiting : Int
  flags : ι → Bool
  isDone : Bool
  isStop : Bool
  stopping : Stopping
  pushing : List τ
  pushed : List τ
  popped : List τ
  finished : List τ
  deleted : List τ
  late : List τ

/-- What happens next. A `notify_one` wakes one of the sleeping threads, and a thread may wake up
without it. -/
inductive PoolEvent (ι τ : Type) where
  | enqueue (f : τ)
  | notify (f : τ) (wake : Option ι)
  | work (i : ι)
  | finish (i : ι)
  | spurious (i : ι)
  | stop (isWait : Bool)
  | flag (i : ι)
  | clear
  | notifyAll
  | join

namespace ThreadPool

variable {ι τ : Type}

/-- All threads have been started, and none has done anything. -/
def init : ThreadPool ι τ where
  workers _ := .pop
  q := []
  mutex := none
  nWaiting := 0
  flags _ := false
  isDone := false
  isStop := false
  stopping := .no
  pushing := []
  pushed := []
  popped := []
  finished := []
  deleted := []
  late := []

section
variable [DecidableEq ι]

/-- Thread `i` goes on to `w`. -/
def goto (p : ThreadPool ι τ) (i : ι) (w : Worker τ) : ThreadPool ι τ :=
  { p with workers := Function.update p.workers i w }

/-- `this->q.pop(_f)` by thread `i`, which goes on to `found f` or to `empty`. -/
def popBy (p : ThreadPool ι τ) (i : ι) (found : τ → Worker τ) (empty : Worker τ) :
    ThreadPool ι τ :=
  match p.q with
  | [] => p.goto i empty
  | f :: q => { p.goto i (found f) with q, popped := p.popped ++ [f] }

/-- The next step of thread `i` of its own; `none` while it runs a task, waits for the mutex or
sleeps, and after its end. -/
def work (p : ThreadPool ι τ) (i : ι) : Option (ThreadPool ι τ) :=
  match p.workers i with
  | .pop => some (p.popBy i .running .lock)
  | .ran => some (p.goto i (if p.flags i then .returned else .pop))
  | .lock =>
    if p.mutex = none then
      some { p.goto i .predicate with mutex := some i, nWaiting := p.nWaiting + 1 }
    else none
  | .predicate => some (p.popBy i (fun f => .leave (some f)) .popFailed)
  | .popFailed => some (p.goto i (if p.isDone then .leave none else .notDone))
  | .notDone =>
    some (if p.flags i then p.goto i (.leave none) else { p.goto i .asleep with mutex := none })
  | .woken => if p.mutex = none then some { p.goto i .predicate with mutex := some i } else none
  | .leave f =>
    some { p.goto i (match f with
        | some f => .running f
        | none => .returned) with mutex := none, nWaiting := p.nWaiting - 1 }
  | .running _ | .asleep | .returned => none

variable [DecidableEq τ] [Fintype ι]

/-- The end of a `push`: `notify_one` under the mutex. -/
def notify (p : ThreadPool ι τ) (f : τ) (wake : Option ι) : Option (ThreadPool ι τ) :=
  if p.mutex = none ∧ f ∈ p.pushing then
    let p := { p with pushing := p.pushing.erase f }
    match wake with
    | some i => if p.workers i = .asleep then some (p.goto i .woken) else none
    | none => if ∀ i, p.workers i ≠ .asleep then some p else none
  else none

/-- One turn of `clear_queue`, and what follows it once the queue is empty. -/
def clear (p : ThreadPool ι τ) (next : Stopping) : ThreadPool ι τ :=
  match p.q with
  | [] => { p with stopping := next }
  | f :: q => { p with q, popped := p.popped ++ [f], deleted := p.deleted ++ [f] }

def step (p : ThreadPool ι τ) : PoolEvent ι τ → Option (ThreadPool ι τ)
  | .enqueue f =>
    some { p with
      q := p.q ++ [f]
      pushing := p.pushing ++ [f]
      pushed := p.pushed ++ [f]
      late := if p.stopping = .no then [] else p.late ++ [f] }
  | .notify f wake => p.notify f wake
  | .work i => p.work i
  | .finish i =>
    match p.workers i with
    | .running f => some { p.goto i .ran with finished := p.finished ++ [f] }
    | _ => none
  | .spurious i => if p.workers i = .asleep then some (p.goto i .woken) else none
  | .stop isWait =>
    if p.stopping = .no then
      some { p with
        isDone := isWait
        isStop := !isWait
        stopping := if isWait then .notifying else .commanding
        late := p.pushing }
    else none
  | .flag i =>
    if p.stopping = .commanding ∧ p.flags i = false then
      some { p with flags := Function.update p.flags i true }
    else none
  | .clear =>
    if p.stopping = .commanding ∧ ∀ i, p.flags i = true then some (p.clear .notifying)
    else if p.stopping = .clearing then some (p.clear .stopped)
    else none
  | .notifyAll =>
    if p.stopping = .notifying ∧ p.mutex = none then
      some { p with
        workers := fun i => if p.workers i = .asleep then .woken else p.workers i
        stopping := .joining }
    else none
  | .join =>
    if p.stopping = .joining ∧ ∀ i, p.workers i = .returned then
      some { p with stopping := .clearing }
    else none

end

/-! ## What a step can do -/

/-- What a thread can do without the queue and the mutex. -/
inductive Moves (p : ThreadPool ι τ) (i : ι) : Worker τ → Worker τ → Prop
  | flagged : p.flags i = true → Moves p i .ran .returned
  | next : Moves p i .ran .pop
  | done : p.isDone = true → Moves p i .popFailed (.leave none)
  | notDone : p.isDone = false → Moves p i .popFailed .notDone
  | told : p.flags i = true → Moves p i .notDone (.leave none)
  | spurious : Moves p i .asleep .woken

/-- The places of a `pop`, with what follows if it finds `f` and if it finds nothing. -/
inductive Pops (f : τ) : Worker τ → Worker τ → Prop
  | outside : Pops f .pop (.running f)
  | inside : Pops f .predicate (.leave (some f))

inductive Misses : Worker τ → Worker τ → Prop
  | outside : Misses .pop .lock
  | inside : Misses .predicate .popFailed

section
variable [DecidableEq ι]

@[simp] theorem goto_workers (p : ThreadPool ι τ) (i : ι) (w : Worker τ) :
    (p.goto i w).workers = Function.update p.workers i w := rfl

variable [DecidableEq τ]

/-- What each event can do. -/
inductive Stepped (p : ThreadPool ι τ) : PoolEvent ι τ → ThreadPool ι τ → Prop
  | enqueue (f : τ) : Stepped p (.enqueue f) { p with
      q := p.q ++ [f]
      pushing := p.pushing ++ [f]
      pushed := p.pushed ++ [f]
      late := if p.stopping = .no then [] else p.late ++ [f] }
  | notifyOne {f : τ} {i : ι} : p.mutex = none → f ∈ p.pushing → p.workers i = .asleep →
      Stepped p (.notify f (some i)) { p.goto i .woken with pushing := p.pushing.erase f }
  | notifyNobody {f : τ} : p.mutex = none → f ∈ p.pushing → (∀ i, p.workers i ≠ .asleep) →
      Stepped p (.notify f none) { p with pushing := p.pushing.erase f }
  | take {i : ι} {f : τ} {q : List τ} {w : Worker τ} : p.q = f :: q → Pops f (p.workers i) w →
      Stepped p (.work i) { p.goto i w with q, popped := p.popped ++ [f] }
  | miss {i : ι} {w : Worker τ} : p.q = [] → Misses (p.workers i) w →
      Stepped p (.work i) (p.goto i w)
  | move {i : ι} {w : Worker τ} {e : PoolEvent ι τ} : e = .work i ∨ e = .spurious i →
      Moves p i (p.workers i) w → Stepped p e (p.goto i w)
  | lock {i : ι} : p.workers i = .lock → p.mutex = none →
      Stepped p (.work i)
        { p.goto i .predicate with mutex := some i, nWaiting := p.nWaiting + 1 }
  | relock {i : ι} : p.workers i = .woken → p.mutex = none →
      Stepped p (.work i) { p.goto i .predicate with mutex := some i }
  | sleep {i : ι} : p.workers i = .notDone → p.flags i = false →
      Stepped p (.work i) { p.goto i .asleep with mutex := none }
  | start {i : ι} {f : τ} : p.workers i = .leave (some f) →
      Stepped p (.work i)
        { p.goto i (.running f) with mutex := none, nWaiting := p.nWaiting - 1 }
  | quit {i : ι} : p.workers i = .leave none →
      Stepped p (.work i) { p.goto i .returned with mutex := none, nWaiting := p.nWaiting - 1 }
  | finish {i : ι} {f : τ} : p.workers i = .running f →
      Stepped p (.finish i) { p.goto i .ran with finished := p.finished ++ [f] }
  | stop {isWait : Bool} : p.stopping = .no →
      Stepped p (.stop isWait) { p with
        isDone := isWait
        isStop := !isWait
        stopping := if isWait then .notifying else .commanding
        late := p.pushing }
  | flag {i : ι} : p.stopping = .commanding → p.flags i = false →
      Stepped p (.flag i) { p with flags := Function.update p.flags i true }
  | drop {f : τ} {q : List τ} : p.stopping = .commanding ∨ p.stopping = .clearing →
      p.q = f :: q →
      Stepped p .clear { p with q, popped := p.popped ++ [f], deleted := p.deleted ++ [f] }
  | commanded : p.stopping = .commanding → (∀ i, p.flags i = true) → p.q = [] →
      Stepped p .clear { p with stopping := .notifying }
  | cleared : p.stopping = .clearing → p.q = [] →
      Stepped p .clear { p with stopping := .stopped }
  | notifyAll : p.stopping = .notifying → p.mutex = none →
      Stepped p .notifyAll { p with
        workers := fun i => if p.workers i = .asleep then .woken else p.workers i
        stopping := .joining }
  | join : p.stopping = .joining → (∀ i, p.workers i = .returned) →
      Stepped p .join { p with stopping := .clearing }

theorem work_cases {p p' : ThreadPool ι τ} {i : ι} (h : p.work i = some p') :
    Stepped p (.work i) p' := by
  unfold work at h
  cases hw : p.workers i with
  | pop =>
    rw [hw] at h
    obtain rfl := Option.some.inj h
    unfold popBy
    cases hq : p.q with
    | nil => exact .miss hq (hw ▸ .outside)
    | cons f q => exact .take hq (hw ▸ .outside)
  | predicate =>
    rw [hw] at h
    obtain rfl := Option.some.inj h
    unfold popBy
    cases hq : p.q with
    | nil => exact .miss hq (hw ▸ .inside)
    | cons f q => exact .take hq (hw ▸ .inside)
  | ran =>
    rw [hw] at h
    obtain rfl := Option.some.inj h
    cases hf : p.flags i with
    | false => exact .move (.inl rfl) (hw ▸ .next)
    | true => exact .move (.inl rfl) (hw ▸ .flagged hf)
  | popFailed =>
    rw [hw] at h
    obtain rfl := Option.some.inj h
    cases hd : p.isDone with
    | false => exact .move (.inl rfl) (hw ▸ .notDone hd)
    | true => exact .move (.inl rfl) (hw ▸ .done hd)
  | notDone =>
    rw [hw] at h
    obtain rfl := Option.some.inj h
    cases hf : p.flags i with
    | false => exact .sleep hw hf
    | true => exact .move (.inl rfl) (hw ▸ .told hf)
  | lock =>
    rw [hw] at h
    obtain ⟨hm, ⟨⟩⟩ := Option.ite_none_right_eq_some.1 h
    exact .lock hw hm
  | woken =>
    rw [hw] at h
    obtain ⟨hm, ⟨⟩⟩ := Option.ite_none_right_eq_some.1 h
    exact .relock hw hm
  | leave f =>
    rw [hw] at h
    obtain rfl := Option.some.inj h
    cases f with
    | none => exact .quit hw
    | some f => exact .start hw
  | running f | asleep | returned =>
    rw [hw] at h
    cases h

variable [Fintype ι]

theorem notify_cases {p p' : ThreadPool ι τ} {f : τ} {wake : Option ι}
    (h : p.notify f wake = some p') : Stepped p (.notify f wake) p' := by
  obtain ⟨⟨hm, hf⟩, h⟩ := Option.ite_none_right_eq_some.1 h
  cases wake with
  | none =>
    obtain ⟨hn, ⟨⟩⟩ := Option.ite_none_right_eq_some.1 h
    exact .notifyNobody hm hf hn
  | some i =>
    obtain ⟨hi, ⟨⟩⟩ := Option.ite_none_right_eq_some.1 h
    exact .notifyOne hm hf hi

theorem step_cases {p p' : ThreadPool ι τ} {e : PoolEvent ι τ} (h : p.step e = some p') :
    Stepped p e p' := by
  cases e with
  | enqueue f =>
    obtain rfl := Option.some.inj h
    exact .enqueue f
  | notify f wake => exact notify_cases h
  | work i => exact work_cases h
  | finish i =>
    simp only [step] at h
    split at h
    · rename_i f hw
      obtain rfl := Option.some.inj h
      exact .finish hw
    · cases h
  | spurious i =>
    obtain ⟨hw, ⟨⟩⟩ := Option.ite_none_right_eq_some.1 h
    exact .move (.inr rfl) (hw ▸ .spurious)
  | stop isWait =>
    obtain ⟨hs, ⟨⟩⟩ := Option.ite_none_right_eq_some.1 h
    exact .stop hs
  | flag i =>
    obtain ⟨⟨hs, hf⟩, ⟨⟩⟩ := Option.ite_none_right_eq_some.1 h
    exact .flag hs hf
  | clear =>
    simp only [step] at h
    split at h
    · rename_i hs
      obtain rfl := Option.some.inj h
      unfold clear
      split
      · exact .commanded hs.1 hs.2 ‹_›
      · exact .drop (.inl hs.1) ‹_›
    · obtain ⟨hs, ⟨⟩⟩ := Option.ite_none_right_eq_some.1 h
      unfold clear
      split
      · exact .cleared hs ‹_›
      · exact .drop (.inr hs) ‹_›
  | notifyAll =>
    obtain ⟨⟨hs, hm⟩, ⟨⟩⟩ := Option.ite_none_right_eq_some.1 h
    exact .notifyAll hs hm
  | join =>
    obtain ⟨⟨hs, hr⟩, ⟨⟩⟩ := Option.ite_none_right_eq_some.1 h
    exact .join hs hr

end

end ThreadPool

end Micropayment
