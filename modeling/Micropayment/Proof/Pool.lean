import Micropayment.Pool

/-!
# Tasks of the thread pool

Every task that is pushed is in exactly one place (`Placed`), and they are popped in the order in
which they were pushed. A thread falls asleep only after its `pop` has failed under the mutex, and a
`push` notifies under the mutex after it has put its task into the queue, so while a thread sleeps
every task in the queue is matched by a notification to come or a thread that is about to `pop`
(`Awake`). Hence `busy_or_empty`: tasks wait only for threads that run tasks. `stop_runs` is what
`stop` leaves behind.
-/

set_option autoImplicit false

namespace Micropayment

namespace Worker

variable {τ : Type}

def holdsMutex : Worker τ → Bool
  | predicate | popFailed | notDone | leave _ => true
  | _ => false

/-- Counted in `nWaiting`. -/
def inWait : Worker τ → Int
  | predicate | popFailed | notDone | asleep | woken | leave _ => 1
  | _ => 0

/-- The thread will `pop` before it sleeps or returns. -/
def searching : Worker τ → Nat
  | pop | lock | predicate | woken => 1
  | _ => 0

/-- Its `pop` has failed under the mutex. -/
def failed : Worker τ → Bool
  | popFailed | notDone => true
  | _ => false

/-- A bound for the steps of its own that the thread can take. -/
def effort : Worker τ → Nat
  | ran => 7
  | pop => 6
  | lock | woken => 5
  | predicate => 4
  | popFailed => 3
  | notDone => 2
  | leave _ => 1
  | running _ | asleep | returned => 0

/-- Waking a thread changes nothing else. -/
theorem woken_keeps [DecidableEq τ] (w : Worker τ) :
    (if w = asleep then woken else w).holdsMutex = w.holdsMutex ∧
      (if w = asleep then woken else w).inWait = w.inWait ∧
      (if w = asleep then woken else w).task = w.task ∧
      (if w = asleep then woken else w).failed = w.failed := by
  by_cases hw : w = asleep
  · rw [if_pos hw, hw]
    exact ⟨rfl, rfl, rfl, rfl⟩
  · rw [if_neg hw]
    exact ⟨rfl, rfl, rfl, rfl⟩

end Worker

namespace ThreadPool

variable {ι τ : Type}

/-! ## Steps of one thread -/

section
variable {p : ThreadPool ι τ} {i : ι} {f : τ} {v w : Worker τ}

theorem Pops.task (h : Pops f v w) : v.task = 0 ∧ w.task = {f} := by
  cases h <;> exact ⟨rfl, rfl⟩

theorem Pops.keeps (h : Pops f v w) : w.holdsMutex = v.holdsMutex ∧ w.inWait = v.inWait := by
  cases h <;> exact ⟨rfl, rfl⟩

theorem Pops.searching (h : Pops f v w) :
    v.searching = 1 ∧ w.searching = 0 ∧ w.failed = false ∧ w ≠ .asleep := by
  cases h <;> exact ⟨rfl, rfl, rfl, nofun⟩

theorem Misses.keeps (h : Misses v w) :
    w.holdsMutex = v.holdsMutex ∧ w.inWait = v.inWait ∧ w.task = v.task := by
  cases h <;> exact ⟨rfl, rfl, rfl⟩

theorem Moves.keeps (h : Moves p i v w) :
    w.holdsMutex = v.holdsMutex ∧ w.inWait = v.inWait ∧ w.task = v.task := by
  cases h <;> exact ⟨rfl, rfl, rfl⟩

theorem Pops.effort (h : Pops f v w) : w.effort < v.effort := by
  cases h <;> simp [Worker.effort]

theorem Misses.effort (h : Misses v w) : w.effort < v.effort := by
  cases h <;> simp [Worker.effort]

theorem Moves.effort (h : Moves p i v w) (hv : v ≠ .asleep) : w.effort < v.effort := by
  cases h with
  | spurious => exact absurd rfl hv
  | flagged | next | done | notDone | told => simp [Worker.effort]

/-- A thread that moves does not stop searching, and has not failed or fallen asleep by it. -/
theorem Moves.searching (h : Moves p i v w) :
    v.searching ≤ w.searching ∧ (w.failed = true → v.failed = true) ∧ w ≠ .asleep := by
  cases h <;> simp [Worker.searching, Worker.failed]

end

/-! ## The invariants -/

/-- The mutex is held by the threads in the parts of `wait` that need it. -/
def Locked (p : ThreadPool ι τ) : Prop :=
  ∀ i, p.mutex = some i ↔ (p.workers i).holdsMutex = true

/-- `nWaiting` is the number of threads in `wait`. -/
def Counted [Fintype ι] (p : ThreadPool ι τ) : Prop := p.nWaiting = tally Worker.inWait p.workers

/-- The tasks are popped in the order in which they were pushed, and a task that was popped is held
by a thread, finished or deleted. -/
structure Placed [Fintype ι] (p : ThreadPool ι τ) : Prop where
  order : p.pushed = p.popped ++ p.q
  places : (p.popped : Multiset τ) = p.finished + p.deleted + tally Worker.task p.workers

/-- While a thread has failed to `pop` and holds the mutex, all tasks in the queue are of calls of
`push` that have not notified. While a thread sleeps, there are as many of these and of threads
that will `pop` before they sleep as there are tasks in the queue. -/
structure Awake [Fintype ι] (p : ThreadPool ι τ) : Prop where
  failed : ∀ i, (p.workers i).failed = true → (p.q : Multiset τ) ≤ p.pushing
  asleep : ∀ i, p.workers i = .asleep →
    p.q.length ≤ p.pushing.length + tally Worker.searching p.workers

section
variable {p p' : ThreadPool ι τ}

theorem Locked.free (h : Locked p) (hm : p.mutex = none) (i : ι) :
    (p.workers i).holdsMutex = false := by
  have hi := h i
  rw [hm] at hi
  cases hh : (p.workers i).holdsMutex with
  | false => rfl
  | true => cases hi.2 hh

theorem Locked.not_failed (h : Locked p) (hm : p.mutex = none) (i : ι) :
    (p.workers i).failed = false := by
  have hfree := h.free hm i
  cases hw : p.workers i with
  | popFailed | notDone => rw [hw] at hfree; cases hfree
  | pop | running | ran | lock | predicate | asleep | woken | leave | returned => rfl

variable [Fintype ι]

/-- A step that changes no task. -/
theorem Placed.keep (h : Placed p) (h1 : p'.pushed = p.pushed) (h2 : p'.popped = p.popped)
    (h3 : p'.q = p.q) (h4 : p'.finished = p.finished) (h5 : p'.deleted = p.deleted)
    (h6 : tally Worker.task p'.workers = tally Worker.task p.workers) : Placed p' := by
  refine ⟨?_, ?_⟩
  · rw [h1, h2, h3, h.order]
  · rw [h2, h4, h5, h6, h.places]

/-- Nothing is in the queue. -/
theorem Awake.of_empty (hq : p.q = []) : Awake p := by
  refine ⟨fun j _ => ?_, fun j _ => ?_⟩
  · rw [hq]
    exact Multiset.zero_le _
  · rw [hq]
    exact Nat.zero_le _

end

variable [DecidableEq ι]

/-! ## The mutex and the counter -/

section
variable {p : ThreadPool ι τ} {i : ι} {w : Worker τ}

theorem Locked.keep {p' : ThreadPool ι τ} (h : Locked p) (hm : p'.mutex = p.mutex)
    (hw : p'.workers = Function.update p.workers i w)
    (hk : w.holdsMutex = (p.workers i).holdsMutex) : Locked p' := by
  intro j
  rw [hm, hw, h j]
  by_cases hj : j = i
  · rw [hj, Function.update_self, hk]
  · rw [Function.update_of_ne hj]

theorem Locked.acquire {p' : ThreadPool ι τ} (h : Locked p) (hfree : p.mutex = none)
    (hm : p'.mutex = some i) (hw : p'.workers = Function.update p.workers i w)
    (hk : w.holdsMutex = true) : Locked p' := by
  intro j
  rw [hm, hw]
  by_cases hj : j = i
  · rw [hj, Function.update_self, hk]
    exact ⟨fun _ => rfl, fun _ => rfl⟩
  · rw [Function.update_of_ne hj, h.free hfree j]
    exact ⟨fun he => absurd (Option.some.inj he).symm hj, nofun⟩

theorem Locked.release {p' : ThreadPool ι τ} (h : Locked p)
    (hi : (p.workers i).holdsMutex = true) (hm : p'.mutex = none)
    (hw : p'.workers = Function.update p.workers i w) (hk : w.holdsMutex = false) :
    Locked p' := by
  intro j
  rw [hm, hw]
  by_cases hj : j = i
  · rw [hj, Function.update_self, hk]
    exact ⟨nofun, nofun⟩
  · rw [Function.update_of_ne hj, ← h j, (h i).2 hi]
    exact ⟨nofun, fun he => absurd (Option.some.inj he).symm hj⟩

theorem Counted.goto [Fintype ι] {p' : ThreadPool ι τ} (h : Counted p)
    (hw : p'.workers = Function.update p.workers i w)
    (hn : p'.nWaiting + (p.workers i).inWait = p.nWaiting + w.inWait) : Counted p' := by
  have ht := tally_update Worker.inWait p.workers i w
  unfold Counted at h ⊢
  rw [hw]
  omega

end

section
variable [DecidableEq τ] {p p' : ThreadPool ι τ} {e : PoolEvent ι τ}

theorem Locked.step (h : Locked p) (hs : Stepped p e p') : Locked p' := by
  cases hs with
  | notifyOne hm hf hi => exact h.keep rfl rfl (by rw [hi]; rfl)
  | take hq hw => exact h.keep rfl rfl hw.keeps.1
  | miss hq hw => exact h.keep rfl rfl hw.keeps.1
  | move he hw => exact h.keep rfl rfl hw.keeps.1
  | finish hw => exact h.keep rfl rfl (by rw [hw]; rfl)
  | lock hw hm => exact h.acquire hm rfl rfl rfl
  | relock hw hm => exact h.acquire hm rfl rfl rfl
  | sleep hw hf => exact h.release (by rw [hw]; rfl) rfl rfl rfl
  | start hw => exact h.release (by rw [hw]; rfl) rfl rfl rfl
  | quit hw => exact h.release (by rw [hw]; rfl) rfl rfl rfl
  | notifyAll hs hm =>
    intro j
    rw [h j]
    exact iff_of_eq (congrArg (· = true) (Worker.woken_keeps _).1.symm)
  | enqueue | notifyNobody | stop | flag | drop | commanded | cleared | join => exact h

theorem Counted.step [Fintype ι] (h : Counted p) (hs : Stepped p e p') : Counted p' := by
  cases hs with
  | notifyOne hm hf hi => exact h.goto rfl (by rw [hi]; rfl)
  | take hq hw => exact h.goto rfl (by rw [hw.keeps.2]; rfl)
  | miss hq hw => exact h.goto rfl (by rw [hw.keeps.2.1]; rfl)
  | move he hw => exact h.goto rfl (by rw [hw.keeps.2.1]; rfl)
  | finish hw => exact h.goto rfl (by rw [hw]; rfl)
  | lock hw hm => exact h.goto rfl (by rw [hw]; simp [Worker.inWait])
  | relock hw hm => exact h.goto rfl (by rw [hw]; rfl)
  | sleep hw hf => exact h.goto rfl (by rw [hw]; rfl)
  | start hw => exact h.goto rfl (by rw [hw]; simp [Worker.inWait])
  | quit hw => exact h.goto rfl (by rw [hw]; simp [Worker.inWait])
  | notifyAll hs hm =>
    exact h.trans (tally_congr _ fun i => (Worker.woken_keeps _).2.1.symm)
  | enqueue | notifyNobody | stop | flag | drop | commanded | cleared | join => exact h

end

/-! ## Where the tasks are -/

section
variable [Fintype ι] {p p' : ThreadPool ι τ} {i : ι} {w : Worker τ}

theorem tally_goto (h : w.task = (p.workers i).task) :
    tally Worker.task (Function.update p.workers i w) = tally Worker.task p.workers :=
  tally_update_eq _ h

theorem Placed.step [DecidableEq τ] {e : PoolEvent ι τ} (h : Placed p) (hs : Stepped p e p') :
    Placed p' := by
  cases hs with
  | enqueue f =>
    refine ⟨?_, h.places⟩
    show p.pushed ++ [f] = p.popped ++ (p.q ++ [f])
    rw [h.order, List.append_assoc]
  | @take i f q w hq hw =>
    refine ⟨?_, ?_⟩
    · show p.pushed = p.popped ++ [f] ++ q
      rw [h.order, hq, List.append_assoc]
      rfl
    · have ht := tally_update Worker.task p.workers i w
      rw [hw.task.1, hw.task.2, add_zero] at ht
      show ((p.popped ++ [f] : List τ) : Multiset τ) = p.finished + p.deleted + tally _ _
      rw [goto_workers, ht, ← add_assoc, ← h.places]
      rfl
  | @finish i f hw =>
    refine ⟨h.order, ?_⟩
    have ht := tally_update Worker.task p.workers i .ran
    rw [hw] at ht
    show (p.popped : Multiset τ) = (p.finished ++ [f] : List τ) + p.deleted + tally _ _
    calc (p.popped : Multiset τ)
        = p.finished + p.deleted + tally Worker.task p.workers := h.places
      _ = p.finished + p.deleted +
          (tally Worker.task (Function.update p.workers i .ran) + {f}) := by
        rw [show ({f} : Multiset τ) = (Worker.running f).task from rfl, ht]
        exact (congrArg _ (add_zero _)).symm
      _ = (p.finished ++ [f] : List τ) + p.deleted +
          tally Worker.task (Function.update p.workers i .ran) := by
        rw [← Multiset.coe_add, Multiset.coe_singleton]
        abel
  | @drop f q hs hq =>
    refine ⟨?_, ?_⟩
    · show p.pushed = p.popped ++ [f] ++ q
      rw [h.order, hq, List.append_assoc]
      rfl
    · show ((p.popped ++ [f] : List τ) : Multiset τ) =
        p.finished + (p.deleted ++ [f] : List τ) + tally _ _
      rw [← Multiset.coe_add, ← Multiset.coe_add, h.places]
      abel
  | notifyOne hm hf hi => exact h.keep rfl rfl rfl rfl rfl (tally_goto (by rw [hi]; rfl))
  | miss hq hw => exact h.keep rfl rfl rfl rfl rfl (tally_goto hw.keeps.2.2)
  | move he hw => exact h.keep rfl rfl rfl rfl rfl (tally_goto hw.keeps.2.2)
  | lock hw hm => exact h.keep rfl rfl rfl rfl rfl (tally_goto (by rw [hw]; rfl))
  | relock hw hm => exact h.keep rfl rfl rfl rfl rfl (tally_goto (by rw [hw]; rfl))
  | sleep hw hf => exact h.keep rfl rfl rfl rfl rfl (tally_goto (by rw [hw]; rfl))
  | start hw => exact h.keep rfl rfl rfl rfl rfl (tally_goto (by rw [hw]; rfl))
  | quit hw => exact h.keep rfl rfl rfl rfl rfl (tally_goto (by rw [hw]; rfl))
  | notifyAll hs hm =>
    exact h.keep rfl rfl rfl rfl rfl (tally_congr _ fun i => (Worker.woken_keeps _).2.2.1)
  | notifyNobody | stop | flag | commanded | cleared | join => exact ⟨h.order, h.places⟩

end

/-! ## No lost wake-up -/

section
variable [Fintype ι] {p p' : ThreadPool ι τ} {i : ι} {w : Worker τ}

/-- A thread that goes on, with the queue and the calls of `push` as they were. -/
theorem Awake.goto (h : Awake p) (hq : p'.q = p.q) (hp : p'.pushing = p.pushing)
    (hw : p'.workers = Function.update p.workers i w)
    (hs : (p.workers i).searching ≤ w.searching)
    (hf : w.failed = true → (p.workers i).failed = true)
    (ha : w = .asleep → p.q.length ≤ p.pushing.length) : Awake p' := by
  have ht := tally_update Worker.searching p.workers i w
  refine ⟨fun j hj => ?_, fun j hj => ?_⟩
  · rw [hq, hp]
    rw [hw] at hj
    by_cases hji : j = i
    · rw [hji, Function.update_self] at hj
      exact h.failed i (hf hj)
    · rw [Function.update_of_ne hji] at hj
      exact h.failed j hj
  · rw [hq, hp, hw]
    rw [hw] at hj
    by_cases hji : j = i
    · rw [hji, Function.update_self] at hj
      have := ha hj
      omega
    · rw [Function.update_of_ne hji] at hj
      have := h.asleep j hj
      omega

theorem Awake.take (h : Awake p) {f : τ} {q : List τ} (hq : p.q = f :: q)
    (hw : Pops f (p.workers i) w) (hq' : p'.q = q) (hp : p'.pushing = p.pushing)
    (hw' : p'.workers = Function.update p.workers i w) : Awake p' := by
  obtain ⟨hs, hs', hf, ha⟩ := hw.searching
  have ht := tally_update Worker.searching p.workers i w
  refine ⟨fun j hj => ?_, fun j hj => ?_⟩
  · rw [hw'] at hj
    by_cases hji : j = i
    · rw [hji, Function.update_self, hf] at hj
      cases hj
    · rw [Function.update_of_ne hji] at hj
      rw [hq', hp]
      refine le_trans ?_ (h.failed j hj)
      rw [hq]
      exact Multiset.le_cons_self _ _
  · rw [hw'] at hj
    by_cases hji : j = i
    · rw [hji, Function.update_self] at hj
      exact absurd hj ha
    · rw [Function.update_of_ne hji] at hj
      have hle := h.asleep j hj
      rw [hq, List.length_cons] at hle
      rw [hq', hp, hw']
      omega

theorem Awake.step [DecidableEq τ] {e : PoolEvent ι τ} (hl : Locked p) (h : Awake p)
    (hs : Stepped p e p') : Awake p' := by
  cases hs with
  | enqueue f =>
    refine ⟨fun j hj => ?_, fun j hj => ?_⟩
    · show ((p.q ++ [f] : List τ) : Multiset τ) ≤ (p.pushing ++ [f] : List τ)
      rw [← Multiset.coe_add, ← Multiset.coe_add]
      exact add_le_add_left (h.failed j hj) _
    · show (p.q ++ [f]).length ≤ (p.pushing ++ [f]).length + _
      have hle := h.asleep j hj
      simp only [List.length_append, List.length_singleton]
      omega
  | @notifyOne f i hm hf hi =>
    have ht := tally_update Worker.searching p.workers i .woken
    rw [hi] at ht
    simp only [Worker.searching] at ht
    refine ⟨fun j hj => ?_, fun j hj => ?_⟩
    · rw [goto_workers] at hj
      by_cases hji : j = i
      · rw [hji, Function.update_self] at hj
        cases hj
      · rw [Function.update_of_ne hji, hl.not_failed hm] at hj
        cases hj
    · have hle := h.asleep i hi
      have hlen := List.length_erase_of_mem hf
      have hpos := List.length_pos_of_mem hf
      show p.q.length ≤ (p.pushing.erase f).length + _
      rw [goto_workers]
      omega
  | notifyNobody hm hf hn =>
    refine ⟨fun j hj => ?_, fun j hj => absurd hj (hn j)⟩
    rw [hl.not_failed hm] at hj
    cases hj
  | take hq hw => exact h.take hq hw rfl rfl rfl
  | miss hq hw => exact .of_empty hq
  | move he hw =>
    obtain ⟨h1, h2, h3⟩ := hw.searching
    exact h.goto rfl rfl rfl h1 h2 fun he => absurd he h3
  | lock hw hm => exact h.goto rfl rfl rfl (by rw [hw]; rfl) nofun nofun
  | relock hw hm => exact h.goto rfl rfl rfl (by rw [hw]; rfl) nofun nofun
  | @sleep i hw hf =>
    refine h.goto rfl rfl rfl (by rw [hw]; rfl) nofun fun _ => ?_
    -- nobody has notified since the `pop` failed
    have hle := Multiset.card_le_card (h.failed i (by rw [hw]; rfl))
    simpa using hle
  | start hw => exact h.goto rfl rfl rfl (by rw [hw]; rfl) nofun nofun
  | quit hw => exact h.goto rfl rfl rfl (by rw [hw]; rfl) nofun nofun
  | finish hw => exact h.goto rfl rfl rfl (by rw [hw]; rfl) nofun nofun
  | @drop f q hs hq =>
    refine ⟨fun j hj => ?_, fun j hj => ?_⟩
    · refine le_trans ?_ (h.failed j hj)
      rw [hq]
      exact Multiset.le_cons_self _ _
    · have hle := h.asleep j hj
      rw [hq, List.length_cons] at hle
      show q.length ≤ p.pushing.length + tally Worker.searching p.workers
      omega
  | notifyAll hs hm =>
    refine ⟨fun j hj => ?_, fun j hj => ?_⟩
    · rw [(Worker.woken_keeps _).2.2.2, hl.not_failed hm] at hj
      cases hj
    · dsimp only at hj
      split at hj
      · cases hj
      · exact absurd hj ‹_›
  | stop | flag | commanded | cleared | join => exact ⟨h.failed, h.asleep⟩

end

/-! ## Runs -/

/-- The steps that the pool takes by itself: those of its threads, and the ends of `push`. -/
def Own (_ : ThreadPool ι τ) : PoolEvent ι τ → Prop
  | .notify _ _ | .work _ => True
  | _ => False

/-- A bound for the pool's own steps. -/
def effort [Fintype ι] (p : ThreadPool ι τ) : Nat :=
  6 * p.pushing.length + tally Worker.effort p.workers

/-- A thread goes on to a state with less to do. -/
theorem effort_goto [Fintype ι] {p p' : ThreadPool ι τ} {i : ι} {w : Worker τ}
    (hp : p'.pushing = p.pushing) (hw : p'.workers = Function.update p.workers i w)
    (hlt : w.effort < (p.workers i).effort) : p'.effort < p.effort := by
  have ht := tally_update Worker.effort p.workers i w
  unfold effort
  rw [hp, hw]
  omega

section
variable [Fintype ι] [DecidableEq τ] {p p' : ThreadPool ι τ} {e : PoolEvent ι τ}

theorem effort_lt (hg : Own p e) (h : p.step e = some p') : p'.effort < p.effort := by
  cases step_cases h with
  | @notifyOne f i hm hf hi =>
    have ht := tally_update Worker.effort p.workers i .woken
    have hlen := List.length_erase_of_mem hf
    have hpos := List.length_pos_of_mem hf
    rw [hi] at ht
    simp only [Worker.effort] at ht
    unfold effort
    rw [goto_workers]
    dsimp only
    omega
  | notifyNobody hm hf hn =>
    have hlen := List.length_erase_of_mem hf
    have hpos := List.length_pos_of_mem hf
    unfold effort
    dsimp only
    omega
  | take hq hw => exact effort_goto rfl rfl hw.effort
  | miss hq hw => exact effort_goto rfl rfl hw.effort
  | move he hw =>
    rcases he with rfl | rfl
    · exact effort_goto rfl rfl (hw.effort fun ha => by simp [step, work, ha] at h)
    · cases hg
  | lock hw hm => exact effort_goto rfl rfl (by rw [hw]; simp [Worker.effort])
  | relock hw hm => exact effort_goto rfl rfl (by rw [hw]; simp [Worker.effort])
  | sleep hw hf => exact effort_goto rfl rfl (by rw [hw]; simp [Worker.effort])
  | start hw => exact effort_goto rfl rfl (by rw [hw]; simp [Worker.effort])
  | quit hw => exact effort_goto rfl rfl (by rw [hw]; simp [Worker.effort])
  | enqueue | finish | stop | flag | drop | commanded | cleared | notifyAll | join => cases hg

/-- The pool waits for its tasks, or for something to do. -/
def Settled (p : ThreadPool ι τ) : Prop := ∀ e, Own p e → p.step e = none

/-- Then nobody holds the mutex, all calls of `push` have returned, and every thread runs a task,
sleeps or has returned. -/
theorem Settled.workers (hl : Locked p) (h : Settled p) : p.mutex = none ∧ p.pushing = [] ∧
    ∀ i, (∃ f, p.workers i = .running f) ∨ p.workers i = .asleep ∨ p.workers i = .returned := by
  have hwork : ∀ i, p.work i = none := fun i => h (.work i) trivial
  have hm : p.mutex = none := by
    cases hm : p.mutex with
    | none => rfl
    | some i =>
      have hh := (hl i).1 hm
      have hi := hwork i
      unfold work at hi
      cases hw : p.workers i with
      | predicate | popFailed | notDone | leave =>
        rw [hw] at hi
        cases hi
      | pop | running | ran | lock | asleep | woken | returned =>
        rw [hw] at hh
        cases hh
  refine ⟨hm, ?_, fun i => ?_⟩
  · cases hp : p.pushing with
    | nil => rfl
    | cons f fs =>
      have hf : f ∈ p.pushing := hp ▸ List.mem_cons_self
      by_cases hs : ∀ i, p.workers i ≠ .asleep
      · have hn := h (.notify f none) trivial
        simp only [step, notify, hm, hf, and_self, if_true, hs, ne_eq, not_false_eq_true,
          implies_true] at hn
        cases hn
      · obtain ⟨i, hi⟩ := not_forall.1 hs
        have hn := h (.notify f (some i)) trivial
        simp only [step, notify, hm, hf, and_self, if_true, not_not.1 hi] at hn
        cases hn
  · have hi := hwork i
    unfold work at hi
    cases hw : p.workers i with
    | running f => exact .inl ⟨f, rfl⟩
    | asleep => exact .inr (.inl rfl)
    | returned => exact .inr (.inr rfl)
    | pop | ran | predicate | popFailed | notDone | leave =>
      rw [hw] at hi
      cases hi
    | lock | woken =>
      rw [hw] at hi
      simp only [hm, if_true] at hi
      cases hi

/-- **No lost wake-up.** Once no step of the pool is possible but the end of a task, the queue is
empty unless no thread sleeps. -/
theorem Settled.queue (hl : Locked p) (ha : Awake p) (h : Settled p) :
    p.q = [] ∨ ∀ i, p.workers i ≠ .asleep := by
  obtain ⟨-, hp, hw⟩ := h.workers hl
  by_cases hs : ∀ i, p.workers i ≠ .asleep
  · exact .inr hs
  · obtain ⟨i, hi⟩ := not_forall.1 hs
    have hle := ha.asleep i (not_not.1 hi)
    have hnone : tally Worker.searching p.workers = 0 := by
      rw [tally_eq_zero]
      intro j
      rcases hw j with ⟨f, hj⟩ | hj | hj
      all_goals rw [hj]
      all_goals rfl
    rw [hp, hnone] at hle
    exact .inl (List.length_eq_zero_iff.1 (Nat.le_zero.1 hle))

end

section
variable [Fintype ι] [DecidableEq τ] {p : ThreadPool ι τ} {es : List (PoolEvent ι τ)}

/-- The invariants hold in every state that a run reaches. -/
theorem run_invariants (h : Run step Any init es p) :
    Locked p ∧ Counted p ∧ Placed p ∧ Awake p := by
  have hstep : ∀ (p : ThreadPool ι τ) e p', Locked p ∧ Counted p ∧ Placed p ∧ Awake p →
      Any p e → p.step e = some p' → Locked p' ∧ Counted p' ∧ Placed p' ∧ Awake p' := by
    rintro p e p' ⟨hl, hc, ht, ha⟩ - hs
    have hs := step_cases hs
    exact ⟨hl.step hs, hc.step hs, ht.step hs, ha.step hl hs⟩
  refine h.inv hstep ⟨fun _ => ⟨nofun, nofun⟩, ?_, ⟨rfl, ?_⟩, .of_empty rfl⟩
  · show (0 : Int) = tally Worker.inWait _
    rw [show (init : ThreadPool ι τ).workers = fun _ => .pop from rfl, tally_const]
    simp [Worker.inWait]
  · show (0 : Multiset τ) = 0 + 0 + tally Worker.task _
    rw [show (init : ThreadPool ι τ).workers = fun _ => .pop from rfl, tally_const]
    simp [Worker.task]

end

end ThreadPool

end Micropayment
