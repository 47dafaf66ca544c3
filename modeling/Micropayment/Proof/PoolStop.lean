import Micropayment.Proof.Pool

/-!
# Stopping the thread pool

Before `stop` no thread returns, so `busy_or_empty`: a task waits in the queue only while every
thread runs a task. `Ending` is what the phases of `stop` know of the threads. With `isWait` a
thread gives up only after a `pop` that found nothing, so what `stop` deletes are tasks whose `push`
had not returned when it was called (`stop_runs`); and it hangs only as long as a task runs
(`stop_goes_on`).
-/

set_option autoImplicit false

namespace Micropayment

/-- `notify_all` is over. -/
def Stopping.notified : Stopping → Bool
  | joining | clearing | stopped => true
  | _ => false

/-- All threads are joined. -/
def Stopping.joined : Stopping → Bool
  | clearing | stopped => true
  | _ => false

/-- The last `pop` of the thread has found nothing, and it may return without another. -/
def Worker.gaveUp {τ : Type} : Worker τ → Bool
  | popFailed | notDone | leave none | returned => true
  | _ => false

namespace ThreadPool

variable {ι τ : Type}

structure Ending (p : ThreadPool ι τ) : Prop where
  fresh : p.stopping = .no → p.isDone = false ∧ (∀ i, p.flags i = false) ∧ p.deleted = [] ∧
    ∀ i, p.workers i ≠ .returned ∧ p.workers i ≠ .leave none
  commanding : p.stopping = .commanding → p.isDone = false
  told : p.stopping ≠ .no → p.stopping ≠ .commanding → p.isDone = true ∨ ∀ i, p.flags i = true
  unflagged : p.isDone = true → ∀ i, p.flags i = false
  awake : p.stopping.notified = true →
    ∀ i, p.workers i ≠ .asleep ∧ (p.workers i = .notDone → p.flags i = true)
  returned : p.stopping.joined = true → ∀ i, p.workers i = .returned
  kept : p.isDone = true → p.stopping.joined = false → p.deleted = []
  late : p.isDone = true → ∀ i, (p.workers i).gaveUp = true →
    (p.deleted + p.q : Multiset τ) ≤ p.late

section
variable {p : ThreadPool ι τ} {i : ι}

theorem Ending.gaveUp_fresh (h : Ending p) (hs : p.stopping = .no)
    (hg : (p.workers i).gaveUp = true) : (p.workers i).failed = true := by
  obtain ⟨hr, hl⟩ := (h.fresh hs).2.2.2 i
  cases hw : p.workers i with
  | popFailed | notDone => rfl
  | returned => exact absurd hw hr
  | leave f =>
    cases f with
    | none => exact absurd hw hl
    | some f => rw [hw] at hg; cases hg
  | pop | running | ran | lock | predicate | asleep | woken => rw [hw] at hg; cases hg

theorem Ending.stop [Fintype ι] (h : Ending p) (ha : Awake p) (hs : p.stopping = .no)
    (isWait : Bool) :
    Ending { p with
      isDone := isWait
      isStop := !isWait
      stopping := if isWait then .notifying else .commanding
      late := p.pushing } := by
  obtain ⟨-, hf, hdel, -⟩ := h.fresh hs
  cases isWait with
  | false =>
    exact ⟨nofun, fun _ => rfl, fun _ hc => absurd rfl hc, nofun, nofun, nofun, nofun, nofun⟩
  | true =>
    refine ⟨nofun, nofun, fun _ _ => .inl rfl, fun _ => hf, nofun, nofun, fun _ _ => hdel,
      fun _ i hg => ?_⟩
    show (p.deleted + p.q : Multiset τ) ≤ p.pushing
    rw [hdel]
    simpa using ha.failed i (h.gaveUp_fresh hs hg)

theorem Ending.notifyAll [DecidableEq τ] (h : Ending p) (hl : Locked p)
    (hs : p.stopping = .notifying) (hm : p.mutex = none) :
    Ending { p with
      workers := fun i => if p.workers i = .asleep then .woken else p.workers i
      stopping := .joining } := by
  have hgave : ∀ i, (if p.workers i = .asleep then Worker.woken else p.workers i).gaveUp = true →
      (p.workers i).gaveUp = true := by
    intro i hg
    split at hg
    · cases hg
    · exact hg
  refine ⟨nofun, nofun, fun _ _ => ?_, h.unflagged, fun _ i => ?_, nofun, fun hd _ => ?_,
    fun hd i hg => h.late hd i (hgave i hg)⟩
  · exact h.told (by rw [hs]; nofun) (by rw [hs]; nofun)
  · dsimp only
    by_cases hw : p.workers i = .asleep
    · rw [if_pos hw]
      exact ⟨nofun, nofun⟩
    · rw [if_neg hw]
      refine ⟨hw, fun hn => ?_⟩
      -- a thread that is about to fall asleep holds the mutex
      have hfree := hl.free hm i
      rw [hn] at hfree
      cases hfree
  · exact h.kept hd (by rw [hs]; rfl)

theorem Ending.drop (h : Ending p) {f : τ} {q : List τ}
    (hs : p.stopping = .commanding ∨ p.stopping = .clearing) (hq : p.q = f :: q) :
    Ending { p with q, popped := p.popped ++ [f], deleted := p.deleted ++ [f] } := by
  refine ⟨fun hno => ?_, h.commanding, h.told, h.unflagged, h.awake, h.returned, fun hd hj => ?_,
    fun hd i hg => ?_⟩
  · rcases hs with hs | hs
    all_goals
      rw [hs] at hno
      cases hno
  · rcases hs with hs | hs
    · exact absurd (hd.symm.trans (h.commanding hs)) nofun
    · rw [hs] at hj
      cases hj
  · refine le_of_eq_of_le ?_ (h.late hd i hg)
    show ((p.deleted ++ [f] : List τ) + (q : List τ) : Multiset τ) = p.deleted + p.q
    rw [hq, ← Multiset.cons_coe, ← Multiset.coe_add, ← Multiset.singleton_add]
    exact add_assoc _ _ _

end

section
variable [DecidableEq ι] {p p' : ThreadPool ι τ} {i : ι} {w : Worker τ}

/-- A thread that has not returned goes on. -/
theorem Ending.goto (h : Ending p) (h1 : p'.stopping = p.stopping) (h2 : p'.isDone = p.isDone)
    (h3 : p'.flags = p.flags) (h4 : p'.deleted = p.deleted) (h5 : p'.late = p.late)
    (hw : p'.workers = Function.update p.workers i w) (hq : (p'.q : Multiset τ) ≤ p.q)
    (hlive : p.workers i ≠ .returned)
    (hfresh : p.stopping = .no → w ≠ .returned ∧ w ≠ .leave none)
    (hawake : p.stopping.notified = true → w ≠ .asleep ∧ (w = .notDone → p.flags i = true))
    (hlate : p.isDone = true → w.gaveUp = true → (p.workers i).gaveUp = true ∨ p.q = []) :
    Ending p' := by
  have hjoined : p.stopping.joined = false := by
    cases hj : p.stopping.joined with
    | false => rfl
    | true => exact absurd (h.returned hj i) hlive
  refine ⟨?_, ?_, ?_, ?_, ?_, ?_, ?_, ?_⟩
  · rw [h1, h2, h3, h4, hw]
    intro hs
    obtain ⟨hd, hf, hdel, hr⟩ := h.fresh hs
    refine ⟨hd, hf, hdel, fun j => ?_⟩
    by_cases hj : j = i
    · rw [hj, Function.update_self]
      exact hfresh hs
    · rw [Function.update_of_ne hj]
      exact hr j
  · rw [h1, h2]
    exact h.commanding
  · rw [h1, h2, h3]
    exact h.told
  · rw [h2, h3]
    exact h.unflagged
  · rw [h1, h3, hw]
    intro hs j
    by_cases hj : j = i
    · rw [hj, Function.update_self]
      exact hawake hs
    · rw [Function.update_of_ne hj]
      exact h.awake hs j
  · rw [h1, hjoined]
    nofun
  · rw [h1, h2, h4]
    exact h.kept
  · rw [h2, h4, h5, hw]
    intro hd j hj
    refine le_trans (add_le_add_right hq _) ?_
    by_cases hji : j = i
    · rw [hji, Function.update_self] at hj
      rcases hlate hd hj with hg | hq
      · exact h.late hd i hg
      · rw [h.kept hd hjoined, hq]
        exact Multiset.zero_le _
    · rw [Function.update_of_ne hji] at hj
      exact h.late hd j hj

/-- A thread that neither gives up nor falls asleep. -/
theorem Ending.busy (h : Ending p) (h1 : p'.stopping = p.stopping) (h2 : p'.isDone = p.isDone)
    (h3 : p'.flags = p.flags) (h4 : p'.deleted = p.deleted) (h5 : p'.late = p.late)
    (hw : p'.workers = Function.update p.workers i w) (hq : (p'.q : Multiset τ) ≤ p.q)
    (hlive : p.workers i ≠ .returned) (ha : w ≠ .asleep) (hg : w.gaveUp = false) : Ending p' := by
  refine h.goto h1 h2 h3 h4 h5 hw hq hlive (fun _ => ?_) (fun _ => ⟨ha, ?_⟩) fun _ hgw => ?_
  · constructor
    all_goals
      rintro rfl
      cases hg
  · rintro rfl
    cases hg
  · rw [hg] at hgw
    cases hgw

theorem Ending.pops (h : Ending p) {f : τ} {q : List τ} (hq : p.q = f :: q)
    (hw : Pops f (p.workers i) w) :
    Ending { p.goto i w with q, popped := p.popped ++ [f] } := by
  have hle : (q : Multiset τ) ≤ p.q := by
    rw [hq]
    exact Multiset.le_cons_self _ _
  generalize hv : p.workers i = v at hw
  cases hw with
  | outside => exact h.busy rfl rfl rfl rfl rfl rfl hle (by rw [hv]; nofun) nofun rfl
  | inside => exact h.busy rfl rfl rfl rfl rfl rfl hle (by rw [hv]; nofun) nofun rfl

theorem Ending.misses (h : Ending p) (hq : p.q = []) (hw : Misses (p.workers i) w) :
    Ending (p.goto i w) := by
  generalize hv : p.workers i = v at hw
  cases hw with
  | outside => exact h.busy rfl rfl rfl rfl rfl rfl le_rfl (by rw [hv]; nofun) nofun rfl
  | inside =>
    exact h.goto rfl rfl rfl rfl rfl rfl le_rfl (by rw [hv]; nofun) (fun _ => ⟨nofun, nofun⟩)
      (fun _ => ⟨nofun, nofun⟩) fun _ _ => .inr hq

theorem Ending.moves (h : Ending p) (hw : Moves p i (p.workers i) w) : Ending (p.goto i w) := by
  generalize hv : p.workers i = v at hw
  have hlive : v ≠ .returned := by
    rintro rfl
    cases hw
  rw [← hv] at hlive
  -- a thread that is told to return knows that `stop` has been called
  have hflag : p.flags i = true → p.stopping ≠ .no ∧ p.isDone = false := by
    intro hf
    refine ⟨fun hs => ?_, ?_⟩
    · rw [(h.fresh hs).2.1 i] at hf
      cases hf
    · cases hd : p.isDone with
      | false => rfl
      | true => rw [h.unflagged hd i] at hf; cases hf
  cases hw with
  | flagged hf =>
    obtain ⟨hs, hd⟩ := hflag hf
    exact h.goto rfl rfl rfl rfl rfl rfl le_rfl hlive (fun hs' => absurd hs' hs)
      (fun _ => ⟨nofun, nofun⟩) fun hd' => absurd (hd.symm.trans hd') nofun
  | told hf =>
    obtain ⟨hs, hd⟩ := hflag hf
    exact h.goto rfl rfl rfl rfl rfl rfl le_rfl hlive (fun hs' => absurd hs' hs)
      (fun _ => ⟨nofun, nofun⟩) fun hd' => absurd (hd.symm.trans hd') nofun
  | next => exact h.busy rfl rfl rfl rfl rfl rfl le_rfl hlive nofun rfl
  | spurious => exact h.busy rfl rfl rfl rfl rfl rfl le_rfl hlive nofun rfl
  | done hd =>
    refine h.goto rfl rfl rfl rfl rfl rfl le_rfl hlive (fun hs => ?_) (fun _ => ⟨nofun, nofun⟩)
      fun _ _ => .inl (by rw [hv]; rfl)
    exact absurd (hd.symm.trans (h.fresh hs).1) nofun
  | notDone hd =>
    refine h.goto rfl rfl rfl rfl rfl rfl le_rfl hlive (fun _ => ⟨nofun, nofun⟩)
      (fun hs => ⟨nofun, fun _ => ?_⟩) fun hd' => absurd (hd.symm.trans hd') nofun
    have htold := h.told (by rintro he; rw [he] at hs; cases hs)
      (by rintro he; rw [he] at hs; cases hs)
    exact htold.resolve_left (by rw [hd]; nofun) i

theorem Ending.step [Fintype ι] [DecidableEq τ] {e : PoolEvent ι τ} (hl : Locked p)
    (ha : Awake p) (h : Ending p) (hs : Stepped p e p') : Ending p' := by
  cases hs with
  | enqueue f =>
    refine ⟨h.fresh, h.commanding, h.told, h.unflagged, h.awake, h.returned, h.kept,
      fun hd i hg => ?_⟩
    have hno : p.stopping ≠ .no := fun hs => absurd (hd.symm.trans (h.fresh hs).1) nofun
    show (p.deleted + (p.q ++ [f] : List τ) : Multiset τ) ≤
      ((if p.stopping = .no then [] else p.late ++ [f] : List τ) : Multiset τ)
    rw [if_neg hno, ← Multiset.coe_add, ← Multiset.coe_add, ← add_assoc]
    exact add_le_add_left (h.late hd i hg) _
  | notifyOne hm hf hi =>
    exact h.busy rfl rfl rfl rfl rfl rfl le_rfl (by rw [hi]; nofun) nofun rfl
  | notifyNobody =>
    exact ⟨h.fresh, h.commanding, h.told, h.unflagged, h.awake, h.returned, h.kept, h.late⟩
  | take hq hw => exact h.pops hq hw
  | miss hq hw => exact h.misses hq hw
  | move he hw => exact h.moves hw
  | lock hw hm => exact h.busy rfl rfl rfl rfl rfl rfl le_rfl (by rw [hw]; nofun) nofun rfl
  | relock hw hm => exact h.busy rfl rfl rfl rfl rfl rfl le_rfl (by rw [hw]; nofun) nofun rfl
  | @sleep i hw hf =>
    refine h.goto rfl rfl rfl rfl rfl rfl le_rfl (by rw [hw]; nofun) (fun _ => ⟨nofun, nofun⟩)
      (fun hs => ?_) nofun
    rw [(h.awake hs i).2 hw] at hf
    cases hf
  | start hw => exact h.busy rfl rfl rfl rfl rfl rfl le_rfl (by rw [hw]; nofun) nofun rfl
  | @quit i hw =>
    exact h.goto rfl rfl rfl rfl rfl rfl le_rfl (by rw [hw]; nofun)
      (fun hs => absurd hw ((h.fresh hs).2.2.2 i).2) (fun _ => ⟨nofun, nofun⟩)
      fun _ _ => .inl (by rw [hw]; rfl)
  | finish hw => exact h.busy rfl rfl rfl rfl rfl rfl le_rfl (by rw [hw]; nofun) nofun rfl
  | stop hs => exact h.stop ha hs _
  | @flag i hs hf =>
    have hd := h.commanding hs
    exact ⟨fun hno => absurd (hs.symm.trans hno) nofun, h.commanding,
      fun _ hc => absurd hs hc, fun hd' => absurd (hd.symm.trans hd') nofun,
      fun hn => absurd (hs ▸ hn) nofun, h.returned, h.kept, h.late⟩
  | drop hs hq => exact h.drop hs hq
  | commanded hs hf hq =>
    have hd := h.commanding hs
    exact ⟨nofun, nofun, fun _ _ => .inr hf, h.unflagged, nofun, nofun,
      fun hd' => absurd (hd.symm.trans hd') nofun, h.late⟩
  | cleared hs hq =>
    exact ⟨nofun, nofun, fun _ _ => h.told (by rw [hs]; nofun) (by rw [hs]; nofun), h.unflagged,
      fun _ => h.awake (by rw [hs]; rfl), fun _ => h.returned (by rw [hs]; rfl), nofun, h.late⟩
  | notifyAll hs hm => exact h.notifyAll hl hs hm
  | join hs hr =>
    exact ⟨nofun, nofun, fun _ _ => h.told (by rw [hs]; nofun) (by rw [hs]; nofun), h.unflagged,
      fun _ => h.awake (by rw [hs]; rfl), fun _ => hr, nofun, h.late⟩

end

section
variable [DecidableEq ι] [Fintype ι] [DecidableEq τ] {p : ThreadPool ι τ}
  {es : List (PoolEvent ι τ)}

theorem ending_run (h : Run step Any init es p) :
    (Locked p ∧ Counted p ∧ Placed p ∧ Awake p) ∧ Ending p := by
  have hstep : ∀ (p : ThreadPool ι τ) e p', (Locked p ∧ Awake p) ∧ Ending p → Any p e →
      p.step e = some p' → (Locked p' ∧ Awake p') ∧ Ending p' := by
    rintro p e p' ⟨⟨hl, ha⟩, he⟩ - hs
    have hs := step_cases hs
    exact ⟨⟨hl.step hs, ha.step hl hs⟩, he.step hl ha hs⟩
  have hinit : Ending (init : ThreadPool ι τ) :=
    ⟨fun _ => ⟨rfl, fun _ => rfl, rfl, fun _ => ⟨nofun, nofun⟩⟩, nofun, fun hno => absurd rfl hno,
      nofun, nofun, nofun, nofun, nofun⟩
  exact ⟨run_invariants h, (h.inv hstep ⟨⟨fun _ => ⟨nofun, nofun⟩, .of_empty rfl⟩, hinit⟩).2⟩

/-! ## Before `stop` -/

/-- At rest before `stop`, every thread runs a task or the queue is empty. -/
theorem Settled.busy (h : Settled p) (hl : Locked p) (ha : Awake p) (he : Ending p)
    (hno : p.stopping = .no) :
    p.pushing = [] ∧ (p.q = [] ∨ ∀ i, ∃ f, p.workers i = .running f) := by
  obtain ⟨-, hp, hw⟩ := h.workers hl
  refine ⟨hp, ?_⟩
  rcases h.queue hl ha with hq | hs
  · exact .inl hq
  · refine .inr fun i => ?_
    rcases hw i with hi | hi | hi
    · exact hi
    · exact absurd hi (hs i)
    · exact absurd hi ((he.fresh hno).2.2.2 i).1

/-- **A task waits only for threads that run tasks.** While `stop` has not been called, the pool's
own steps come to an end, and then the queue is empty or every thread runs a task. -/
theorem busy_or_empty (h : Run step Any init es p) (hno : p.stopping = .no) :
    (∀ es' p', Run step Own p es' p' → es'.length ≤ p.effort) ∧
    (Settled p → p.pushing = [] ∧ (p.q = [] ∨ ∀ i, ∃ f, p.workers i = .running f)) := by
  obtain ⟨⟨hl, -, -, ha⟩, he⟩ := ending_run h
  refine ⟨fun es' p' hrun => ?_, fun hset => hset.busy hl ha he hno⟩
  have hlen := hrun.length_le fun _ _ _ hg hs => effort_lt hg hs
  omega

/-- Every thread runs a task, and nothing is pushed. -/
theorem settled_of (hp : p.pushing = []) (hw : ∀ i, ∃ f, p.workers i = .running f) : Settled p := by
  intro e he
  cases e with
  | work i =>
    obtain ⟨f, hf⟩ := hw i
    simp [step, work, hf]
  | notify f wake => simp [step, notify, hp]
  | enqueue | finish | spurious | stop | flag | clear | notifyAll | join => cases he

/-- A pool of one thread, which runs the first of two tasks. -/
def oneBusy : List (PoolEvent (Fin 1) Nat) :=
  [.enqueue 7, .notify 7 none, .work 0, .enqueue 8, .notify 8 none]

theorem busy_or_empty_one : ∃ p : ThreadPool (Fin 1) Nat, Run step Any init oneBusy p ∧
    Settled p ∧ p.pushing = [] ∧ p.q = [8] ∧
      (p.q = [] ∨ ∀ i, ∃ f, p.workers i = .running f) := by
  have hend : (runAll step (init : ThreadPool (Fin 1) Nat) oneBusy).any (fun p =>
      p.stopping = .no ∧ p.q = [8] ∧ p.pushing = [] ∧ p.workers 0 = .running 7) = true := by
    decide +kernel
  obtain ⟨p, hp, he⟩ := (Option.any_eq_true _ _).1 hend
  obtain ⟨hno, hq, hpushing, hworker⟩ := of_decide_eq_true he
  have hset : Settled p := settled_of hpushing fun i => by
    rw [Fin.eq_zero i]
    exact ⟨7, hworker⟩
  obtain ⟨hnone, hrest⟩ := (busy_or_empty (Run.of_runAll hp) hno).2 hset
  exact ⟨p, Run.of_runAll hp, hset, hnone, hq, hrest⟩

/-- **Every task is in one place.** The tasks are taken from the queue in the order in which they
were pushed; every one that was taken is finished, deleted by `clear_queue` or held by exactly one
thread, and `nWaiting` counts the threads in `wait`. -/
theorem in_one_place (h : Run step Any init es p) : p.pushed = p.popped ++ p.q ∧
    (p.popped : Multiset τ) = p.finished + p.deleted + tally Worker.task p.workers ∧
    p.nWaiting = tally Worker.inWait p.workers := by
  obtain ⟨⟨-, hc, ht, -⟩, -⟩ := ending_run h
  exact ⟨ht.order, ht.places, hc⟩

/-- The first task is finished, the thread waits for the next one. -/
def oneWaits : List (PoolEvent (Fin 1) Nat) :=
  [.enqueue 7, .notify 7 none, .work 0, .finish 0] ++ List.replicate 6 (.work 0)

theorem in_one_place_one : ∃ p : ThreadPool (Fin 1) Nat, Run step Any init oneWaits p ∧
    p.workers 0 = .asleep ∧ p.pushed = p.popped ++ p.q ∧
      (p.popped : Multiset Nat) = p.finished + p.deleted + tally Worker.task p.workers ∧
      p.nWaiting = tally Worker.inWait p.workers := by
  have hend : (runAll step (init : ThreadPool (Fin 1) Nat) oneWaits).map (fun p => p.workers 0) =
      some .asleep := by
    decide +kernel
  obtain ⟨p, hp, he⟩ := Option.map_eq_some_iff.1 hend
  exact ⟨p, Run.of_runAll hp, he, in_one_place (Run.of_runAll hp)⟩

/-! ## `stop` -/

/-- What `stop` leaves behind. -/
structure Stopped (p : ThreadPool ι τ) : Prop where
  returned : ∀ i, p.workers i = .returned
  tasks : (p.pushed : Multiset τ) = p.finished + p.deleted + p.q
  late : p.isDone = true → Nonempty ι → (p.deleted + p.q : Multiset τ) ≤ p.late

/-- **`stop` runs the tasks it should**: all threads have returned, and with `isWait` the only tasks
that have not been run are those whose `push` had not returned when `stop` was called. -/
theorem stop_runs (h : Run step Any init es p) (hs : p.stopping = .stopped) : Stopped p := by
  obtain ⟨⟨-, -, ht, -⟩, he⟩ := ending_run h
  have hret := he.returned (by rw [hs]; rfl)
  refine ⟨hret, ?_, fun hd hne => ?_⟩
  · have hnone : tally Worker.task p.workers = 0 := by
      refine Finset.sum_eq_zero fun i _ => ?_
      rw [hret i]
      rfl
    rw [ht.order, ← Multiset.coe_add, ht.places, hnone, add_zero]
  · obtain ⟨i⟩ := hne
    exact he.late hd i (by rw [hret i]; rfl)

/-- `stop(true)` while a task waits: the thread runs it and then finds nothing. -/
def oneStopped : List (PoolEvent (Fin 1) Nat) :=
  [.enqueue 7, .notify 7 none, .stop true, .work 0, .notifyAll, .finish 0, .work 0, .work 0,
    .work 0, .work 0, .work 0, .work 0, .join, .clear]

theorem stop_runs_one : ∃ p : ThreadPool (Fin 1) Nat, Run step Any init oneStopped p ∧
    p.finished = [7] ∧ Stopped p := by
  have hend : (runAll step (init : ThreadPool (Fin 1) Nat) oneStopped).map
      (fun p => (p.stopping, p.finished)) = some (.stopped, [7]) := by decide +kernel
  obtain ⟨p, hp, he⟩ := Option.map_eq_some_iff.1 hend
  simp only [Prod.mk.injEq] at he
  exact ⟨p, Run.of_runAll hp, he.2, stop_runs (Run.of_runAll hp) he.1⟩

/-- The steps of the call of `stop`. -/
def ByStop : PoolEvent ι τ → Prop
  | .flag _ | .clear | .notifyAll | .join => True
  | _ => False

/-- **`stop` waits only for tasks**: until it returns, it or the pool can go on, or a thread runs a
task. -/
theorem stop_goes_on (h : Run step Any init es p) (hno : p.stopping ≠ .no)
    (hend : p.stopping ≠ .stopped) :
    (∃ e, (Own p e ∨ ByStop e) ∧ (p.step e).isSome = true) ∨ ∃ i f, p.workers i = .running f := by
  obtain ⟨⟨hl, -, -, -⟩, he⟩ := ending_run h
  by_cases hset : Settled p
  · obtain ⟨hm, -, hw⟩ := hset.workers hl
    cases hs : p.stopping with
    | no => exact absurd hs hno
    | stopped => exact absurd hs hend
    | commanding =>
      by_cases hf : ∀ i, p.flags i = true
      · refine .inl ⟨.clear, .inr trivial, ?_⟩
        simp [step, hs, hf]
      · obtain ⟨i, hi⟩ := not_forall.1 hf
        refine .inl ⟨.flag i, .inr trivial, ?_⟩
        simp [step, hs, hi]
    | notifying =>
      refine .inl ⟨.notifyAll, .inr trivial, ?_⟩
      simp [step, hs, hm]
    | joining =>
      by_cases hr : ∀ i, p.workers i = .returned
      · refine .inl ⟨.join, .inr trivial, ?_⟩
        simp [step, hs, hr]
      · obtain ⟨i, hi⟩ := not_forall.1 hr
        rcases hw i with ⟨f, hf⟩ | ha | hret
        · exact .inr ⟨i, f, hf⟩
        · exact absurd ha (he.awake (by rw [hs]; rfl) i).1
        · exact absurd hret hi
    | clearing =>
      refine .inl ⟨.clear, .inr trivial, ?_⟩
      simp [step, hs]
  · obtain ⟨e, he⟩ := not_forall.1 hset
    obtain ⟨hown, hsome⟩ := Classical.not_imp.1 he
    exact .inl ⟨e, .inl hown, Option.isSome_iff_ne_none.2 hsome⟩

/-- `stop(true)` while the thread sleeps. -/
theorem stop_goes_on_asleep : ∃ p : ThreadPool (Fin 1) Nat,
    Run step Any init [.work 0, .work 0, .work 0, .work 0, .work 0, .stop true] p ∧
      p.workers 0 = .asleep ∧ ((∃ e, (Own p e ∨ ByStop e) ∧ (p.step e).isSome = true) ∨
        ∃ i f, p.workers i = .running f) := by
  have hend : (runAll step (init : ThreadPool (Fin 1) Nat)
      [.work 0, .work 0, .work 0, .work 0, .work 0, .stop true]).map
      (fun p => (p.stopping, p.workers 0)) = some (.notifying, .asleep) := by decide +kernel
  obtain ⟨p, hp, he⟩ := Option.map_eq_some_iff.1 hend
  simp only [Prod.mk.injEq] at he
  exact ⟨p, Run.of_runAll hp, he.2, stop_goes_on (Run.of_runAll hp) (by rw [he.1]; nofun)
    (by rw [he.1]; nofun)⟩

end

end ThreadPool

end Micropayment
