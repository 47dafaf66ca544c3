import Micropayment.Listener
import Micropayment.Proof.PoolStop
import Micropayment.Proof.Session

/-!
# Who is served

Each live connection has a thread of its own (`Serves`), so no more are served than there are
threads, and an accepted connection waits only while every thread serves one (`served_or_waiting`).
The counters that `main` prints tell how many wait; calls that end by an exception make it report
waiting where there is none.
-/

set_option autoImplicit false

namespace Micropayment

/-! ## Tasks under the steps of the pool -/

namespace ThreadPool

variable {ι τ : Type} {p p' : ThreadPool ι τ} {e : PoolEvent ι τ}

/-- The steps of the pool that neither begin nor end a task. -/
def Internal : PoolEvent ι τ → Prop
  | .notify _ _ | .work _ | .spurious _ => True
  | _ => False

/-- A thread that runs a task goes on running it. -/
theorem Internal.running [DecidableEq ι] [DecidableEq τ] (hi : Internal e) (hs : Stepped p e p')
    {j : ι} {f : τ} (hj : p.workers j = .running f) : p'.workers j = .running f := by
  have hgoto : ∀ {i : ι} {w : Worker τ}, (∀ g, p.workers i ≠ .running g) →
      Function.update p.workers i w j = .running f := by
    intro i w hne
    have hji : j ≠ i := fun he => hne f (he ▸ hj)
    rw [Function.update_of_ne hji]
    exact hj
  cases hs with
  | notifyOne hm hf hw => exact hgoto fun g hr => by rw [hw] at hr; cases hr
  | notifyNobody => exact hj
  | take hq hw | miss hq hw => exact hgoto fun g hr => by rw [hr] at hw; cases hw
  | move he hw => exact hgoto fun g hr => by rw [hr] at hw; cases hw
  | lock hw | relock hw | sleep hw | start hw | quit hw =>
    exact hgoto fun g hr => by rw [hw] at hr; cases hr
  | enqueue | finish | stop | flag | drop | commanded | cleared | notifyAll | join => cases hi

theorem Internal.pushing [DecidableEq ι] [DecidableEq τ] (hi : Internal e) (hs : Stepped p e p') :
    p'.pushing.length ≤ p.pushing.length := by
  cases hs with
  | notifyOne | notifyNobody => exact List.length_erase_le
  | take | miss | move | lock | relock | sleep | start | quit => exact le_rfl
  | enqueue | finish | stop | flag | drop | commanded | cleared | notifyAll | join => cases hi

/-- Every step but the call of `stop`. -/
def NoStop (_ : ThreadPool ι τ) : PoolEvent ι τ → Prop
  | .stop _ => False
  | _ => True

section
variable [Fintype ι]

/-- The tasks that are in the queue or held by a thread. -/
def tasks (p : ThreadPool ι τ) : Multiset τ := p.q + tally Worker.task p.workers

theorem mem_tasks {f : τ} : f ∈ p.tasks ↔ f ∈ p.q ∨ ∃ i, f ∈ (p.workers i).task := by
  simp [tasks, tally, Multiset.mem_sum]

theorem Placed.tasks_eq (h : Placed p) :
    (p.pushed : Multiset τ) = p.finished + p.deleted + p.tasks := by
  rw [h.order, ← Multiset.coe_add, h.places, tasks]
  abel

variable [DecidableEq ι]

theorem Internal.tasks [DecidableEq τ] (hi : Internal e) (h : Placed p) (hs : Stepped p e p') :
    p'.tasks = p.tasks := by
  have hpushed : p'.pushed = p.pushed ∧ p'.finished = p.finished ∧ p'.deleted = p.deleted := by
    cases hs with
    | notifyOne | notifyNobody | take | miss | move | lock | relock | sleep | start | quit =>
      exact ⟨rfl, rfl, rfl⟩
    | enqueue | finish | stop | flag | drop | commanded | cleared | notifyAll | join => cases hi
  have hbefore := h.tasks_eq
  have hafter := (h.step hs).tasks_eq
  rw [hpushed.1, hpushed.2.1, hpushed.2.2, hbefore] at hafter
  exact (add_left_cancel hafter).symm

theorem run_unstopped [DecidableEq τ] {es : List (PoolEvent ι τ)}
    (h : Run step NoStop init es p) : p.stopping = .no := by
  have hstep : ∀ (p : ThreadPool ι τ) e p', p.stopping = .no → NoStop p e →
      p.step e = some p' → p'.stopping = .no := by
    intro p e p' hno hg hs
    cases step_cases hs with
    | enqueue | notifyOne | notifyNobody | take | miss | move | lock | relock | sleep | start |
      quit | finish => exact hno
    | stop => exact hg.elim
    | flag hc | commanded hc | cleared hc | notifyAll hc | join hc =>
      rw [hno] at hc
      cases hc
    | drop hc =>
      rw [hno] at hc
      rcases hc with hc | hc
      all_goals cases hc
  exact h.inv hstep rfl

/-- The end of a task takes it from the tasks. -/
theorem tasks_finish {i : ι} {f : τ} (hw : p.workers i = .running f) :
    ({ p.goto i .ran with finished := p.finished ++ [f] } : ThreadPool ι τ).tasks + {f} =
      p.tasks := by
  have ht := tally_update Worker.task p.workers i .ran
  rw [hw] at ht
  have hran : (Worker.ran : Worker τ).task = 0 := rfl
  have hrunning : (Worker.running f).task = {f} := rfl
  rw [hran, hrunning, add_zero] at ht
  show (p.q : Multiset τ) + tally _ (Function.update p.workers i .ran) + {f} = p.tasks
  rw [add_assoc, ht]
  rfl

theorem effort_finish {i : ι} [DecidableEq τ] (h : p.step (.finish i) = some p') :
    p'.effort = p.effort + 7 := by
  simp only [step] at h
  split at h
  · rename_i f hw
    obtain rfl := Option.some.inj h
    have ht := tally_update Worker.effort p.workers i .ran
    rw [hw] at ht
    simp only [Worker.effort] at ht
    show 6 * p.pushing.length + tally Worker.effort (Function.update p.workers i .ran) =
      6 * p.pushing.length + tally Worker.effort p.workers + 7
    omega
  · cases h

/-- No two threads run one task. -/
theorem running_one (h : p.tasks.Nodup) {i j : ι} {f : τ} (hi : p.workers i = .running f)
    (hj : p.workers j = .running f) : j = i := by
  by_contra hne
  rw [← tasks_finish hi, Multiset.nodup_add] at h
  apply Multiset.disjoint_left.1 h.2.2 ?_ (Multiset.mem_singleton_self f)
  apply mem_tasks.2
  refine .inr ⟨j, ?_⟩
  show f ∈ (Function.update p.workers i .ran j).task
  rw [Function.update_of_ne hne, hj]
  exact Multiset.mem_singleton_self f

end

end ThreadPool

/-! ## Connections under the steps of the server -/

/-- What a message on a connection, or its end, does to the live connections. -/
theorem Server.step_conns {s s' : Server} {c : Conn} {a : Action} (hc : c ∈ s.conns.rows)
    (ha : a = .hangup c.id ∨ ∃ buffer resume, a = .message c.id buffer resume)
    (h : s.step a = some s') :
    s'.conns = s.conns.erase c.id ∨ ∃ u, s'.conns = s.conns.update { c with username := u } := by
  rcases ha with rfl | ⟨buffer, resume, rfl⟩
  · rw [step_hangup hc] at h
    obtain rfl := Option.some.inj h
    exact .inl rfl
  · rw [step_message hc] at h
    obtain rfl := Option.some.inj h
    unfold iteration
    dsimp only
    split
    · exact .inl rfl
    · unfold after
      dsimp only
      split
      · exact .inr ⟨_, rfl⟩
      · exact .inl rfl

theorem Serving.loop_of_connection {s : Serving} {id : Nat} (h : s.connection = some id) :
    s = .loop id := by
  cases s with
  | loop id' =>
    cases h
    rfl
  | no | leaving => cases h

namespace Listener

variable {ι : Type}

/-- The thread is in the loop of `process_request`. -/
def inLoop : Serving → Nat
  | .loop _ => 1
  | .no | .leaving => 0

section
variable [Fintype ι]

/-- Every live connection has a thread of its own, which runs its task, and the counters count. -/
structure Serves (l : Listener ι) : Prop where
  placed : l.pool.Placed
  pushing : l.pool.pushing.length ≤ 1
  sessions : Sessions l.server
  begun : ∀ i id, l.serving i = .loop id →
    ∃ c, l.server.conns.find? id = some c ∧ l.pool.workers i = .running c.endpoint
  leaving : ∀ i, l.serving i = .leaving → ∃ f, l.pool.workers i = .running f
  served : ∀ c ∈ l.server.conns.rows, ∃ i, l.serving i = .loop c.id
  tasks : l.pool.tasks.Nodup
  calls : l.server.conns.rows.length = tally inLoop l.serving
  current : l.currentUser = l.server.conns.rows.length + l.lost
  tmp : l.tmpCurrentUser = l.pool.tasks.card + l.lost

variable {l l' : Listener ι} {i : ι}

/-- The connection of the call is live after the iteration: the loop goes on. -/
theorem Serves.goesOn (h : Serves l) {c : Conn} {server : Server} {u : Str}
    (hsess : Sessions server) (hs : server.conns = l.server.conns.update { c with username := u })
    (hc : c ∈ l.server.conns.rows) : Serves { l with server } := by
  have hlen : server.conns.rows.length = l.server.conns.rows.length := by
    rw [hs]
    exact List.length_map _
  refine ⟨h.placed, h.pushing, hsess, fun j id hj => ?_, h.leaving, fun d hd => ?_, h.tasks,
    hlen ▸ h.calls, ?_, h.tmp⟩
  · obtain ⟨d, hd, hw⟩ := h.begun j id hj
    dsimp only
    rw [hs, Keyed.find?_update]
    by_cases hid : c.id = id
    · rw [if_pos hid, hd]
      subst hid
      rw [Keyed.find?_of_mem hc] at hd
      cases hd
      exact ⟨_, rfl, hw⟩
    · rw [if_neg hid]
      exact ⟨d, hd, hw⟩
  · dsimp only at hd
    rw [hs] at hd
    rcases Keyed.mem_update hd with rfl | ⟨hd, -⟩
    · exact h.served c hc
    · exact h.served d hd
  · dsimp only
    rw [hlen]
    exact h.current

/-- The connections that are accepted and not in their loop. -/
def waiting (l : Listener ι) : Multiset (Str × Int) :=
  l.pool.tasks - (l.server.conns.rows.map Conn.endpoint : List (Str × Int))

/-- The live connections are tasks that threads hold. -/
theorem Serves.endpoints_le (h : Serves l) :
    ((l.server.conns.rows.map Conn.endpoint : List (Str × Int)) : Multiset (Str × Int)) ≤
      tally Worker.task l.pool.workers := by
  have hnodup : (l.server.conns.rows.map Conn.endpoint).Nodup := by
    apply (List.nodup_map_iff_inj_on (List.Nodup.of_map _ l.server.conns.nodup)).2
    exact h.sessions.endpoints
  rw [Multiset.le_iff_subset (Multiset.coe_nodup.2 hnodup)]
  intro f hf
  obtain ⟨c, hc, rfl⟩ := List.mem_map.1 (Multiset.mem_coe.1 hf)
  obtain ⟨j, hj⟩ := h.served c hc
  obtain ⟨d, hd, hw⟩ := h.begun j c.id hj
  rw [Keyed.find?_of_mem hc] at hd
  cases hd
  apply Multiset.mem_sum.2
  refine ⟨j, Finset.mem_univ j, ?_⟩
  rw [hw]
  exact Multiset.mem_singleton_self _

/-- The counters tell how many wait. -/
theorem Serves.waiting_card (h : Serves l) :
    l.tmpCurrentUser - l.currentUser = l.waiting.card := by
  have hle := h.endpoints_le.trans (Multiset.le_add_left _ (l.pool.q : Multiset (Str × Int)))
  have hcard := Multiset.card_le_card hle
  have hsub := Multiset.card_sub hle
  have htmp := h.tmp
  have hcurrent := h.current
  rw [Multiset.coe_card, List.length_map] at hcard hsub
  unfold waiting ThreadPool.tasks
  unfold ThreadPool.tasks at htmp
  omega

variable [DecidableEq ι]

theorem Serves.init (t : Table) : Serves (Listener.init t : Listener ι) where
  placed := (ThreadPool.run_invariants (.nil _)).2.2.1
  pushing := Nat.zero_le _
  sessions := .init t
  begun _ _ h := by cases h
  leaving _ h := by cases h
  served _ h := absurd h List.not_mem_nil
  tasks := by
    show ((0 : Multiset (Str × Int)) + tally Worker.task fun _ : ι => Worker.pop).Nodup
    rw [tally_const]
    simp [Worker.task]
  calls := by
    show 0 = tally inLoop fun _ : ι => .no
    rw [tally_const]
    simp [inLoop]
  current := rfl
  tmp := by
    show (0 : Int) =
      ((0 : Multiset (Str × Int)) + tally Worker.task fun _ : ι => Worker.pop).card + 0
    rw [tally_const]
    simp [Worker.task]

/-- No two threads serve one connection. -/
theorem Serves.one (h : Serves l) {j : ι} {id : Nat} (hi : l.serving i = .loop id)
    (hj : l.serving j = .loop id) : j = i := by
  obtain ⟨c, hc, hwi⟩ := h.begun i id hi
  obtain ⟨d, hd, hwj⟩ := h.begun j id hj
  rw [hc] at hd
  cases hd
  exact ThreadPool.running_one h.tasks hwi hwj

/-- A new task. -/
theorem Serves.enqueue (h : Serves l) {f : Str × Int} (hf : f ∉ l.pool.tasks)
    (hidle : l.pool.pushing = [])
    {pool : ThreadPool ι (Str × Int)} (hs : l.pool.step (.enqueue f) = some pool) :
    Serves { l with pool, tmpCurrentUser := l.tmpCurrentUser + 1 } := by
  have hst := ThreadPool.step_cases hs
  obtain rfl := Option.some.inj hs
  have htasks : f ::ₘ l.pool.tasks = ((l.pool.q ++ [f] : List (Str × Int)) : Multiset (Str × Int)) +
      tally Worker.task l.pool.workers := by
    rw [← Multiset.coe_add, add_right_comm, add_comm, Multiset.coe_singleton,
      Multiset.singleton_add]
    rfl
  refine ⟨h.placed.step hst, ?_, h.sessions, h.begun, h.leaving, h.served, ?_, h.calls, h.current,
    ?_⟩
  · show (l.pool.pushing ++ [f]).length ≤ 1
    rw [hidle]
    exact le_rfl
  · show Multiset.Nodup (_ + _)
    rw [← htasks]
    exact Multiset.nodup_cons.2 ⟨hf, h.tasks⟩
  · show l.tmpCurrentUser + 1 = ((_ + _ : Multiset (Str × Int)).card : Int) + l.lost
    rw [← htasks, Multiset.card_cons, h.tmp]
    push_cast
    omega

/-- A step of the pool between two tasks. -/
theorem Serves.internal (h : Serves l) {e : PoolEvent ι (Str × Int)}
    {pool : ThreadPool ι (Str × Int)} (he : ThreadPool.Internal e)
    (hs : l.pool.step e = some pool) : Serves { l with pool } := by
  have hst := ThreadPool.step_cases hs
  have htasks := he.tasks h.placed hst
  refine ⟨h.placed.step hst, (he.pushing hst).trans h.pushing, h.sessions, fun j id hj => ?_,
    fun j hj => ?_, h.served, ?_, h.calls, h.current, ?_⟩
  · obtain ⟨c, hc, hw⟩ := h.begun j id hj
    exact ⟨c, hc, he.running hst hw⟩
  · exact (h.leaving j hj).imp fun _ hw => he.running hst hw
  · rw [htasks]
    exact h.tasks
  · rw [htasks]
    exact h.tmp

/-- A call of `process_request` gets to its loop. -/
theorem Serves.start (h : Serves l) {f : Str × Int} {server : Server}
    (hw : l.pool.workers i = .running f) (hi : l.serving i = .no)
    (hs : l.server.step (.accept f.1 f.2) = some server) :
    Serves { l with
      server
      serving := Function.update l.serving i (.loop l.server.accepted)
      currentUser := l.currentUser + 1 } := by
  have hsess := h.sessions.step hs
  obtain rfl := Server.step_accept hs
  have hnew : l.server.conns.find? l.server.accepted = none := by
    rw [Keyed.find?_eq_none]
    intro c hc
    exact Nat.ne_of_lt (h.sessions.fresh c hc)
  have hlen : (l.server.accepting f.1 f.2).conns.rows.length = l.server.conns.rows.length + 1 := by
    unfold Server.accepting
    rw [Keyed.rows_replace_new hnew, List.length_append]
    rfl
  have hcalls := tally_update inLoop l.serving i (.loop l.server.accepted)
  rw [hi] at hcalls
  simp only [inLoop, add_zero] at hcalls
  refine ⟨h.placed, h.pushing, hsess, fun j id hj => ?_, fun j hj => ?_, fun c hc => ?_, h.tasks,
    ?_, ?_, h.tmp⟩
  · dsimp only at hj ⊢
    by_cases hji : j = i
    · rw [hji, Function.update_self] at hj
      cases hj
      refine ⟨⟨l.server.accepted, f.1, f.2, []⟩, ?_, hji ▸ hw⟩
      unfold Server.accepting
      rw [Keyed.find?_replace, if_pos rfl]
    · rw [Function.update_of_ne hji] at hj
      obtain ⟨c, hc, hwj⟩ := h.begun j id hj
      refine ⟨c, ?_, hwj⟩
      unfold Server.accepting
      rw [Keyed.find?_replace, if_neg ?_]
      · exact hc
      · rintro rfl
        rw [hnew] at hc
        cases hc
  · dsimp only at hj
    by_cases hji : j = i
    · exact ⟨f, hji ▸ hw⟩
    · rw [Function.update_of_ne hji] at hj
      exact h.leaving j hj
  · rcases Keyed.mem_replace.1 hc with rfl | ⟨hc, -⟩
    · exact ⟨i, Function.update_self ..⟩
    · obtain ⟨j, hj⟩ := h.served c hc
      refine ⟨j, ?_⟩
      dsimp only
      rw [Function.update_of_ne fun hji => ?_]
      · exact hj
      · rw [hji, hi] at hj
        cases hj
  · rw [hlen, h.calls]
    exact hcalls.symm
  · show l.currentUser + 1 = _
    rw [hlen, h.current]
    push_cast
    omega

/-- The call of thread `i` is no longer in its loop, as its connection is gone; the thread still
runs its task. -/
theorem Serves.outOfLoop (h : Serves l) {c : Conn} {server : Server}
    (hi : l.serving i = .loop c.id) (hsess : Sessions server)
    (hs : server.conns = l.server.conns.erase c.id) (hc : c ∈ l.server.conns.rows) :
    Serves { l with
      server
      serving := Function.update l.serving i .leaving
      currentUser := l.currentUser - 1 } := by
  have hfind := Keyed.find?_of_mem hc
  obtain ⟨d, -, hw⟩ := h.begun i c.id hi
  have hlen := Keyed.length_erase hfind
  have hcalls := tally_update inLoop l.serving i .leaving
  rw [hi] at hcalls
  simp only [inLoop, add_zero] at hcalls
  have hcurrent := h.current
  have hbefore := h.calls
  refine ⟨h.placed, h.pushing, hsess, fun j id hj => ?_, fun j hj => ?_, fun e he => ?_, h.tasks,
    ?_, ?_, h.tmp⟩
  · dsimp only at hj ⊢
    have hji : j ≠ i := by
      rintro rfl
      rw [Function.update_self] at hj
      cases hj
    rw [Function.update_of_ne hji] at hj
    obtain ⟨e, he, hwj⟩ := h.begun j id hj
    refine ⟨e, ?_, hwj⟩
    rw [hs, Keyed.find?_erase, if_neg ?_]
    · exact he
    · rintro rfl
      exact hji (h.one hi hj)
  · dsimp only at hj
    by_cases hji : j = i
    · exact ⟨_, hji ▸ hw⟩
    · rw [Function.update_of_ne hji] at hj
      exact h.leaving j hj
  · dsimp only at he ⊢
    rw [hs, Keyed.mem_erase] at he
    obtain ⟨j, hj⟩ := h.served e he.1
    refine ⟨j, ?_⟩
    rw [Function.update_of_ne fun hji => ?_]
    · exact hj
    · rw [hji, hi] at hj
      exact he.2 (Serving.loop.inj hj).symm
  · dsimp only
    rw [hs]
    omega
  · dsimp only
    rw [hs]
    omega

/-- The call of thread `i` returns, with the counters as they are then. -/
theorem Serves.returned (h : Serves l) (hi : l.serving i = .leaving)
    {pool : ThreadPool ι (Str × Int)} (hp : l.pool.step (.finish i) = some pool)
    {currentUser tmpCurrentUser : Int} {lost : Nat}
    (hcur : currentUser - lost = l.currentUser - l.lost)
    (htmp : tmpCurrentUser - lost + 1 = l.tmpCurrentUser - l.lost) :
    Serves ⟨pool, l.server, Function.update l.serving i .no, currentUser, tmpCurrentUser,
      lost⟩ := by
  have hst := ThreadPool.step_cases hp
  obtain ⟨f, hw⟩ := h.leaving i hi
  have hpool : pool = { l.pool.goto i .ran with finished := l.pool.finished ++ [f] } := by
    simp only [ThreadPool.step, hw] at hp
    exact (Option.some.inj hp).symm
  have htasks : pool.tasks + {f} = l.pool.tasks := by
    rw [hpool]
    exact ThreadPool.tasks_finish hw
  have hcard := congrArg Multiset.card htasks
  rw [Multiset.card_add, Multiset.card_singleton] at hcard
  have hcalls : tally inLoop (Function.update l.serving i .no) = tally inLoop l.serving :=
    tally_update_eq inLoop (by rw [hi]; rfl)
  have hother : ∀ {j x}, x ≠ .no → Function.update l.serving i .no j = x →
      j ≠ i ∧ l.serving j = x := by
    intro j x hx hj
    have hji : j ≠ i := by
      rintro rfl
      rw [Function.update_self] at hj
      exact hx hj.symm
    rw [Function.update_of_ne hji] at hj
    exact ⟨hji, hj⟩
  have hrunning : ∀ {j g}, j ≠ i → l.pool.workers j = .running g →
      pool.workers j = .running g := by
    intro j g hji hwj
    rw [hpool]
    show Function.update l.pool.workers i .ran j = _
    rw [Function.update_of_ne hji]
    exact hwj
  have hcurrent := h.current
  have htotal := h.tmp
  refine ⟨h.placed.step hst, hpool ▸ h.pushing, h.sessions, fun j id hj => ?_, fun j hj => ?_,
    fun c hc => ?_, ?_, ?_, ?_, ?_⟩
  · obtain ⟨hji, hj⟩ := hother (by simp) hj
    obtain ⟨c, hc, hwj⟩ := h.begun j id hj
    exact ⟨c, hc, hrunning hji hwj⟩
  · obtain ⟨hji, hj⟩ := hother (by simp) hj
    exact (h.leaving j hj).imp fun _ => hrunning hji
  · obtain ⟨j, hj⟩ := h.served c hc
    refine ⟨j, ?_⟩
    dsimp only
    rw [Function.update_of_ne fun hji => ?_]
    · exact hj
    · rw [hji, hi] at hj
      cases hj
  · have hnodup := h.tasks
    rw [← htasks, Multiset.nodup_add] at hnodup
    exact hnodup.1
  · rw [hcalls]
    exact h.calls
  · dsimp only
    omega
  · dsimp only
    omega

/-- An iteration of the call of thread `i`. -/
theorem Serves.iterate (h : Serves l) {id : Nat} (hi : l.serving i = .loop id) {a : Action}
    (ha : a = .hangup id ∨ ∃ buffer resume, a = .message id buffer resume) {server : Server}
    (hs : l.server.step a = some server) {ended : Bool}
    (hg : l.goOn i id ended server = some l') : Serves l' := by
  obtain ⟨c, hc, -⟩ := h.begun i id hi
  obtain rfl := Keyed.find?_key hc
  have hmem := Keyed.find?_mem hc
  have hsess := h.sessions.step hs
  unfold goOn at hg
  rcases Server.step_conns hmem ha hs with he | ⟨u, hu⟩
  · have hgone : server.conns.find? c.id = none := by
      rw [he, Keyed.find?_erase, if_pos rfl]
    have hout := h.outOfLoop hi hsess he hmem
    rw [hgone] at hg
    cases ended with
    | true =>
      obtain rfl := Option.some.inj hg
      exact hout
    | false =>
      -- as if it had left the loop, with the counters as they were
      obtain ⟨pool, hp, rfl⟩ := Option.map_eq_some_iff.1 hg
      have hret : Serves ⟨pool, server,
          Function.update (Function.update l.serving i .leaving) i .no, l.currentUser,
          l.tmpCurrentUser, l.lost + 1⟩ :=
        hout.returned (Function.update_self ..) hp (by dsimp only; omega) (by dsimp only; omega)
      rw [Function.update_idem] at hret
      exact hret
  · have hlive : (server.conns.find? c.id).isSome = true := by
      rw [hu, Keyed.find?_update, if_pos rfl, hc]
      rfl
    rw [if_pos hlive] at hg
    obtain rfl := Option.some.inj hg
    exact h.goesOn hsess hu hmem

theorem Serves.step (h : Serves l) {e : Arrival ι} (hs : l.step e = some l') : Serves l' := by
  cases e with
  | accept clientip clientport =>
    obtain ⟨⟨hidle, hq, hw⟩, hs⟩ := Option.ite_none_right_eq_some.1 hs
    obtain ⟨pool, hp, rfl⟩ := Option.map_eq_some_iff.1 hs
    apply h.enqueue _ hidle hp
    rw [ThreadPool.mem_tasks]
    rintro (hf | ⟨i, hf⟩)
    · exact hq hf
    · exact hw i hf
  | notify wake =>
    obtain ⟨f, -, hs⟩ := Option.bind_eq_some_iff.1 hs
    obtain ⟨pool, hp, rfl⟩ := Option.map_eq_some_iff.1 hs
    exact h.internal (e := .notify f wake) trivial hp
  | work i =>
    obtain ⟨pool, hp, rfl⟩ := Option.map_eq_some_iff.1 hs
    exact h.internal (e := .work i) trivial hp
  | spurious i =>
    obtain ⟨pool, hp, rfl⟩ := Option.map_eq_some_iff.1 hs
    exact h.internal (e := .spurious i) trivial hp
  | start i =>
    simp only [Listener.step] at hs
    split at hs
    · rename_i f hw hi
      obtain ⟨server, ha, rfl⟩ := Option.map_eq_some_iff.1 hs
      exact h.start hw hi ha
    · cases hs
  | message i buffer resume =>
    obtain ⟨id, hi, hs⟩ := Option.bind_eq_some_iff.1 hs
    obtain ⟨server, hs, hg⟩ := Option.bind_eq_some_iff.1 hs
    exact h.iterate (Serving.loop_of_connection hi) (.inr ⟨buffer, resume, rfl⟩) hs hg
  | hangup i =>
    obtain ⟨id, hi, hs⟩ := Option.bind_eq_some_iff.1 hs
    obtain ⟨server, hs, hg⟩ := Option.bind_eq_some_iff.1 hs
    exact h.iterate (Serving.loop_of_connection hi) (.inl rfl) hs hg
  | leave i =>
    obtain ⟨hi, hs⟩ := Option.ite_none_right_eq_some.1 hs
    obtain ⟨pool, hp, rfl⟩ := Option.map_eq_some_iff.1 hs
    exact h.returned hi hp (by omega) (by omega)

theorem serves_run {t : Table} {es : List (Arrival ι)}
    (h : Run step Any (Listener.init t) es l) : Serves l :=
  h.inv (fun _ _ _ hi _ hs => hi.step hs) (.init t)

/-! ## The parts of the process -/

/-- The step of the server that a step of the process is, if it is one. -/
def action (l : Listener ι) : Arrival ι → Option Action
  | .start i =>
    match l.pool.workers i with
    | .running f => some (.accept f.1 f.2)
    | _ => none
  | .message i buffer resume =>
    (l.serving i).connection.map fun id => .message id buffer resume
  | .hangup i => (l.serving i).connection.map .hangup
  | .accept _ _ | .notify _ | .work _ | .spurious _ | .leave _ => none

theorem step_server {e : Arrival ι} (h : l.step e = some l') :
    (l.action e = none ∧ l'.server = l.server) ∨
      ∃ a, l.action e = some a ∧ l.server.step a = some l'.server := by
  have hgo : ∀ {i id ended server}, l.goOn i id ended server = some l' → l'.server = server := by
    intro i id ended server hg
    unfold goOn at hg
    split at hg
    · cases hg
      rfl
    · split at hg
      · cases hg
        rfl
      · obtain ⟨pool, -, rfl⟩ := Option.map_eq_some_iff.1 hg
        rfl
  cases e with
  | accept clientip clientport =>
    obtain ⟨-, h⟩ := Option.ite_none_right_eq_some.1 h
    obtain ⟨pool, -, rfl⟩ := Option.map_eq_some_iff.1 h
    exact .inl ⟨rfl, rfl⟩
  | notify wake =>
    obtain ⟨f, -, h⟩ := Option.bind_eq_some_iff.1 h
    obtain ⟨pool, -, rfl⟩ := Option.map_eq_some_iff.1 h
    exact .inl ⟨rfl, rfl⟩
  | work i | spurious i =>
    obtain ⟨pool, -, rfl⟩ := Option.map_eq_some_iff.1 h
    exact .inl ⟨rfl, rfl⟩
  | start i =>
    simp only [step] at h
    split at h
    · rename_i hw hi
      obtain ⟨server, ha, rfl⟩ := Option.map_eq_some_iff.1 h
      exact .inr ⟨_, by simp [action, hw], ha⟩
    · cases h
  | message i buffer resume =>
    obtain ⟨id, hi, h⟩ := Option.bind_eq_some_iff.1 h
    obtain ⟨server, ha, hg⟩ := Option.bind_eq_some_iff.1 h
    exact .inr ⟨_, by simp [action, hi], hgo hg ▸ ha⟩
  | hangup i =>
    obtain ⟨id, hi, h⟩ := Option.bind_eq_some_iff.1 h
    obtain ⟨server, ha, hg⟩ := Option.bind_eq_some_iff.1 h
    exact .inr ⟨_, by simp [action, hi], hgo hg ▸ ha⟩
  | leave i =>
    obtain ⟨-, h⟩ := Option.ite_none_right_eq_some.1 h
    obtain ⟨pool, -, rfl⟩ := Option.map_eq_some_iff.1 h
    exact .inl ⟨rfl, rfl⟩

theorem step_pool {e : Arrival ι} (h : l.step e = some l') :
    l'.pool = l.pool ∨ ∃ b, ThreadPool.NoStop l.pool b ∧ l.pool.step b = some l'.pool := by
  have hgo : ∀ {i id ended server}, l.goOn i id ended server = some l' →
      l'.pool = l.pool ∨ ∃ b, ThreadPool.NoStop l.pool b ∧ l.pool.step b = some l'.pool := by
    intro i id ended server hg
    unfold goOn at hg
    split at hg
    · cases hg
      exact .inl rfl
    · split at hg
      · cases hg
        exact .inl rfl
      · obtain ⟨pool, hp, rfl⟩ := Option.map_eq_some_iff.1 hg
        exact .inr ⟨.finish i, trivial, hp⟩
  cases e with
  | accept clientip clientport =>
    obtain ⟨-, h⟩ := Option.ite_none_right_eq_some.1 h
    obtain ⟨pool, hp, rfl⟩ := Option.map_eq_some_iff.1 h
    exact .inr ⟨.enqueue (clientip, clientport), trivial, hp⟩
  | notify wake =>
    obtain ⟨f, -, h⟩ := Option.bind_eq_some_iff.1 h
    obtain ⟨pool, hp, rfl⟩ := Option.map_eq_some_iff.1 h
    exact .inr ⟨.notify f wake, trivial, hp⟩
  | work i =>
    obtain ⟨pool, hp, rfl⟩ := Option.map_eq_some_iff.1 h
    exact .inr ⟨.work i, trivial, hp⟩
  | spurious i =>
    obtain ⟨pool, hp, rfl⟩ := Option.map_eq_some_iff.1 h
    exact .inr ⟨.spurious i, trivial, hp⟩
  | start i =>
    simp only [step] at h
    split at h
    · obtain ⟨server, -, rfl⟩ := Option.map_eq_some_iff.1 h
      exact .inl rfl
    · cases h
  | message i buffer resume | hangup i =>
    obtain ⟨id, -, h⟩ := Option.bind_eq_some_iff.1 h
    obtain ⟨server, -, hg⟩ := Option.bind_eq_some_iff.1 h
    exact hgo hg
  | leave i =>
    obtain ⟨-, h⟩ := Option.ite_none_right_eq_some.1 h
    obtain ⟨pool, hp, rfl⟩ := Option.map_eq_some_iff.1 h
    exact .inr ⟨.finish i, trivial, hp⟩

/-- What the process does to its pool. -/
theorem run_pool {es : List (Arrival ι)} (h : Run step Any l es l') :
    ∃ bs, Run ThreadPool.step ThreadPool.NoStop l.pool bs l'.pool :=
  h.project Listener.pool fun _ _ _ _ hs => step_pool hs

/-- A thread that has taken a connection can enter the loop: no live connection is in its way. -/
theorem Serves.can_start (h : Serves l) {f : Str × Int} (hw : l.pool.workers i = .running f)
    (hi : l.serving i = .no) : (l.step (.start i)).isSome = true := by
  have hfree : (l.server.conns.rows.any fun c => c.endpoint = (f.1, f.2)) = false := by
    rw [List.any_eq_false]
    intro c hc he
    obtain ⟨j, hj⟩ := h.served c hc
    obtain ⟨d, hd, hwj⟩ := h.begun j c.id hj
    rw [Keyed.find?_of_mem hc] at hd
    cases hd
    rw [decide_eq_true_eq] at he
    rw [he] at hwj
    rw [ThreadPool.running_one h.tasks hw hwj, hi] at hj
    cases hj
  simp only [Listener.step, hw, hi, Server.step, hfree, Bool.false_eq_true, if_false,
    Option.map_some, Option.isSome_some]

/-- A call that has left its loop can return. -/
theorem Serves.can_leave (h : Serves l) (hi : l.serving i = .leaving) :
    (l.step (.leave i)).isSome = true := by
  obtain ⟨f, hw⟩ := h.leaving i hi
  simp only [Listener.step, ThreadPool.step, hi, hw, if_true, Option.map_some, Option.isSome_some]

/-- A process of one thread, which serves one of two connections. -/
def oneServed : List (Arrival Unit) :=
  [.accept "1".toList 5, .notify none, .work (), .start (), .accept "2".toList 6, .notify none]

/-! ## Waiting -/

/-- The steps that need nothing from outside: those of the pool, and the beginnings and ends of
calls. -/
def Own (_ : Listener ι) : Arrival ι → Prop
  | .notify _ | .work _ | .start _ | .leave _ => True
  | _ => False

def Quiet (l : Listener ι) : Prop := ∀ e, Own l e → l.step e = none

theorem Quiet.settled (hq : Quiet l) (h : Serves l) : l.pool.Settled := by
  intro e he
  cases e with
  | work i => simpa [Listener.step] using hq (.work i) trivial
  | notify f wake =>
    by_cases hf : f ∈ l.pool.pushing
    · have hone : l.pool.pushing = [f] := by
        obtain ⟨g, hg⟩ := List.length_eq_one_iff.1
          (le_antisymm h.pushing (List.length_pos_of_mem hf))
        rw [hg] at hf ⊢
        rw [List.mem_singleton.1 hf]
      have hn := hq (.notify wake) trivial
      simpa [Listener.step, hone] using hn
    · simp [ThreadPool.step, ThreadPool.notify, hf]
  | enqueue | finish | spurious | stop | flag | clear | notifyAll | join => cases he

/-- Nothing is pushed, and every thread is in a loop. -/
theorem quiet_of (hpushing : l.pool.pushing = [])
    (hall : ∀ i, ∃ f id, l.pool.workers i = .running f ∧ l.serving i = .loop id) : Quiet l := by
  intro e he
  cases e with
  | notify wake => simp [Listener.step, hpushing]
  | work i =>
    obtain ⟨f, id, hw, -⟩ := hall i
    simp [Listener.step, ThreadPool.step, ThreadPool.work, hw]
  | start i =>
    obtain ⟨f, id, hw, hi⟩ := hall i
    simp [Listener.step, hw, hi]
  | leave i =>
    obtain ⟨f, id, hw, hi⟩ := hall i
    simp [Listener.step, hi]
  | accept | spurious | message | hangup => cases he

/-- Then every thread that has a task is in its loop. -/
theorem Quiet.workers (hq : Quiet l) (h : Serves l) (hl : l.pool.Locked) (i : ι) :
    (l.pool.workers i).task.card = inLoop (l.serving i) := by
  obtain ⟨-, -, hw⟩ := (hq.settled h).workers hl
  cases hi : l.serving i with
  | loop id =>
    obtain ⟨c, -, hwi⟩ := h.begun i id hi
    rw [hwi]
    rfl
  | leaving =>
    have hleave := h.can_leave hi
    rw [hq (.leave i) trivial] at hleave
    cases hleave
  | no =>
    rcases hw i with ⟨f, hf⟩ | hs | hr
    · have hstart := h.can_start hf hi
      rw [hq (.start i) trivial] at hstart
      cases hstart
    · rw [hs]
      rfl
    · rw [hr]
      rfl

/-- All tasks that threads hold are live connections, so the others are in the queue. -/
theorem Quiet.waiting_eq (hq : Quiet l) (h : Serves l) (hl : l.pool.Locked) :
    l.waiting = l.pool.q := by
  have hsum : (tally Worker.task l.pool.workers).card = tally inLoop l.serving := by
    unfold tally
    rw [Multiset.card_sum]
    exact Finset.sum_congr rfl fun i _ => hq.workers h hl i
  have heq := Multiset.eq_of_le_of_card_le h.endpoints_le
    (by rw [hsum, Multiset.coe_card, List.length_map, h.calls])
  unfold waiting ThreadPool.tasks
  rw [heq]
  exact Multiset.add_sub_cancel_right

/-- A call that has left its loop has its thread look for the next one. -/
def callEffort : Serving → Nat
  | .no => 1
  | .loop _ => 0
  | .leaving => 9

/-- A bound for the process's own steps. -/
def effort (l : Listener ι) : Nat := l.pool.effort + tally callEffort l.serving

theorem effort_lt {e : Arrival ι} (hg : Own l e) (hs : l.step e = some l') :
    l'.effort < l.effort := by
  unfold effort
  cases e with
  | notify wake =>
    obtain ⟨f, -, hs⟩ := Option.bind_eq_some_iff.1 hs
    obtain ⟨pool, hp, rfl⟩ := Option.map_eq_some_iff.1 hs
    have hlt := ThreadPool.effort_lt (e := .notify f wake) trivial hp
    dsimp only
    omega
  | work i =>
    obtain ⟨pool, hp, rfl⟩ := Option.map_eq_some_iff.1 hs
    have hlt := ThreadPool.effort_lt (e := .work i) trivial hp
    dsimp only
    omega
  | start i =>
    simp only [step] at hs
    split at hs
    · rename_i f hw hi
      obtain ⟨server, ha, rfl⟩ := Option.map_eq_some_iff.1 hs
      have hcalls := tally_update callEffort l.serving i (.loop l.server.accepted)
      rw [hi] at hcalls
      simp only [callEffort] at hcalls
      dsimp only
      omega
    · cases hs
  | leave i =>
    obtain ⟨hi, hs⟩ := Option.ite_none_right_eq_some.1 hs
    obtain ⟨pool, hp, rfl⟩ := Option.map_eq_some_iff.1 hs
    have hpool := ThreadPool.effort_finish hp
    have hcalls := tally_update callEffort l.serving i .no
    rw [hi] at hcalls
    simp only [callEffort] at hcalls
    dsimp only
    omega
  | accept | spurious | message | hangup => cases hg

/-- Every thread serves a live connection of its own. -/
def Busy (l : Listener ι) : Prop :=
  ∃ conn : ι → Conn, Function.Injective conn ∧
    ∀ i, conn i ∈ l.server.conns.rows ∧ l.serving i = .loop (conn i).id

theorem Serves.busy (h : Serves l) (hall : ∀ i, inLoop (l.serving i) = 1) : l.Busy := by
  have hconn : ∀ i, ∃ c ∈ l.server.conns.rows, l.serving i = .loop c.id := by
    intro i
    cases hi : l.serving i with
    | loop id =>
      obtain ⟨c, hc, -⟩ := h.begun i id hi
      exact ⟨c, Keyed.find?_mem hc, by rw [Keyed.find?_key hc]⟩
    | no | leaving =>
      have hone := hall i
      rw [hi] at hone
      cases hone
  choose conn hmem hserving using hconn
  refine ⟨conn, fun i j hij => ?_, fun i => ⟨hmem i, hserving i⟩⟩
  exact (h.one (hserving i) (hij ▸ hserving j)).symm

/-- At rest every accepted connection is served, or every thread serves one. -/
theorem Quiet.rest {t : Table} {es : List (Arrival ι)} (hq : Quiet l)
    (h : Run step Any (Listener.init t) es l) : l.waiting = l.pool.q ∧
      (l.pool.q = [] ∨ l.server.conns.rows.length = Fintype.card ι ∧ l.Busy) := by
  have hinv := serves_run h
  obtain ⟨bs, hpool⟩ := run_pool h
  have hany : Run ThreadPool.step Any ThreadPool.init bs l.pool :=
    hpool.mono fun _ _ _ => trivial
  obtain ⟨⟨hl, -, -, ha⟩, he⟩ := ThreadPool.ending_run hany
  refine ⟨hq.waiting_eq hinv hl, ?_⟩
  have hbusy := (hq.settled hinv).busy hl ha he (ThreadPool.run_unstopped hpool)
  rcases hbusy.2 with hq' | hall
  · exact .inl hq'
  · have hone : ∀ i, inLoop (l.serving i) = 1 := by
      intro i
      obtain ⟨f, hf⟩ := hall i
      rw [← hq.workers hinv hl i, hf]
      rfl
    exact .inr ⟨by rw [hinv.calls]; simp [tally, hone], hinv.busy hone⟩

/-- **An accepted connection waits only for those that are served.** The process comes to rest by
itself; then either every accepted connection is served, or every thread serves one of its own. -/
theorem served_or_waiting {t : Table} {es : List (Arrival ι)}
    (h : Run step Any (Listener.init t) es l) :
    (∀ es' l', Run step Own l es' l' → es'.length ≤ l.effort) ∧
      (Quiet l → l.waiting = l.pool.q ∧
        (l.pool.q = [] ∨ l.server.conns.rows.length = Fintype.card ι ∧ l.Busy)) := by
  refine ⟨fun es' l' hrun => ?_, fun hq => hq.rest h⟩
  have hlen := hrun.length_le fun _ _ _ hg hs => effort_lt hg hs
  omega

theorem oneServed_quiet : ∃ l : Listener Unit,
    runAll step (Listener.init Keyed.empty) oneServed = some l ∧ Quiet l ∧
      l.pool.q = [("2".toList, 6)] := by
  have hend : (runAll step (Listener.init Keyed.empty : Listener Unit) oneServed).any (fun l =>
      l.pool.q = [("2".toList, 6)] ∧ l.pool.pushing = [] ∧
        l.pool.workers () = .running ("1".toList, 5) ∧ l.serving () = .loop 0) = true := by
    decide +kernel
  obtain ⟨l, hl, he⟩ := (Option.any_eq_true _ _).1 hend
  obtain ⟨hqueue, hpushing, hworker, hserving⟩ := of_decide_eq_true he
  exact ⟨l, hl, quiet_of hpushing fun _ => ⟨_, _, hworker, hserving⟩, hqueue⟩

theorem served_or_waiting_one : ∃ l : Listener Unit,
    Run step Any (Listener.init Keyed.empty) oneServed l ∧ Quiet l ∧
      l.waiting = {("2".toList, 6)} ∧ l.Busy := by
  obtain ⟨l, hl, hquiet, hqueue⟩ := oneServed_quiet
  obtain ⟨hwait, hrest⟩ := (served_or_waiting (Run.of_runAll hl)).2 hquiet
  rw [hqueue] at hwait hrest
  exact ⟨l, Run.of_runAll hl, hquiet, hwait, (hrest.resolve_left (by simp)).2⟩

/-! ## What `main` prints -/

/-- **The printed numbers**: the difference is the number of connections that wait, the new one
included. Before the new one everything was at rest; then the line is printed if and only if the
served connections and the lost calls are as many as the threads. -/
theorem accept_report {t : Table} {es : List (Arrival ι)}
    (h : Run step Any (Listener.init t) es l) {clientip : Str} {clientport : Int}
    (hs : l.step (.accept clientip clientport) = some l') :
    l'.tmpCurrentUser - l'.currentUser = l'.waiting.card ∧
      (Quiet l → ((Fintype.card ι : Int) < l'.tmpCurrentUser ↔
        Fintype.card ι ≤ l.server.conns.rows.length + l.lost)) := by
  have hinv := serves_run h
  refine ⟨(hinv.step hs).waiting_card, fun hq => ?_⟩
  obtain ⟨hw, hrest⟩ := hq.rest h
  have htmp : l'.tmpCurrentUser = l.tmpCurrentUser + 1 := by
    obtain ⟨-, hs⟩ := Option.ite_none_right_eq_some.1 hs
    obtain ⟨pool, -, rfl⟩ := Option.map_eq_some_iff.1 hs
    rfl
  have hwait := hinv.waiting_card
  have hcurrent := hinv.current
  rw [hw, Multiset.coe_card] at hwait
  rcases hrest with hnil | ⟨hall, -⟩
  · rw [hnil, List.length_nil] at hwait
    omega
  · omega

theorem accept_report_one : ∃ l l' : Listener Unit,
    Run step Any (Listener.init Keyed.empty) oneServed l ∧ Quiet l ∧
      l.step (.accept "3".toList 7) = some l' ∧
      l'.tmpCurrentUser - l'.currentUser = l'.waiting.card ∧
      ((1 : Int) < l'.tmpCurrentUser ↔ 1 ≤ l.server.conns.rows.length + l.lost) := by
  have hend : ((runAll step (Listener.init Keyed.empty : Listener Unit) oneServed).bind
      fun l => l.step (.accept "3".toList 7)).isSome = true := by decide +kernel
  obtain ⟨l, hl, hquiet, -⟩ := oneServed_quiet
  rw [hl] at hend
  obtain ⟨l', hs⟩ := Option.isSome_iff_exists.1 hend
  obtain ⟨hdiff, hline⟩ := accept_report (Run.of_runAll hl) hs
  exact ⟨l, l', Run.of_runAll hl, hquiet, hs, hdiff, hline hquiet⟩

/-! ## No threads -/

/-- **A thread limit of 0**: every connection is accepted, and none is ever served. -/
theorem limit_zero {argv : List Str} {n : Nat} (hlim : (options argv n).limit = 0) {t : Table}
    {es : List (Arrival (Fin (options argv n).limit.toNat))}
    {l : Listener (Fin (options argv n).limit.toNat)}
    (h : Run step Any (Listener.init t) es l) :
    l.server = Server.init t ∧ l.pool.q = l.pool.pushed := by
  have hempty : IsEmpty (Fin (options argv n).limit.toNat) := by
    rw [hlim]
    exact Fin.isEmpty'
  have hstep : ∀ (l : Listener (Fin (options argv n).limit.toNat)) e l',
      l.server = Server.init t ∧ l.pool.popped = [] → Any l e → l.step e = some l' →
        l'.server = Server.init t ∧ l'.pool.popped = [] := by
    rintro l e l' ⟨he, hp⟩ - hs
    cases e with
    | accept clientip clientport =>
      obtain ⟨-, hs⟩ := Option.ite_none_right_eq_some.1 hs
      obtain ⟨pool, hpool, rfl⟩ := Option.map_eq_some_iff.1 hs
      obtain rfl := Option.some.inj hpool
      exact ⟨he, hp⟩
    | notify wake =>
      obtain ⟨f, -, hs⟩ := Option.bind_eq_some_iff.1 hs
      obtain ⟨pool, hpool, rfl⟩ := Option.map_eq_some_iff.1 hs
      cases ThreadPool.step_cases hpool with
      | notifyOne | notifyNobody => exact ⟨he, hp⟩
      | move hm => rcases hm with hm | hm <;> cases hm
    | work i | spurious i | start i | message i | hangup i | leave i => exact hempty.elim i
  obtain ⟨hserver, hpopped⟩ := h.inv hstep ⟨rfl, rfl⟩
  have horder := (serves_run h).placed.order
  rw [hpopped, List.nil_append] at horder
  exact ⟨hserver, horder.symm⟩

/-- `./server 8000 all` -/
theorem limit_zero_all : ∃ l : Listener (Fin
      (options ["./server".toList, "8000".toList, "all".toList] 8).limit.toNat),
    Run step Any (Listener.init Keyed.empty) [.accept "1".toList 5, .notify none] l ∧
      l.server = Server.init Keyed.empty ∧ l.pool.q = l.pool.pushed := by
  have hlim : (options ["./server".toList, "8000".toList, "all".toList] 8).limit = 0 := by
    decide +kernel
  have hend : (runAll step (Listener.init Keyed.empty : Listener (Fin
      (options ["./server".toList, "8000".toList, "all".toList] 8).limit.toNat))
      [.accept "1".toList 5, .notify none]).isSome = true := by decide +kernel
  obtain ⟨l, hl⟩ := Option.isSome_iff_exists.1 hend
  exact ⟨l, Run.of_runAll hl, limit_zero hlim (Run.of_runAll hl)⟩

end

end Listener

end Micropayment
