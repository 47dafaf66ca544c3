import Micropayment.Lib.Keyed
import Micropayment.Lib.Run

/-!
# Programs over a one-table store, alone and interleaved

`Prog ρ α`: a call as its sequence of statements on a table of rows `ρ`, with result `α`; what it
does next may depend on the rows it has read. `Prog.run` is the call running alone. `Config` is any
number of calls (threads, indexed by `ι`) sharing one table, and `Config.exec c i` lets thread `i`
execute its next statement, so a schedule is a list of thread indices (`Run Config.exec`).

`Config` also records what each thread has read (`seen`) and all rows written (`writes`); no
program can see these. `Prog.Obeys W` is a contract on every write a program can ever make, given
what it has read; threads keep their contracts in every run (`Config.Obeyed.exec`).
-/

set_option autoImplicit false

inductive Prog (ρ α : Type) where
  | ret (a : α)
  | getAll (p : ρ → Bool) (k : List ρ → Prog ρ α)
  | update (r : ρ) (k : Prog ρ α)
  | replace (r : ρ) (k : Prog ρ α)

namespace Prog

variable {ρ κ α : Type} {key : ρ → κ} [DecidableEq κ]

/-- The call running alone: its result and the table it leaves. -/
def run : Prog ρ α → Keyed key → α × Keyed key
  | ret a, t => (a, t)
  | getAll p k, t => (k (t.getAll p)).run t
  | update r k, t => k.run (t.update r)
  | replace r k, t => k.run (t.replace r)

/-- The table left behind when statement number `n` (from 0) of the call fails: it changes nothing
and throws, so nothing after it runs. `none` if the call returns before it issues that statement. -/
def failAt : Prog ρ α → Nat → Keyed key → Option (Keyed key)
  | ret _, _, _ => none
  | getAll _ _, 0, t => some t
  | update _ _, 0, t => some t
  | replace _ _, 0, t => some t
  | getAll p k, n + 1, t => (k (t.getAll p)).failAt n t
  | update r k, n + 1, t => k.failAt n (t.update r)
  | replace r k, n + 1, t => k.failAt n (t.replace r)

/-- Every write the program can make, having read the rows `seen`, is allowed by `W`. -/
def Obeys (W : List ρ → ρ → Prop) : List ρ → Prog ρ α → Prop
  | _, ret _ => True
  | seen, getAll p k => ∀ l : List ρ, (∀ r ∈ l, p r = true) → (k l).Obeys W (seen ++ l)
  | seen, update r k => W seen r ∧ k.Obeys W seen
  | seen, replace r k => W seen r ∧ k.Obeys W seen

/-- Up to its first write the program only reads: it returns an `a` with `R a`, or writes an `r`
and goes on as a `k` with `W seen r k`. -/
def FirstWrite (R : α → Prop) (W : List ρ → ρ → Prog ρ α → Prop) : List ρ → Prog ρ α → Prop
  | _, ret a => R a
  | seen, getAll p k => ∀ l : List ρ, (∀ r ∈ l, p r = true) → (k l).FirstWrite R W (seen ++ l)
  | seen, update r k => W seen r k
  | _, replace _ _ => False

/-- The program writes once, an `r` with `U seen r` in an `UPDATE` or with `R seen r` in a
`REPLACE`, and then returns `b`, or it writes nothing and returns something else. -/
def WritesOnce (b : α) (U R : List ρ → ρ → Prop) : List ρ → Prog ρ α → Prop
  | _, ret a => a ≠ b
  | seen, getAll p k => ∀ l : List ρ, (∀ r ∈ l, p r = true) → (k l).WritesOnce b U R (seen ++ l)
  | seen, update r k => U seen r ∧ k = ret b
  | seen, replace r k => R seen r ∧ k = ret b

/-- The result, once the program has returned. -/
def result? : Prog ρ α → Option α
  | ret a => some a
  | _ => none

/-- The row that the next statement writes. -/
def nextWrite : Prog ρ α → Option ρ
  | update r _ => some r
  | replace r _ => some r
  | _ => none

/-- A contract may be weakened. -/
theorem Obeys.mono {W W' : List ρ → ρ → Prop} (hW : ∀ seen r, W seen r → W' seen r)
    {p : Prog ρ α} {seen : List ρ} (h : p.Obeys W seen) : p.Obeys W' seen := by
  induction p generalizing seen with
  | ret a => trivial
  | getAll q k ih => exact fun l hl => ih l (h l hl)
  | update r k ih => exact ⟨hW _ _ h.1, ih h.2⟩
  | replace r k ih => exact ⟨hW _ _ h.1, ih h.2⟩

theorem of_result? {p : Prog ρ α} {a : α} (h : p.result? = some a) : p = .ret a := by
  cases p with
  | ret b => cases h; rfl
  | getAll | update | replace => cases h

theorem mem_nextWrite {p k : Prog ρ α} {r : ρ} (h : p = .update r k ∨ p = .replace r k) :
    r ∈ p.nextWrite := by
  rcases h with rfl | rfl <;> rfl

end Prog

structure Thread (ρ α : Type) where
  prog : Prog ρ α
  seen : List ρ

structure Config (ι : Type) {ρ κ : Type} (key : ρ → κ) (α : Type) where
  table : Keyed key
  thread : ι → Thread ρ α
  writes : List (ι × ρ)

namespace Config

variable {ι ρ κ α : Type} {key : ρ → κ}

/-- All threads before their first statement. -/
def init (t : Keyed key) (progs : ι → Prog ρ α) : Config ι key α :=
  ⟨t, fun i => ⟨progs i, []⟩, []⟩

def Done (c : Config ι key α) : Prop := ∀ i, ∃ a, (c.thread i).prog = .ret a

/-- Every thread still keeps to its contract. -/
def Obeyed (W : ι → List ρ → ρ → Prop) (c : Config ι key α) : Prop :=
  ∀ i, (c.thread i).prog.Obeys (W i) (c.thread i).seen

/-- The write a thread is about to make is within its contract. -/
theorem Obeyed.write {W : ι → List ρ → ρ → Prop} {c : Config ι key α} {i : ι} {r : ρ}
    (h : Obeyed W c) (hr : r ∈ (c.thread i).prog.nextWrite) : W i (c.thread i).seen r := by
  have hi := h i
  cases hp : (c.thread i).prog with
  | ret | getAll => rw [hp] at hr; cases hr
  | update r' k => rw [hp] at hr hi; cases hr; exact hi.1
  | replace r' k => rw [hp] at hr hi; cases hr; exact hi.1

/-- Thread `i` has not written yet, or it has, and has returned `b`. -/
def Once (b : α) (U R : List ρ → ρ → Prop) (c : Config ι key α) (i : ι) : Prop :=
  (i ∉ c.writes.map Prod.fst ∧ (c.thread i).prog.WritesOnce b U R (c.thread i).seen) ∨
  (i ∈ c.writes.map Prod.fst ∧ (c.thread i).prog = .ret b)

/-- It has returned `b` exactly if it has written. -/
theorem Once.ret_iff {b : α} {U R : List ρ → ρ → Prop} {c : Config ι key α} {i : ι}
    (h : Once b U R c i) : (c.thread i).prog = .ret b ↔ i ∈ c.writes.map Prod.fst := by
  rcases h with ⟨hw, ho⟩ | ⟨hw, hret⟩
  · refine ⟨fun hret => ?_, fun hm => absurd hm hw⟩
    rw [hret] at ho
    exact absurd rfl ho
  · exact ⟨fun _ => hw, fun _ => hret⟩

variable [DecidableEq ι]

/-- Thread `i` becomes `th`. -/
def setThread (c : Config ι key α) (i : ι) (th : Thread ρ α) : Config ι key α :=
  { c with thread := Function.update c.thread i th }

/-- Thread `i` has just written `r`, which left the table `t`, and goes on with `k`. -/
def wrote (c : Config ι key α) (i : ι) (r : ρ) (t : Keyed key) (k : Prog ρ α) :
    Config ι key α where
  table := t
  thread := Function.update c.thread i ⟨k, (c.thread i).seen⟩
  writes := c.writes ++ [(i, r)]

section
variable {c : Config ι key α} {i : ι}

@[simp] theorem setThread_self (th : Thread ρ α) : (c.setThread i th).thread i = th := by
  simp [setThread]
theorem setThread_other {j : ι} (th : Thread ρ α) (h : j ≠ i) :
    (c.setThread i th).thread j = c.thread j := by
  simp [setThread, h]

@[simp] theorem wrote_table (r : ρ) (t : Keyed key) (k : Prog ρ α) :
    (c.wrote i r t k).table = t := rfl
@[simp] theorem wrote_writes (r : ρ) (t : Keyed key) (k : Prog ρ α) :
    (c.wrote i r t k).writes = c.writes ++ [(i, r)] := rfl
@[simp] theorem wrote_self (r : ρ) (t : Keyed key) (k : Prog ρ α) :
    (c.wrote i r t k).thread i = ⟨k, (c.thread i).seen⟩ := by
  simp [wrote]
theorem wrote_other {j : ι} (r : ρ) (t : Keyed key) (k : Prog ρ α) (h : j ≠ i) :
    (c.wrote i r t k).thread j = c.thread j := by
  simp [wrote, h]

/-- After a read a thread has seen nothing but what it had seen and what it read. -/
theorem mem_seen_setThread {p : Prog ρ α} {l : List ρ} {j : ι} {r : ρ}
    (h : r ∈ ((c.setThread i ⟨p, (c.thread i).seen ++ l⟩).thread j).seen) :
    r ∈ (c.thread j).seen ∨ r ∈ l := by
  by_cases hji : j = i
  · subst hji
    rw [setThread_self] at h
    exact List.mem_append.1 h
  · rw [setThread_other _ hji] at h
    exact .inl h

/-- A write shows no thread anything. -/
@[simp] theorem wrote_seen (r : ρ) (t : Keyed key) (k : Prog ρ α) (j : ι) :
    ((c.wrote i r t k).thread j).seen = (c.thread j).seen := by
  by_cases hji : j = i
  · rw [hji, wrote_self]
  · rw [wrote_other _ _ _ hji]

end

variable [DecidableEq κ]

/-- The next statement of thread `i`; `none` if it has returned. -/
def exec (c : Config ι key α) (i : ι) : Option (Config ι key α) :=
  match (c.thread i).prog with
  | .ret _ => none
  | .getAll p k =>
    some (c.setThread i ⟨k (c.table.getAll p), (c.thread i).seen ++ c.table.getAll p⟩)
  | .update r k => some (c.wrote i r (c.table.update r) k)
  | .replace r k => some (c.wrote i r (c.table.replace r) k)

/-! ## What one statement does -/

section
variable {c c' : Config ι key α} {i : ι}

theorem exec_cases (h : c.exec i = some c') :
    (∃ p k, (c.thread i).prog = .getAll p k ∧
      c' = c.setThread i ⟨k (c.table.getAll p), (c.thread i).seen ++ c.table.getAll p⟩) ∨
    (∃ r k, (c.thread i).prog = .update r k ∧ c' = c.wrote i r (c.table.update r) k) ∨
    (∃ r k, (c.thread i).prog = .replace r k ∧ c' = c.wrote i r (c.table.replace r) k) := by
  unfold exec at h
  cases hp : (c.thread i).prog with
  | ret a => rw [hp] at h; cases h
  | getAll p k => rw [hp] at h; cases h; exact .inl ⟨p, k, rfl, rfl⟩
  | update r k => rw [hp] at h; cases h; exact .inr (.inl ⟨r, k, rfl, rfl⟩)
  | replace r k => rw [hp] at h; cases h; exact .inr (.inr ⟨r, k, rfl, rfl⟩)

/-- A statement reads or writes. -/
theorem exec_read_or_write (h : c.exec i = some c') :
    (∃ p, ∃ k : List ρ → Prog ρ α,
      c' = c.setThread i ⟨k (c.table.getAll p), (c.thread i).seen ++ c.table.getAll p⟩) ∨
    (∃ w t k, w ∈ (c.thread i).prog.nextWrite ∧ (t = c.table.update w ∨ t = c.table.replace w) ∧
      c' = c.wrote i w t k) := by
  rcases exec_cases h with ⟨p, k, -, rfl⟩ | ⟨r, k, hp, rfl⟩ | ⟨r, k, hp, rfl⟩
  · exact .inl ⟨p, k, rfl⟩
  · exact .inr ⟨r, _, k, Prog.mem_nextWrite (.inl hp), .inl rfl, rfl⟩
  · exact .inr ⟨r, _, k, Prog.mem_nextWrite (.inr hp), .inr rfl, rfl⟩

theorem exec_other {j : ι} (h : c.exec i = some c') (hj : j ≠ i) :
    c'.thread j = c.thread j := by
  rcases exec_cases h with ⟨p, k, -, rfl⟩ | ⟨r, k, -, rfl⟩ | ⟨r, k, -, rfl⟩
  · exact setThread_other _ hj
  · exact wrote_other _ _ _ hj
  · exact wrote_other _ _ _ hj

end

/-! ## Rows stay -/

/-- No statement removes a key. -/
theorem find?_isSome_exec {c c' : Config ι key α} {i : ι} {k : κ} (hs : c.exec i = some c')
    (h : (c.table.find? k).isSome = true) : (c'.table.find? k).isSome = true := by
  rcases exec_read_or_write hs with ⟨p, q, rfl⟩ | ⟨w, t, q, -, ht, rfl⟩
  · exact h
  · rw [wrote_table]
    rcases ht with rfl | rfl
    · rw [Keyed.find?_update]
      split
      · rwa [Option.isSome_map]
      · exact h
    · rw [Keyed.find?_replace]
      split
      · rfl
      · exact h

/-- The keys that threads have read are in the table. -/
def SeenStay (c : Config ι key α) : Prop :=
  ∀ i, ∀ r ∈ (c.thread i).seen, (c.table.find? (key r)).isSome = true

theorem SeenStay.exec {c c' : Config ι key α} {i : ι} (h : SeenStay c) (hs : c.exec i = some c') :
    SeenStay c' := by
  intro j r hr
  refine find?_isSome_exec hs ?_
  rcases exec_read_or_write hs with ⟨p, q, rfl⟩ | ⟨w, t, q, -, -, rfl⟩
  · rcases mem_seen_setThread hr with hr | hr
    · exact h j r hr
    · rw [Keyed.find?_of_mem (Keyed.mem_getAll.1 hr).1]
      rfl
  · rw [wrote_seen] at hr
    exact h j r hr

/-! ## Contracts on writes -/

theorem Obeyed.exec {W : ι → List ρ → ρ → Prop} {c c' : Config ι key α} {i : ι}
    (h : Obeyed W c) (hs : c.exec i = some c') : Obeyed W c' := by
  intro j
  have hi := h i
  by_cases hj : j = i
  · subst hj
    rcases exec_cases hs with ⟨p, k, hp, rfl⟩ | ⟨r, k, hp, rfl⟩ | ⟨r, k, hp, rfl⟩
    all_goals rw [hp] at hi
    · rw [setThread_self]
      exact hi _ fun r hr => (Keyed.mem_getAll.1 hr).2
    · rw [wrote_self]
      exact hi.2
    · rw [wrote_self]
      exact hi.2
  · rw [exec_other hs hj]
    exact h j

/-! ## Programs that write once -/

section
variable {b : α} {U R : List ρ → ρ → Prop} {c c' : Config ι key α} {i j : ι}

/-- A statement of such a thread reads, or is its first write and makes it return. -/
theorem Once.exec_cases (h : Once b U R c i) (hs : c.exec i = some c') :
    i ∉ c.writes.map Prod.fst ∧
    ((∃ p, ∃ k : List ρ → Prog ρ α,
        c' = c.setThread i ⟨k (c.table.getAll p), (c.thread i).seen ++ c.table.getAll p⟩ ∧
        (k (c.table.getAll p)).WritesOnce b U R ((c.thread i).seen ++ c.table.getAll p)) ∨
      (∃ w ∈ (c.thread i).prog.nextWrite, U (c.thread i).seen w ∧
        c' = c.wrote i w (c.table.update w) (.ret b)) ∨
      (∃ w ∈ (c.thread i).prog.nextWrite, R (c.thread i).seen w ∧
        c' = c.wrote i w (c.table.replace w) (.ret b))) := by
  rcases h with ⟨hm, ho⟩ | ⟨-, hret⟩
  · refine ⟨hm, ?_⟩
    rcases Config.exec_cases hs with ⟨p, k, hp, rfl⟩ | ⟨r, k, hp, rfl⟩ | ⟨r, k, hp, rfl⟩
    all_goals rw [hp] at ho
    · exact .inl ⟨p, k, rfl, ho _ fun r hr => (Keyed.mem_getAll.1 hr).2⟩
    · obtain ⟨hu, rfl⟩ := ho
      exact .inr (.inl ⟨r, Prog.mem_nextWrite (.inl hp), hu, rfl⟩)
    · obtain ⟨hr, rfl⟩ := ho
      exact .inr (.inr ⟨r, Prog.mem_nextWrite (.inr hp), hr, rfl⟩)
  · simp only [Config.exec, hret] at hs
    cases hs

theorem Once.exec (h : Once b U R c i) (hs : c.exec j = some c') : Once b U R c' i := by
  by_cases hij : i = j
  · subst hij
    obtain ⟨hm, ⟨p, k, rfl, ho⟩ | ⟨w, -, -, rfl⟩ | ⟨w, -, -, rfl⟩⟩ := h.exec_cases hs
    · refine .inl ⟨hm, ?_⟩
      rw [setThread_self]
      exact ho
    · exact .inr ⟨by simp, by rw [wrote_self]⟩
    · exact .inr ⟨by simp, by rw [wrote_self]⟩
  · have hwrites : i ∈ c'.writes.map Prod.fst ↔ i ∈ c.writes.map Prod.fst := by
      rcases exec_read_or_write hs with ⟨p, k, rfl⟩ | ⟨w, t, k, -, -, rfl⟩
      · exact Iff.rfl
      · simp [hij]
    unfold Once
    rw [exec_other hs hij, hwrites]
    exact h

end

/-! ## Invariants of rows -/

/-- All rows in the table, and all that threads have read, satisfy `P`. -/
structure Rows (P : ρ → Prop) (c : Config ι key α) : Prop where
  table : ∀ r ∈ c.table.rows, P r
  seen : ∀ i, ∀ r ∈ (c.thread i).seen, P r

theorem Rows.exec {P : ρ → Prop} {c c' : Config ι key α} {i : ι} (h : Rows P c)
    (hw : ∀ w ∈ (c.thread i).prog.nextWrite, P w) (hs : c.exec i = some c') : Rows P c' := by
  rcases exec_read_or_write hs with ⟨p, k, rfl⟩ | ⟨w, t, k, hnext, ht, rfl⟩
  · refine ⟨h.table, fun j r hr => ?_⟩
    rcases mem_seen_setThread hr with hr | hr
    · exact h.seen j r hr
    · exact h.table r (Keyed.mem_getAll.1 hr).1
  · refine ⟨fun r hr => ?_, fun j r hr => ?_⟩
    · rcases ht with rfl | rfl
      · rcases Keyed.mem_update hr with rfl | ⟨hr, -⟩
        · exact hw r hnext
        · exact h.table r hr
      · rcases Keyed.mem_replace.1 hr with rfl | ⟨hr, -⟩
        · exact hw r hnext
        · exact h.table r hr
    · rw [wrote_seen] at hr
      exact h.seen j r hr

/-- What all rows satisfy at the start, and every program keeps when it writes, all rows always
satisfy. -/
theorem Rows.run {P : ρ → Prop} {t : Keyed key} {progs : ι → Prog ρ α}
    (ht : ∀ r ∈ t.rows, P r)
    (hobeys : ∀ i, (progs i).Obeys (fun seen w => (∀ r ∈ seen, P r) → P w) [])
    {sched : List ι} {c : Config ι key α} (h : Run Config.exec Any (init t progs) sched c) :
    Rows P c := by
  have hinit : Rows P (init t progs) := ⟨ht, fun _ _ hr => absurd hr List.not_mem_nil⟩
  let W : ι → List ρ → ρ → Prop := fun _ seen w => (∀ r ∈ seen, P r) → P w
  have hstep : ∀ (c : Config ι key α) i c', Rows P c ∧ Obeyed W c → Any c i →
      c.exec i = some c' → Rows P c' ∧ Obeyed W c' := by
    rintro c i c' ⟨hr, ho⟩ - hs
    exact ⟨hr.exec (fun w hw => ho.write hw (hr.seen i)) hs, ho.exec hs⟩
  exact (h.inv hstep ⟨hinit, hobeys⟩).1

/-! ## The last write to a row -/

/-- The last row with key `k` written by a thread of the kind `p`. -/
def lastWrite (c : Config ι key α) (p : ι → Bool) (k : κ) : Option ρ :=
  ((c.writes.filter fun x => p x.1 && key x.2 = k).getLast?).map Prod.snd

section
variable {c : Config ι key α} {i : ι} {p : ι → Bool}

theorem lastWrite_wrote (r : ρ) (t : Keyed key) (q : Prog ρ α) (k : κ) :
    (c.wrote i r t q).lastWrite p k =
      if p i = true ∧ key r = k then some r else c.lastWrite p k := by
  unfold lastWrite
  rw [wrote_writes, List.filter_append]
  by_cases h : p i = true ∧ key r = k
  · simp [h]
  · simp [h]

end

end Config
