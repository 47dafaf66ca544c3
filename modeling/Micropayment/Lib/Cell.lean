import Micropayment.Lib.Run

/-!
# Threads that share one cell

Each thread has a local state, and all of them one cell that a step may read and overwrite
(`act`). `Cell.exec c i` is the next step of thread `i`. `left` records what each thread left in
the cell at its last step; no step can read it. `Solo act start i` are the states of thread `i`
running alone. If every step after a thread's first finds the cell as the thread left it
(`AsLeft`), each thread is always in a state of its solo run (`Cell.solo`).
-/

set_option autoImplicit false

structure Cell (ι σ τ : Type) where
  cell : σ
  thread : ι → τ
  left : ι → σ

section
variable {ι σ τ : Type} (act : ι → τ → σ → Option (τ × σ)) (start : ι → τ)

/-- The states of thread `i` with the cell, once it has begun to run alone. -/
inductive Solo (i : ι) : τ → σ → Prop
  | first {t : τ} {s s' : σ} : act i (start i) s = some (t, s') → Solo i t s'
  | next {t t' : τ} {s s' : σ} : Solo i t s → act i t s = some (t', s') → Solo i t' s'

end

namespace Cell

variable {ι σ τ : Type}

def init (start : ι → τ) (s : σ) : Cell ι σ τ := ⟨s, start, fun _ => s⟩

/-- Thread `i` has not begun, or finds the cell as it left it. -/
def AsLeft (start : ι → τ) (c : Cell ι σ τ) (i : ι) : Prop :=
  c.thread i = start i ∨ c.cell = c.left i

instance [DecidableEq σ] [DecidableEq τ] (start : ι → τ) (c : Cell ι σ τ) (i : ι) :
    Decidable (AsLeft start c i) :=
  inferInstanceAs (Decidable (_ ∨ _))

variable [DecidableEq ι] {act : ι → τ → σ → Option (τ × σ)} {start : ι → τ}

def exec (act : ι → τ → σ → Option (τ × σ)) (c : Cell ι σ τ) (i : ι) : Option (Cell ι σ τ) :=
  (act i (c.thread i) c.cell).map fun x =>
    ⟨x.2, Function.update c.thread i x.1, Function.update c.left i x.2⟩

/-- Every thread has not begun or is in a state of its solo run. -/
def AllSolo (act : ι → τ → σ → Option (τ × σ)) (start : ι → τ) (c : Cell ι σ τ) : Prop :=
  ∀ i, c.thread i = start i ∨ Solo act start i (c.thread i) (c.left i)

theorem AllSolo.exec {c c' : Cell ι σ τ} {i : ι} (h : AllSolo act start c)
    (hg : AsLeft start c i) (hs : c.exec act i = some c') : AllSolo act start c' := by
  obtain ⟨⟨t, s⟩, hact, rfl⟩ := Option.map_eq_some_iff.1 hs
  intro j
  by_cases hj : j = i
  · subst hj
    refine .inr ?_
    simp only [Function.update_self]
    rcases h j with hstart | hsolo
    · rw [hstart] at hact
      exact .first hact
    · rcases hg with hstart | hleft
      · rw [hstart] at hact
        exact .first hact
      · rw [hleft] at hact
        exact hsolo.next hact
  · simpa only [Function.update_of_ne hj] using h j

theorem solo {s : σ} {sched : List ι} {c : Cell ι σ τ}
    (h : Run (exec act) (AsLeft start) (init start s) sched c) : AllSolo act start c :=
  h.inv (fun _ _ _ hi hg hs => hi.exec hg hs) fun _ => .inl rfl

end Cell
