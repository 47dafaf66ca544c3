import Mathlib

/-!
# Sums over threads and over accounts

The threads of a system are a function `w : ι → τ` from finitely many indices to local states.
`tally f w` adds up `f` over all of them: with an indicator for `f` it counts the threads of a
kind, with multisets it collects what they hold. A step of one thread changes the sum as
`tally_update` says.

In the abstract ledger an account's balance changes only by `Move`s, and a move changes the balance
of `u` by `flow u` (`into u` for its destination, `outOf u` for its source). `sum_map_change` is
the bookkeeping step for a sum over a duplicate-free list in which one entry changes.
-/

set_option autoImplicit false

/-! ## Threads -/

section
variable {ι τ M : Type} [Fintype ι] [AddCommMonoid M] (f : τ → M)

def tally (w : ι → τ) : M := ∑ i, f (w i)

theorem tally_const (x : τ) : tally f (fun _ : ι => x) = Fintype.card ι • f x := by
  simp [tally]

theorem tally_congr {w w' : ι → τ} (h : ∀ i, f (w i) = f (w' i)) : tally f w = tally f w' :=
  Finset.sum_congr rfl fun i _ => h i

/-- A step of one thread trades its old entry for the new one. -/
theorem tally_update [DecidableEq ι] (w : ι → τ) (i : ι) (x : τ) :
    tally f (Function.update w i x) + f (w i) = tally f w + f x := by
  have h1 := Finset.add_sum_erase Finset.univ (fun j => f (Function.update w i x j))
    (Finset.mem_univ i)
  have h2 := Finset.add_sum_erase Finset.univ (fun j => f (w j)) (Finset.mem_univ i)
  have h3 : ∑ j ∈ Finset.univ.erase i, f (Function.update w i x j) =
      ∑ j ∈ Finset.univ.erase i, f (w j) :=
    Finset.sum_congr rfl fun j hj => by rw [Function.update_of_ne (Finset.ne_of_mem_erase hj)]
  simp only [Function.update_self] at h1
  unfold tally
  rw [← h1, ← h2, h3]
  abel

/-- A step that keeps the thread's entry keeps the sum. -/
theorem tally_update_eq [DecidableEq ι] {w : ι → τ} {i : ι} {x : τ} (h : f x = f (w i)) :
    tally f (Function.update w i x) = tally f w := by
  refine tally_congr f fun j => ?_
  by_cases hj : j = i
  · rw [hj, Function.update_self, h]
  · rw [Function.update_of_ne hj]

end

section
variable {ι τ : Type} [Fintype ι] {f : τ → Nat} {w : ι → τ}

theorem tally_eq_zero : tally f w = 0 ↔ ∀ i, f (w i) = 0 := by
  simp [tally]

end

/-! ## Accounts -/

structure Move (κ M : Type) where
  src : κ
  dst : κ
  amount : M

namespace Move

variable {κ M : Type} [DecidableEq κ] [AddCommGroup M]

def into (m : Move κ M) (u : κ) : M := if m.dst = u then m.amount else 0

def outOf (m : Move κ M) (u : κ) : M := if m.src = u then m.amount else 0

/-- What the move adds to the balance of `u`. -/
def flow (m : Move κ M) (u : κ) : M := m.into u - m.outOf u

theorem into_nonneg [PartialOrder M] {m : Move κ M} (h : 0 ≤ m.amount) (u : κ) :
    0 ≤ m.into u := by
  unfold into
  split
  · exact h
  · exact le_rfl

end Move

theorem sum_map_change {ι M : Type} [AddCommGroup M] {l : List ι} (hl : l.Nodup) {i : ι}
    (hi : i ∈ l) {f g : ι → M} (h : ∀ j ∈ l, j ≠ i → f j = g j) :
    (l.map f).sum = (l.map g).sum + (f i - g i) := by
  obtain ⟨l₁, l₂, rfl⟩ := List.append_of_mem hi
  have hn := List.nodup_middle.1 hl
  rw [List.nodup_cons, List.mem_append, not_or] at hn
  have h₁ : l₁.map f = l₁.map g :=
    List.map_congr_left fun j hj => h j (by simp [hj]) (by rintro rfl; exact hn.1.1 hj)
  have h₂ : l₂.map f = l₂.map g :=
    List.map_congr_left fun j hj => h j (by simp [hj]) (by rintro rfl; exact hn.1.2 hj)
  simp only [List.map_append, List.map_cons, List.sum_append, List.sum_cons, h₁, h₂]
  abel
