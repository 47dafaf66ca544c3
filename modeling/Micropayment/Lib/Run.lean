import Mathlib

/-!
# Runs of a transition system

A system is a partial step function `step : σ → α → Option σ`. `Run step G s as s'`: the actions
`as` lead from `s` to `s'`, each taken in a state where the guard `G` allows it (`Any` allows all).
Invariants are proved once per step and hold along every guarded run (`Run.inv`); `Run.mono_inv`
exchanges guards under an invariant, and `Run.const_iff` reads off a potential whether a run ever
left its guard. A measure that every step lowers bounds the runs (`Run.length_le`); what every step
keeps but for what its action brings in is conserved (`Run.total`; with losses, `Run.collect_le`).

A relation between the states of two systems is a simulation if every step of the first is matched
by a run, possibly of no step, of the second. `Run.sim` carries it over whole runs, and
`Run.project` is the case in which the second state is a function of the first.
-/

set_option autoImplicit false

section
variable {σ α : Type} (step : σ → α → Option σ)

inductive Run (G : σ → α → Prop) : σ → List α → σ → Prop
  | nil (s : σ) : Run G s [] s
  | cons {s s' s'' : σ} {a : α} {as : List α} :
      G s a → step s a = some s' → Run G s' as s'' → Run G s (a :: as) s''

/-- The guard that allows every action. -/
def Any (_ : σ) (_ : α) : Prop := True

/-- The state after the actions, computed. -/
def runAll : σ → List α → Option σ
  | s, [] => some s
  | s, a :: as => (step s a).bind fun s' => runAll s' as

/-- The actions can be taken and the guard allows them, computed. -/
def allowed (G : σ → α → Prop) [∀ s a, Decidable (G s a)] : σ → List α → Bool
  | _, [] => true
  | s, a :: as => decide (G s a) && (step s a).any fun s' => allowed G s' as

end

namespace Run

variable {σ α : Type} {step : σ → α → Option σ} {G G' : σ → α → Prop}

theorem one {s s' : σ} {a : α} (hg : G s a) (h : step s a = some s') : Run step G s [a] s' :=
  .cons hg h (.nil _)

theorem mono (hG : ∀ s a, G s a → G' s a) {s s' : σ} {as : List α} (h : Run step G s as s') :
    Run step G' s as s' := by
  induction h with
  | nil => exact .nil _
  | cons hg hs _ ih => exact .cons (hG _ _ hg) hs ih

/-- **Invariant rule**: what every allowed step keeps, every guarded run keeps. -/
theorem inv {I : σ → Prop} (hstep : ∀ s a s', I s → G s a → step s a = some s' → I s')
    {s s' : σ} {as : List α} (h : Run step G s as s') (h0 : I s) : I s' := by
  induction h with
  | nil => exact h0
  | cons hg hs _ ih => exact ih (hstep _ _ _ h0 hg hs)

/-- **Conservation rule**: if what the state holds changes only by what the action brings in, the
run loses nothing and makes nothing up. -/
theorem total {M : Type} [AddCommMonoid M] {I : σ → Prop} (held : σ → M) (brings : α → M)
    (hinv : ∀ s a s', I s → G s a → step s a = some s' → I s')
    (hstep : ∀ s a s', I s → G s a → step s a = some s' → held s' = brings a + held s)
    {s s' : σ} {as : List α} (h : Run step G s as s') (h0 : I s) :
    held s' = (as.map brings).sum + held s := by
  induction h with
  | nil => simp
  | @cons s s₁ s' a as hg hs _ ih =>
    have hrest := ih (hinv _ _ _ h0 hg hs)
    have hfirst := hstep _ _ _ h0 hg hs
    rw [hrest, hfirst, List.map_cons, List.sum_cons]
    abel

/-- The rule for what is held in any order. -/
theorem collect {β : Type} {I : σ → Prop} (held : σ → Multiset β) (brings : α → List β)
    (hinv : ∀ s a s', I s → G s a → step s a = some s' → I s')
    (hstep : ∀ s a s', I s → G s a → step s a = some s' → held s' = ↑(brings a) + held s)
    {s s' : σ} {as : List α} (h : Run step G s as s') (h0 : I s) :
    held s' = ↑(as.flatMap brings) + held s := by
  have hsum : (as.map fun a => (brings a : Multiset β)).sum = ↑(as.flatMap brings) := by
    rw [← Multiset.coe_bind]
    rfl
  rw [← hsum]
  exact h.total held (fun a => ↑(brings a)) hinv hstep h0

/-- The rule with losses: no more is held than has been brought in. -/
theorem collect_le {β : Type} {I : σ → Prop} (held : σ → Multiset β) (brings : α → List β)
    (hinv : ∀ s a s', I s → G s a → step s a = some s' → I s')
    (hstep : ∀ s a s', I s → G s a → step s a = some s' → held s' ≤ ↑(brings a) + held s)
    {s s' : σ} {as : List α} (h : Run step G s as s') (h0 : I s) :
    held s' ≤ ↑(as.flatMap brings) + held s := by
  induction h with
  | nil => simp
  | @cons s s₁ s' a as hg hs _ ih =>
    have hrest := ih (hinv _ _ _ h0 hg hs)
    have hfirst := hstep _ _ _ h0 hg hs
    calc held s' ≤ ↑(as.flatMap brings) + held s₁ := hrest
      _ ≤ ↑(as.flatMap brings) + (↑(brings a) + held s) := by gcongr
      _ = ↑((a :: as).flatMap brings) + held s := by
        rw [List.flatMap_cons, ← Multiset.coe_add]
        abel

/-- The guard may be exchanged for one that it implies together with an invariant. -/
theorem mono_inv {I : σ → Prop} (hstep : ∀ s a s', I s → G s a → step s a = some s' → I s')
    (hG : ∀ s a s', I s → G s a → step s a = some s' → G' s a) {s s' : σ} {as : List α}
    (h : Run step G s as s') (h0 : I s) : Run step G' s as s' := by
  induction h with
  | nil => exact .nil _
  | cons hg hs _ ih => exact .cons (hG _ _ _ h0 hg hs) hs (ih (hstep _ _ _ h0 hg hs))

/-- A potential that no step raises, and that a step keeps exactly when the guard allows it, is
kept by a run exactly when the guard allows the whole run. -/
theorem const_iff {π : Type} [PartialOrder π] {I : σ → Prop} (Φ : σ → π)
    (hstep : ∀ s a s', I s → step s a = some s' → I s')
    (hle : ∀ s a s', I s → step s a = some s' → Φ s' ≤ Φ s)
    (heq : ∀ s a s', I s → step s a = some s' → (Φ s' = Φ s ↔ G s a))
    {s s' : σ} {as : List α} (h : Run step Any s as s') (h0 : I s) :
    Φ s' ≤ Φ s ∧ (Φ s' = Φ s ↔ Run step G s as s') := by
  induction h with
  | nil s => exact ⟨le_rfl, fun _ => .nil s, fun _ => rfl⟩
  | @cons s s₁ s' a as _ hs _ ih =>
    obtain ⟨hle', ih⟩ := ih (hstep _ _ _ h0 hs)
    have hle₁ := hle _ _ _ h0 hs
    refine ⟨hle'.trans hle₁, fun he => ?_, fun hr => ?_⟩
    · -- the two drops cannot cancel, so neither happened
      have h1 : Φ s₁ = Φ s := le_antisymm hle₁ (he ▸ hle')
      exact .cons ((heq _ _ _ h0 hs).1 h1) hs (ih.1 (he.trans h1.symm))
    · cases hr with
      | cons hg hs' hr =>
        cases hs.symm.trans hs'
        exact (ih.2 hr).trans ((heq _ _ _ h0 hs).2 hg)

/-- A measure that every allowed step lowers bounds the length of the runs. -/
theorem length_le {Φ : σ → Nat} (hstep : ∀ s a s', G s a → step s a = some s' → Φ s' < Φ s)
    {s s' : σ} {as : List α} (h : Run step G s as s') : as.length + Φ s' ≤ Φ s := by
  induction h with
  | nil s => simp
  | @cons s s₁ s' a as hg hs _ ih =>
    have hlt := hstep _ _ _ hg hs
    simp only [List.length_cons]
    omega

theorem runAll_append (s : σ) (as bs : List α) :
    runAll step s (as ++ bs) = (runAll step s as).bind fun s' => runAll step s' bs := by
  induction as generalizing s with
  | nil => rfl
  | cons a as ih =>
    simp only [List.cons_append, runAll]
    cases step s a with
    | none => rfl
    | some s₁ => exact ih s₁

theorem of_runAll {s s' : σ} {as : List α} (h : runAll step s as = some s') :
    Run step Any s as s' := by
  induction as generalizing s with
  | nil =>
    cases h
    exact .nil _
  | cons a as ih =>
    obtain ⟨s₁, hs, h⟩ := Option.bind_eq_some_iff.1 h
    exact .cons trivial hs (ih h)

theorem of_allowed [∀ s a, Decidable (G s a)] {s : σ} {as : List α}
    (h : allowed step G s as = true) : ∃ s', runAll step s as = some s' ∧ Run step G s as s' := by
  induction as generalizing s with
  | nil => exact ⟨s, rfl, .nil s⟩
  | cons a as ih =>
    simp only [allowed, Bool.and_eq_true, decide_eq_true_eq, Option.any_eq_true] at h
    obtain ⟨hg, s₁, hs, h⟩ := h
    obtain ⟨s', hr, hrun⟩ := ih h
    refine ⟨s', ?_, .cons hg hs hrun⟩
    rw [runAll, hs]
    exact hr

section
variable {τ β : Type} {step' : τ → β → Option τ} {G₂ : τ → β → Prop}

theorem append {s s' s'' : σ} {as bs : List α} (h : Run step G s as s')
    (h' : Run step G s' bs s'') : Run step G s (as ++ bs) s'' := by
  induction h with
  | nil => exact h'
  | cons hg hs _ ih => exact .cons hg hs (ih h')

/-- **Simulation**: what every step keeps with a run of the other system, every run keeps. -/
theorem sim {R : σ → τ → Prop}
    (hsim : ∀ s a s' t, R s t → G s a → step s a = some s' →
      ∃ bs t', Run step' G₂ t bs t' ∧ R s' t')
    {s s' : σ} {as : List α} (h : Run step G s as s') {t : τ} (hR : R s t) :
    ∃ bs t', Run step' G₂ t bs t' ∧ R s' t' := by
  induction h generalizing t with
  | nil => exact ⟨[], t, .nil t, hR⟩
  | cons hg hs _ ih =>
    obtain ⟨bs, t₁, hrun, hR₁⟩ := hsim _ _ _ _ hR hg hs
    obtain ⟨cs, t', hrun', hR'⟩ := ih hR₁
    exact ⟨bs ++ cs, t', hrun.append hrun', hR'⟩

/-- A part of the state that every step leaves alone or moves by a step of the other system. -/
theorem project (proj : σ → τ)
    (hstep : ∀ s a s', G s a → step s a = some s' →
      proj s' = proj s ∨ ∃ b, G₂ (proj s) b ∧ step' (proj s) b = some (proj s'))
    {s s' : σ} {as : List α} (h : Run step G s as s') :
    ∃ bs, Run step' G₂ (proj s) bs (proj s') := by
  have hsim : ∀ s a s' t, proj s = t → G s a → step s a = some s' →
      ∃ bs t', Run step' G₂ t bs t' ∧ proj s' = t' := by
    rintro s a s' t rfl hg hs
    rcases hstep s a s' hg hs with he | ⟨b, hg', hs'⟩
    · exact ⟨[], _, .nil _, he⟩
    · exact ⟨[b], _, .one hg' hs', rfl⟩
  obtain ⟨bs, t', hrun, ht⟩ := h.sim hsim rfl
  exact ⟨bs, ht ▸ hrun⟩

end

end Run
