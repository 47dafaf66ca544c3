import Mathlib
import Micropayment.Lib.Run

/-!
# What the server is for

The abstract model: `Bank` says who has an account with how much money, and where each user has a
session. `Bank.answer` is what a request is answered, `Bank.after` what it leaves behind. A transfer
may cost the payer another amount than it brings the payee. Nothing here is read off the code;
the database refines it.
-/

set_option autoImplicit false

/-- Users `υ` with accounts in `M` and sessions at places `π`, each with its data `δ`. -/
structure Bank (υ π δ M : Type) where
  balance : υ → Option M
  session : υ → Option (π × δ)

namespace Bank

inductive Request (υ π δ M : Type) where
  | register (u : υ)
  | login (u : υ) (place : π) (data : δ)
  | logout (place : π)
  | transfer (payer payee : υ) (cost value : M)

inductive Answer where
  | granted
  | taken
  | unknown
  | busy
  | nobody
  | toSelf
  | refused
  | broke
  deriving DecidableEq, Repr

variable {υ π δ M : Type}

@[ext] theorem ext {b b' : Bank υ π δ M} (hb : ∀ u, b.balance u = b'.balance u)
    (hs : ∀ u, b.session u = b'.session u) : b = b' := by
  cases b
  cases b'
  congr
  · exact funext hb
  · exact funext hs

def empty : Bank υ π δ M := ⟨fun _ => none, fun _ => none⟩

/-- `u` has a session at the place. -/
def At (b : Bank υ π δ M) (place : π) (u : υ) : Prop := ∃ d, b.session u = some (place, d)

variable [DecidableEq υ]

open Classical in
/-- What a granted request changes; `initial` is what a new account holds. -/
noncomputable def granted [Add M] [Sub M] (initial : M) (b : Bank υ π δ M) :
    Request υ π δ M → Bank υ π δ M
  | .register u => { b with balance := Function.update b.balance u (some initial) }
  | .login u place data => { b with session := Function.update b.session u (some (place, data)) }
  | .logout place => { b with session := fun u => if b.At place u then none else b.session u }
  | .transfer payer payee cost value =>
    { b with
      balance := fun u =>
        if payee = u then (b.balance u).map fun m => m + value
        else if payer = u then (b.balance u).map fun m => m - cost
        else b.balance u }

variable [LinearOrder M]

open Classical in
/-- A logout is granted if exactly one user has a session at the place. -/
noncomputable def answer [Zero M] (b : Bank υ π δ M) : Request υ π δ M → Answer
  | .register u => if b.balance u = none then .granted else .taken
  | .login u _ _ =>
    if b.balance u = none then .unknown else if b.session u = none then .granted else .busy
  | .logout place => if ∃! u, b.At place u then .granted else .nobody
  | .transfer payer payee cost _ =>
    if payer = payee then .toSelf
    else if cost ≤ 0 ∨ b.session payer = none ∨ b.session payee = none then .refused
    else if ∀ m ∈ b.balance payer, m < cost then .broke
    else .granted

noncomputable def after [Zero M] [Add M] [Sub M] (initial : M) (b : Bank υ π δ M)
    (r : Request υ π δ M) : Bank υ π δ M :=
  if b.answer r = .granted then b.granted initial r else b

/-- The bank as a transition system. -/
noncomputable def step [Zero M] [Add M] [Sub M] (initial : M) (b : Bank υ π δ M)
    (r : Request υ π δ M) : Option (Bank υ π δ M) :=
  some (b.after initial r)

/-! ## Whose money moves -/

section
variable [AddCommGroup M] [IsOrderedAddMonoid M] {initial : M} {b b' : Bank υ π δ M}

/-- No granted transfer is paid by `u`, or brings its payee less than nothing. -/
def Spares (u : υ) (b : Bank υ π δ M) : Request υ π δ M → Prop
  | .transfer payer payee cost value =>
    b.answer (.transfer payer payee cost value) = .granted → payer ≠ u ∧ 0 ≤ value
  | _ => True

/-- An account stays, and holds no less unless its user pays. -/
theorem balance_step {u : υ} {m : M} {r : Request υ π δ M} (hm : b.balance u = some m)
    (hr : b.Spares u r) (h : b.step initial r = some b') :
    ∃ m', b'.balance u = some m' ∧ m ≤ m' := by
  obtain rfl := Option.some.inj h
  unfold after
  split
  · rename_i hans
    cases r with
    | register v =>
      have hne : v ≠ u := by
        rintro rfl
        simp [answer, hm] at hans
      refine ⟨m, ?_, le_rfl⟩
      simp only [granted]
      rw [Function.update_of_ne hne.symm]
      exact hm
    | login | logout => exact ⟨m, hm, le_rfl⟩
    | transfer payer payee cost value =>
      obtain ⟨hpayer, hvalue⟩ := hr hans
      by_cases hpayee : payee = u
      · refine ⟨m + value, ?_, le_add_of_nonneg_right hvalue⟩
        simp [granted, hpayee, hm]
      · refine ⟨m, ?_, le_rfl⟩
        simp [granted, hpayee, hpayer, hm]
  · exact ⟨m, hm, le_rfl⟩

/-- **Nobody loses money but by paying.** -/
theorem balance_mono {u : υ} {rs : List (Request υ π δ M)}
    (h : Run (step initial) (Spares u) b rs b') {m : M} (hm : b.balance u = some m) :
    ∃ m', b'.balance u = some m' ∧ m ≤ m' := by
  have hstep : ∀ (b : Bank υ π δ M) r b', (∃ m', b.balance u = some m' ∧ m ≤ m') →
      Spares u b r → b.step initial r = some b' → ∃ m', b'.balance u = some m' ∧ m ≤ m' := by
    rintro b r b' ⟨m', hm', hle⟩ hr hs
    obtain ⟨m'', hm'', hle'⟩ := balance_step hm' hr hs
    exact ⟨m'', hm'', hle.trans hle'⟩
  exact h.inv hstep ⟨m, hm, le_rfl⟩

end

end Bank
