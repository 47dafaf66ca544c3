import Micropayment.Proof.SessionFrame

/-!
# Concurrent registrations

`user_register` looks for the name and then writes the whole row in a second statement, a
`REPLACE`, which overwrites a row that has appeared in between. `granted_once`: if every `REPLACE`
finds the name still free (`FreshName`), a name is granted at most once and no account is reset,
whatever else runs. `granted_twice` is a run without that.
-/

set_option autoImplicit false

namespace Micropayment

section
variable {ι : Type} (calls : ι → Call) (t₀ : Table)

/-- Thread `i` is in a registration of `u` that has returned `REGISTER_OK`. -/
def Granted (c : Workers ι) (u : Str) (i : ι) : Prop :=
  (∃ ip, calls i = .register u ip) ∧ (c.thread i).prog = .ret .registerOk

/-- `u` is granted at most once, and not at all if it was taken. -/
structure GrantedOnce (c : Workers ι) (u : Str) : Prop where
  once : ∀ i j, Granted calls c u i → Granted calls c u j → i = j
  taken : (t₀.find? u).isSome = true → ∀ i, ¬ Granted calls c u i

/-- If thread `i` is in a registration, its next statement changes no existing row. -/
def KeepsRows [DecidableEq ι] (c : Workers ι) (i : ι) : Prop :=
  (calls i).isRegister = true → ∀ c', c.exec i = some c' →
    ∀ u r, c.table.find? u = some r → c'.table.find? u = some r

/-- If thread `i` is in a registration and writes next, the table has no row of that name. -/
def FreshName (c : Workers ι) (i : ι) : Prop :=
  (calls i).isRegister = true → ∀ w ∈ (c.thread i).prog.nextWrite,
    c.table.find? w.username = none

instance (c : Workers ι) (i : ι) : Decidable (FreshName calls c i) :=
  inferInstanceAs (Decidable (_ → ∀ w ∈ (c.thread i).prog.nextWrite, _))

end

theorem userRegister_once (u ip : Str) : (userRegister u ip).WritesOnce .registerOk
    (fun _ _ => False) (fun _ w => w = newUser u) [] := by
  intro l hl
  dsimp only
  split
  · simp [Prog.WritesOnce]
  · exact ⟨rfl, rfl⟩

/-! ## The invariant -/

section
variable {ι : Type} {calls : ι → Call} {t₀ : Table}

variable (calls t₀) in
structure GrantInv (c : Workers ι) : Prop where
  writes : ∀ i u ip, calls i = .register u ip →
    c.Once .registerOk (fun _ _ => False) (fun _ w => w = newUser u) i
  rows : ∀ u i, Granted calls c u i → (c.table.find? u).isSome = true
  start : ∀ u, (t₀.find? u).isSome = true → (c.table.find? u).isSome = true
  granted : ∀ u, GrantedOnce calls t₀ c u

namespace GrantInv

theorem init : GrantInv calls t₀ (Config.init t₀ fun i => (calls i).prog) := by
  have hnone : ∀ u i, ¬ Granted calls (Config.init t₀ fun i => (calls i).prog) u i := by
    rintro u i ⟨⟨ip, hi⟩, hret⟩
    simp only [Config.init, hi] at hret
    cases hret
  refine ⟨fun i u ip hi => .inl ⟨List.not_mem_nil, ?_⟩, fun u i h => absurd h (hnone u i),
    fun u h => h, fun u => ⟨fun i j h => absurd h (hnone u i), fun _ => hnone u⟩⟩
  simp only [Config.init, hi]
  exact userRegister_once u ip

variable [DecidableEq ι] {c c' : Workers ι} {i : ι}

/-- A statement grants a name only if it was free, and then there is a row. -/
theorem granted_exec (h : GrantInv calls t₀ c) (hf : FreshName calls c i) (hs : c.exec i = some c')
    {u : Str} {j : ι} (hg : Granted calls c' u j) :
    Granted calls c u j ∨
      (j = i ∧ c.table.find? u = none ∧ (c'.table.find? u).isSome = true) := by
  by_cases hj : j = i
  · subst hj
    obtain ⟨⟨ip, hi⟩, hret⟩ := hg
    obtain ⟨hm, ⟨p, k, rfl, ho⟩ | ⟨w, -, hw, -⟩ | ⟨w, hnext, rfl, rfl⟩⟩ :=
      (h.writes j u ip hi).exec_cases hs
    · rw [Config.setThread_self] at hret
      dsimp only at hret
      rw [hret] at ho
      exact absurd rfl ho
    · exact hw.elim
    · have hfree := hf (by rw [hi]; rfl) _ hnext
      refine .inr ⟨rfl, hfree, ?_⟩
      have hname : (newUser u).username = u := rfl
      rw [Config.wrote_table, Keyed.find?_replace, if_pos hname]
      rfl
  · refine .inl ⟨hg.1, ?_⟩
    rw [← Config.exec_other hs hj]
    exact hg.2

theorem exec (h : GrantInv calls t₀ c) (hf : FreshName calls c i) (hs : c.exec i = some c') :
    GrantInv calls t₀ c' := by
  have hfree : ∀ {u j}, Granted calls c u j → c.table.find? u ≠ none := by
    intro u j hg he
    have := h.rows u j hg
    rw [he] at this
    cases this
  refine ⟨fun j u ip hj => (h.writes j u ip hj).exec hs, fun u j hg => ?_,
    fun u hu => Config.find?_isSome_exec hs (h.start u hu), fun u => ⟨fun j k hj hk => ?_,
    fun hu j hg => ?_⟩⟩
  · rcases h.granted_exec hf hs hg with hg | ⟨-, -, hrow⟩
    · exact Config.find?_isSome_exec hs (h.rows u j hg)
    · exact hrow
  · rcases h.granted_exec hf hs hj with hj | ⟨rfl, hnone, -⟩
    · rcases h.granted_exec hf hs hk with hk | ⟨-, hnone, -⟩
      · exact (h.granted u).once j k hj hk
      · exact absurd hnone (hfree hj)
    · rcases h.granted_exec hf hs hk with hk | ⟨rfl, -, -⟩
      · exact absurd hnone (hfree hk)
      · rfl
  · rcases h.granted_exec hf hs hg with hg | ⟨-, hnone, -⟩
    · exact (h.granted u).taken hu j hg
    · have := h.start u hu
      rw [hnone] at this
      cases this

theorem keepsRows (h : GrantInv calls t₀ c) (hf : FreshName calls c i) : KeepsRows calls c i := by
  intro hreg c' hs u r hr
  cases hi : calls i with
  | register v ip =>
    obtain ⟨-, ⟨p, k, rfl, -⟩ | ⟨w, -, hw, -⟩ | ⟨w, hnext, rfl, rfl⟩⟩ :=
      (h.writes i v ip hi).exec_cases hs
    · exact hr
    · exact hw.elim
    · have hfree := hf hreg _ hnext
      rw [Config.wrote_table, Keyed.find?_replace, if_neg]
      · exact hr
      · intro hu
        rw [hu, hr] at hfree
        cases hfree
  | login | logout | transaction =>
    rw [hi] at hreg
    cases hreg

end GrantInv

variable [DecidableEq ι]

/-- **A registration is granted once and resets no account** along every interleaving in which each
`REPLACE` finds its name free. -/
theorem granted_once {sched : List ι} {c : Workers ι}
    (h : Run Config.exec (FreshName calls) (Config.init t₀ fun i => (calls i).prog) sched c) :
    (∀ u, GrantedOnce calls t₀ c u) ∧
      Run Config.exec (KeepsRows calls) (Config.init t₀ fun i => (calls i).prog) sched c := by
  have hstep : ∀ c i c', GrantInv calls t₀ c → FreshName calls c i → c.exec i = some c' →
      GrantInv calls t₀ c' := fun _ _ _ hi hf hs => hi.exec hf hs
  exact ⟨(h.inv hstep .init).granted,
    h.mono_inv hstep (fun _ _ _ hi hf _ => hi.keepsRows hf) .init⟩

end

/-! ## Two registrations of one name -/

section
def twoRegistrations (_ : Bool) : Call := .register ['a'] ['x']

def registrationWorkers : Workers Bool :=
  Config.init Keyed.empty fun i => (twoRegistrations i).prog

/-- The second one finds the row of the first. -/
theorem granted_once_two :
    ∃ c : Workers Bool, Run Config.exec (FreshName twoRegistrations) registrationWorkers
      [true, true, false] c ∧ ∀ u, GrantedOnce twoRegistrations Keyed.empty c u := by
  obtain ⟨c, -, h⟩ := Run.of_allowed (by decide +kernel : allowed Config.exec
    (FreshName twoRegistrations) registrationWorkers [true, true, false] = true)
  exact ⟨c, h, (granted_once h).1⟩

/-- Both look before either writes: the name is granted twice. -/
theorem granted_twice :
    ∃ c : Workers Bool, Run Config.exec Any registrationWorkers [true, false, true, false] c ∧
      ¬ GrantedOnce twoRegistrations Keyed.empty c ['a'] := by
  have hend : ∀ i, (runAll Config.exec registrationWorkers [true, false, true, false]).map
      (fun c => (c.thread i).prog.result?) = some (some .registerOk) := by decide +kernel
  obtain ⟨c, hc, -⟩ := Option.map_eq_some_iff.1 (hend true)
  have hret : ∀ i, Granted twoRegistrations c ['a'] i := by
    intro i
    have hi := hend i
    rw [hc] at hi
    exact ⟨⟨['x'], rfl⟩, Prog.of_result? (Option.some.inj hi)⟩
  refine ⟨c, Run.of_runAll hc, fun h => ?_⟩
  cases h.once true false (hret true) (hret false)

end

end Micropayment
