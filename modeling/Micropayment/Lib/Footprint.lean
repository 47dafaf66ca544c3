import Micropayment.Lib.Prog

/-!
# Footprints

`Prog.Within key K`: every statement of the program is about rows with keys in `K`, each `SELECT`
about one key. What such a program returns, and the rows under `K` that it leaves, depend on the
rows under `K` alone (`Within.run_congr`). So among threads that write no row under `K` it is not
disturbed (`Config.undisturbed`), and programs with disjoint footprints do in every interleaving
what they do one after another in any order (`Config.disjoint`, `Prog.find?_serial`).
-/

set_option autoImplicit false

namespace Prog

variable {ρ κ α : Type} {key : ρ → κ}

/-- Every statement is about rows with keys in `K`, each `SELECT` about one of the keys. -/
def Within (key : ρ → κ) (K : Set κ) : Prog ρ α → Prop
  | ret _ => True
  | getAll p k => (∃ a ∈ K, ∀ r, p r = true → key r = a) ∧
      ∀ l : List ρ, (∀ r ∈ l, p r = true) → (k l).Within key K
  | update r k => key r ∈ K ∧ k.Within key K
  | replace r k => key r ∈ K ∧ k.Within key K

theorem Within.nextWrite {K : Set κ} {p : Prog ρ α} {r : ρ} (h : p.Within key K)
    (hr : r ∈ p.nextWrite) : key r ∈ K := by
  cases p with
  | ret | getAll => cases hr
  | update | replace =>
    cases hr
    exact h.1

variable [DecidableEq κ]

/-- The tables have the same rows under the keys of `K`. -/
def AgreeOn (K : Set κ) (t t' : Keyed key) : Prop := ∀ k ∈ K, t.find? k = t'.find? k

section
variable {K : Set κ} {t t' : Keyed key}

theorem AgreeOn.getAll (h : AgreeOn K t t') {p : ρ → Bool} {a : κ} (ha : a ∈ K)
    (hp : ∀ r, p r = true → key r = a) : t.getAll p = t'.getAll p := by
  have hkey : p = fun r => decide (key r = a) && p r := by
    funext r
    cases hr : p r with
    | false => simp
    | true => simp [hp r hr]
  rw [hkey, Keyed.getAll_key, Keyed.getAll_key, h a ha]

theorem AgreeOn.update (h : AgreeOn K t t') (r : ρ) : AgreeOn K (t.update r) (t'.update r) := by
  intro k hk
  rw [Keyed.find?_update, Keyed.find?_update, h k hk]

theorem AgreeOn.replace (h : AgreeOn K t t') (r : ρ) : AgreeOn K (t.replace r) (t'.replace r) := by
  intro k hk
  rw [Keyed.find?_replace, Keyed.find?_replace, h k hk]

/-- A write under a key outside `K`. -/
theorem agreeOn_written {r : ρ} (hr : key r ∉ K) (ht : t' = t.update r ∨ t' = t.replace r) :
    AgreeOn K t t' := by
  intro k hk
  have hne : key r ≠ k := fun he => hr (he ▸ hk)
  rcases ht with rfl | rfl
  · rw [Keyed.find?_update, if_neg hne]
  · rw [Keyed.find?_replace, if_neg hne]

end

/-- What the program returns and leaves under `K` depends on what it finds there. -/
theorem Within.run_congr {K : Set κ} {p : Prog ρ α} (h : p.Within key K) {t t' : Keyed key}
    (ht : AgreeOn K t t') : (p.run t).1 = (p.run t').1 ∧ AgreeOn K (p.run t).2 (p.run t').2 := by
  induction p generalizing t t' with
  | ret a => exact ⟨rfl, ht⟩
  | getAll q k ih =>
    obtain ⟨⟨a, ha, hq⟩, hk⟩ := h
    simp only [run]
    rw [ht.getAll ha hq]
    apply ih _ (hk _ _) ht
    intro r hr
    exact (Keyed.mem_getAll.1 hr).2
  | update r k ih => exact ih h.2 (ht.update r)
  | replace r k ih => exact ih h.2 (ht.replace r)

/-- Outside `K` it leaves everything as it was. -/
theorem Within.run_other {K : Set κ} {p : Prog ρ α} (h : p.Within key K) (t : Keyed key) {k : κ}
    (hk : k ∉ K) : (p.run t).2.find? k = t.find? k := by
  have hne : ∀ {r : ρ}, key r ∈ K → key r ≠ k := fun hr he => hk (he ▸ hr)
  induction p generalizing t with
  | ret a => rfl
  | getAll q k' ih =>
    apply ih _ (h.2 _ _)
    intro r hr
    exact (Keyed.mem_getAll.1 hr).2
  | update r k' ih => rw [run, ih h.2, Keyed.find?_update, if_neg (hne h.1)]
  | replace r k' ih => rw [run, ih h.2, Keyed.find?_replace, if_neg (hne h.1)]

/-! ## One after another -/

/-- The programs running alone, in the order of the list. -/
def serial {ι : Type} (progs : ι → Prog ρ α) : List ι → Keyed key → Keyed key
  | [], t => t
  | i :: l, t => serial progs l ((progs i).run t).2

section
variable {ι : Type} {progs : ι → Prog ρ α} {K : ι → Set κ}

theorem find?_serial_other (hw : ∀ i, (progs i).Within key (K i)) {l : List ι} {k : κ}
    (hk : ∀ i ∈ l, k ∉ K i) (t : Keyed key) : (serial progs l t).find? k = t.find? k := by
  induction l generalizing t with
  | nil => rfl
  | cons i l ih =>
    rw [List.forall_mem_cons] at hk
    rw [serial, ih hk.2, (hw i).run_other t hk.1]

/-- With disjoint footprints each row is what its program leaves running alone from the start. -/
theorem find?_serial (hw : ∀ i, (progs i).Within key (K i))
    (hd : ∀ i j, i ≠ j → Disjoint (K i) (K j)) {l : List ι} (hl : l.Nodup) {i : ι} (hi : i ∈ l)
    {k : κ} (hk : k ∈ K i) (t : Keyed key) :
    (serial progs l t).find? k = ((progs i).run t).2.find? k := by
  induction l generalizing t with
  | nil => cases hi
  | cons j l ih =>
    obtain ⟨hj, hl⟩ := List.nodup_cons.1 hl
    rcases List.mem_cons.1 hi with rfl | hi
    · rw [serial]
      apply find?_serial_other hw
      intro j' hj'
      exact Set.disjoint_left.1 (hd i j' fun he => hj (he ▸ hj')) hk
    · rw [serial, ih hl hi]
      have hagree : AgreeOn (K i) ((progs j).run t).2 t := by
        intro k' hk'
        apply (hw j).run_other
        exact Set.disjoint_left.1 (hd i j fun he => hj (he ▸ hi)) hk'
      exact ((hw i).run_congr hagree).2 k hk

end

end Prog

/-! ## Among other threads -/

namespace Config

variable {ι ρ κ α : Type} {key : ρ → κ}

/-- Only thread `i` may write under a key of `K`. -/
def Spares (i : ι) (K : Set κ) (c : Config ι key α) (j : ι) : Prop :=
  j ≠ i → ∀ w ∈ (c.thread j).prog.nextWrite, key w ∉ K

variable [DecidableEq κ]

/-- What is left of thread `i` ends as the whole of it would have ended alone. -/
structure OnCourse (t : Keyed key) (p : Prog ρ α) (K : Set κ) (c : Config ι key α) (i : ι) :
    Prop where
  within : (c.thread i).prog.Within key K
  result : ((c.thread i).prog.run c.table).1 = (p.run t).1
  rows : Prog.AgreeOn K ((c.thread i).prog.run c.table).2 (p.run t).2

theorem OnCourse.done {t : Keyed key} {p : Prog ρ α} {K : Set κ} {c : Config ι key α} {i : ι}
    {a : α} (h : OnCourse t p K c i) (ha : (c.thread i).prog = .ret a) :
    a = (p.run t).1 ∧ Prog.AgreeOn K c.table (p.run t).2 := by
  have hresult := h.result
  have hrows := h.rows
  rw [ha] at hresult hrows
  exact ⟨hresult, hrows⟩

variable [DecidableEq ι]

theorem within_exec {c c' : Config ι key α} {i j : ι} {K : Set κ}
    (h : (c.thread i).prog.Within key K) (hs : c.exec j = some c') :
    (c'.thread i).prog.Within key K := by
  by_cases hij : i = j
  · subst hij
    rcases exec_cases hs with ⟨p, k, hp, rfl⟩ | ⟨r, k, hp, rfl⟩ | ⟨r, k, hp, rfl⟩
    all_goals rw [hp] at h
    · rw [setThread_self]
      apply h.2
      intro r hr
      exact (Keyed.mem_getAll.1 hr).2
    · rw [wrote_self]
      exact h.2
    · rw [wrote_self]
      exact h.2
  · rw [exec_other hs hij]
    exact h

theorem OnCourse.exec {t : Keyed key} {p : Prog ρ α} {K : Set κ} {c c' : Config ι key α} {i j : ι}
    (h : OnCourse t p K c i) (hg : Spares i K c j) (hs : c.exec j = some c') :
    OnCourse t p K c' i := by
  by_cases hij : j = i
  · subst hij
    have hrun : (c'.thread j).prog.run c'.table = (c.thread j).prog.run c.table := by
      rcases exec_cases hs with ⟨q, k, hq, rfl⟩ | ⟨r, k, hq, rfl⟩ | ⟨r, k, hq, rfl⟩
      · rw [setThread_self, hq]
        rfl
      · rw [wrote_self, hq]
        rfl
      · rw [wrote_self, hq]
        rfl
    exact ⟨within_exec h.within hs, hrun ▸ h.result, hrun ▸ h.rows⟩
  · have hagree : Prog.AgreeOn K c'.table c.table := by
      rcases exec_read_or_write hs with ⟨q, k, rfl⟩ | ⟨w, t', k, hw, ht, rfl⟩
      · exact fun _ _ => rfl
      · intro k' hk'
        exact (Prog.agreeOn_written (hg hij w hw) ht k' hk').symm
    have hcongr := h.within.run_congr hagree
    have hthread := exec_other hs (Ne.symm hij)
    refine ⟨within_exec h.within hs, ?_, ?_⟩
    · rw [hthread, hcongr.1]
      exact h.result
    · rw [hthread]
      intro k hk
      rw [hcongr.2 k hk]
      exact h.rows k hk

/-- **A thread whose rows the others do not write is not disturbed.** -/
theorem undisturbed {t : Keyed key} {progs : ι → Prog ρ α} {i : ι} {K : Set κ} {sched : List ι}
    {c : Config ι key α} (h : Run exec (Spares i K) (init t progs) sched c)
    (hw : (progs i).Within key K) : OnCourse t (progs i) K c i := by
  have hstep : ∀ (c : Config ι key α) j c', OnCourse t (progs i) K c i → Spares i K c j →
      c.exec j = some c' → OnCourse t (progs i) K c' i := fun _ _ _ hi hg hs => hi.exec hg hs
  exact h.inv hstep ⟨hw, rfl, fun _ _ => rfl⟩

/-! ## Disjoint footprints -/

section
variable {t : Keyed key} {progs : ι → Prog ρ α} {K : ι → Set κ} {sched : List ι}
  {c : Config ι key α}

/-- Every thread spares the footprints of the others. -/
theorem run_spares (hw : ∀ i, (progs i).Within key (K i))
    (hd : ∀ i j, i ≠ j → Disjoint (K i) (K j)) (h : Run exec Any (init t progs) sched c) (i : ι) :
    Run exec (Spares i (K i)) (init t progs) sched c := by
  have hstep : ∀ (c : Config ι key α) j c', (∀ i, (c.thread i).prog.Within key (K i)) → Any c j →
      c.exec j = some c' → ∀ i, (c'.thread i).prog.Within key (K i) :=
    fun c j c' hc _ hs i => within_exec (hc i) hs
  apply h.mono_inv hstep _ hw
  intro c j c' hc _ _ hji w hnext
  exact Set.disjoint_left.1 (hd j i hji) ((hc j).nextWrite hnext)

/-- A row that belongs to no footprint stays as it was. -/
theorem find?_unclaimed (hw : ∀ i, (progs i).Within key (K i)) {k : κ} (hk : ∀ i, k ∉ K i)
    (h : Run exec Any (init t progs) sched c) : c.table.find? k = t.find? k := by
  have hstep : ∀ (c : Config ι key α) j c',
      (∀ i, (c.thread i).prog.Within key (K i)) ∧ c.table.find? k = t.find? k → Any c j →
      c.exec j = some c' →
        (∀ i, (c'.thread i).prog.Within key (K i)) ∧ c'.table.find? k = t.find? k := by
    rintro c j c' ⟨hc, ht⟩ - hs
    refine ⟨fun i => within_exec (hc i) hs, ?_⟩
    rw [← ht]
    rcases exec_read_or_write hs with ⟨q, k', rfl⟩ | ⟨w, t', k', hnext, ht', rfl⟩
    · rfl
    · have hfree : key w ∉ ({k} : Set κ) := by
        rintro rfl
        exact hk j ((hc j).nextWrite hnext)
      exact (Prog.agreeOn_written hfree ht' k rfl).symm
  exact (h.inv hstep ⟨hw, rfl⟩).2

/-- **Programs with disjoint footprints**: once all have returned, in whatever interleaving, each
has returned what it returns alone, and the rows are those of every serial order. -/
theorem disjoint (hw : ∀ i, (progs i).Within key (K i))
    (hd : ∀ i j, i ≠ j → Disjoint (K i) (K j)) (h : Run exec Any (init t progs) sched c)
    (hdone : c.Done) {l : List ι} (hl : l.Nodup) (hall : ∀ i, i ∈ l) :
    (∀ i, (c.thread i).prog.result? = some ((progs i).run t).1) ∧
      ∀ k, c.table.find? k = (Prog.serial progs l t).find? k := by
  have hcourse : ∀ i, OnCourse t (progs i) (K i) c i :=
    fun i => undisturbed (run_spares hw hd h i) (hw i)
  refine ⟨fun i => ?_, fun k => ?_⟩
  · obtain ⟨a, ha⟩ := hdone i
    rw [ha, ← ((hcourse i).done ha).1]
    rfl
  · by_cases hk : ∃ i, k ∈ K i
    · obtain ⟨i, hk⟩ := hk
      obtain ⟨a, ha⟩ := hdone i
      rw [Prog.find?_serial hw hd hl (hall i) hk]
      exact ((hcourse i).done ha).2 k hk
    · have hnone : ∀ i, k ∉ K i := fun i hi => hk ⟨i, hi⟩
      rw [find?_unclaimed hw hnone h, Prog.find?_serial_other hw fun i _ => hnone i]

end

end Config
