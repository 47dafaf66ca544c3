import Mathlib

/-!
# Tables with a primary key

`Keyed key`: rows in insertion order, no two with the same key. `getAll`, `update`, `replace` and
`erase` are the statements of a one-table store; every later proof sees a table through `find?`
(the row of one key) and `total` (the sum of one column), and each statement has one lemma for
each of the two.
-/

set_option autoImplicit false

/-- Rows with pairwise distinct keys, in insertion order. -/
structure Keyed {ρ κ : Type} (key : ρ → κ) where
  rows : List ρ
  nodup : (rows.map key).Nodup
  deriving DecidableEq

namespace Keyed

section
variable {ρ κ : Type} {key : ρ → κ}

@[ext] theorem ext {t t' : Keyed key} (h : t.rows = t'.rows) : t = t' := by
  cases t; cases t'; cases h; rfl

def empty : Keyed key := ⟨[], List.nodup_nil⟩

/-- `SELECT * WHERE p`: the rows that satisfy `p`, in table order. -/
def getAll (t : Keyed key) (p : ρ → Bool) : List ρ := t.rows.filter p

theorem mem_getAll {t : Keyed key} {p : ρ → Bool} {r : ρ} :
    r ∈ t.getAll p ↔ r ∈ t.rows ∧ p r = true := List.mem_filter

/-- The sum of the column `f`. -/
def total {M : Type} [AddCommMonoid M] (t : Keyed key) (f : ρ → M) : M := (t.rows.map f).sum

end

section
variable {ρ κ : Type} {key : ρ → κ} [DecidableEq κ]

/-- The row with key `k`. -/
def find? (t : Keyed key) (k : κ) : Option ρ := t.rows.find? fun r => key r = k

/-- `r` in the place of a row with its key. -/
def overwrite (key : ρ → κ) (r x : ρ) : ρ := if key x = key r then r else x

theorem key_overwrite (key : ρ → κ) (r x : ρ) : key (overwrite key r x) = key x := by
  unfold overwrite
  split
  · rename_i h; exact h.symm
  · rfl

theorem map_key_overwrite (key : ρ → κ) (r : ρ) (l : List ρ) :
    (l.map (overwrite key r)).map key = l.map key := by
  rw [List.map_map]
  exact List.map_congr_left fun x _ => key_overwrite key r x

/-- `UPDATE`: overwrites the row with `r`'s key, if there is one. -/
def update (t : Keyed key) (r : ρ) : Keyed key where
  rows := t.rows.map (overwrite key r)
  nodup := by rw [map_key_overwrite]; exact t.nodup

/-- `DELETE` of the row with key `k`. -/
def erase (t : Keyed key) (k : κ) : Keyed key where
  rows := t.rows.filter fun x => key x ≠ k
  nodup := t.nodup.sublist (List.filter_sublist.map key)

/-- `REPLACE`: deletes the row with `r`'s key and inserts `r` as the newest row. -/
def replace (t : Keyed key) (r : ρ) : Keyed key where
  rows := (t.erase (key r)).rows ++ [r]
  nodup := by
    rw [List.map_append, List.nodup_append']
    refine ⟨(t.erase (key r)).nodup, by simp, ?_⟩
    intro k hk hk'
    obtain ⟨x, hx, rfl⟩ := List.mem_map.1 hk
    simp only [erase, List.mem_filter, decide_eq_true_eq] at hx
    exact hx.2 (by simpa using hk')

/-! ## Reading one key -/

theorem find?_list {l : List ρ} (h : (l.map key).Nodup) {k : κ} {r : ρ} :
    l.find? (fun x => key x = k) = some r ↔ r ∈ l ∧ key r = k := by
  induction l with
  | nil => simp
  | cons x l ih =>
    simp only [List.map_cons, List.nodup_cons] at h
    by_cases hx : key x = k
    · rw [List.find?_cons_of_pos (by simpa using hx)]
      refine ⟨fun he => ?_, fun ⟨hm, hk⟩ => ?_⟩
      · obtain rfl := Option.some.inj he
        exact ⟨List.mem_cons_self, hx⟩
      · rcases List.mem_cons.1 hm with rfl | hm
        · rfl
        · exact absurd (hx.trans hk.symm ▸ List.mem_map_of_mem hm) h.1
    · rw [List.find?_cons_of_neg (by simpa using hx), ih h.2, List.mem_cons]
      refine ⟨fun ⟨hm, hk⟩ => ⟨.inr hm, hk⟩, fun ⟨hm, hk⟩ => ⟨hm.resolve_left ?_, hk⟩⟩
      rintro rfl
      exact hx hk

theorem find?_eq_some {t : Keyed key} {k : κ} {r : ρ} :
    t.find? k = some r ↔ r ∈ t.rows ∧ key r = k := find?_list t.nodup

theorem find?_key {t : Keyed key} {k : κ} {r : ρ} (h : t.find? k = some r) : key r = k :=
  (find?_eq_some.1 h).2

theorem find?_mem {t : Keyed key} {k : κ} {r : ρ} (h : t.find? k = some r) : r ∈ t.rows :=
  (find?_eq_some.1 h).1

theorem find?_of_mem {t : Keyed key} {r : ρ} (h : r ∈ t.rows) : t.find? (key r) = some r :=
  find?_eq_some.2 ⟨h, rfl⟩

theorem eq_of_key {t : Keyed key} {x y : ρ} (hx : x ∈ t.rows) (hy : y ∈ t.rows)
    (h : key x = key y) : x = y := by
  have hf := find?_of_mem hx
  rw [h, find?_of_mem hy] at hf
  exact (Option.some.inj hf).symm

theorem find?_eq_none {t : Keyed key} {k : κ} :
    t.find? k = none ↔ ∀ r ∈ t.rows, key r ≠ k := by
  simp [find?, List.find?_eq_none]

theorem find?_update (t : Keyed key) (r : ρ) (k : κ) :
    (t.update r).find? k = if key r = k then (t.find? k).map fun _ => r else t.find? k := by
  have hf : (fun x => decide (key x = k)) ∘ overwrite key r =
      fun x => decide (key x = k) := by
    funext x
    simp only [Function.comp_apply, key_overwrite]
  simp only [find?, update, List.find?_map, hf]
  cases hx : t.rows.find? fun x => decide (key x = k) with
  | none => simp
  | some x =>
    have hk : key x = k := (find?_list t.nodup).1 hx |>.2
    by_cases h : key r = k
    · simp [overwrite, hk, h]
    · simp [overwrite, hk, h, Ne.symm h]

theorem find?_erase (t : Keyed key) (k' k : κ) :
    (t.erase k').find? k = if k' = k then none else t.find? k := by
  split
  · rename_i h
    subst h
    rw [find?_eq_none]
    intro r hr
    simp only [erase, List.mem_filter, decide_eq_true_eq] at hr
    exact hr.2
  · rename_i h
    apply Option.ext
    intro r
    simp only [find?_eq_some, erase, List.mem_filter, decide_eq_true_eq]
    constructor
    · rintro ⟨⟨hm, -⟩, hk⟩
      exact ⟨hm, hk⟩
    · rintro ⟨hm, hk⟩
      exact ⟨⟨hm, hk ▸ Ne.symm h⟩, hk⟩

theorem find?_replace (t : Keyed key) (r : ρ) (k : κ) :
    (t.replace r).find? k = if key r = k then some r else t.find? k := by
  have happ : (t.replace r).find? k =
      ((t.erase (key r)).find? k).or (if key r = k then some r else none) := by
    by_cases h : key r = k <;> simp [find?, replace, List.find?_append, h]
  rw [happ, find?_erase]
  split <;> simp

/-- `UPDATE` and `REPLACE` agree on an existing row. -/
theorem find?_written {t t' : Keyed key} {r x : ρ} (h : t.find? (key r) = some x)
    (ht : t' = t.update r ∨ t' = t.replace r) (k : κ) :
    t'.find? k = if key r = k then some r else t.find? k := by
  rcases ht with rfl | rfl
  · rw [find?_update]
    split
    · rename_i hk
      rw [← hk, h]
      rfl
    · rfl
  · exact find?_replace t r k

theorem mem_update {t : Keyed key} {r x : ρ} (h : x ∈ (t.update r).rows) :
    x = r ∨ (x ∈ t.rows ∧ key x ≠ key r) := by
  have hx := find?_of_mem h
  rw [find?_update] at hx
  split at hx
  · obtain ⟨-, -, rfl⟩ := Option.map_eq_some_iff.1 hx
    exact .inl rfl
  · rename_i hne
    exact .inr ⟨find?_mem hx, Ne.symm hne⟩

theorem mem_update_other {t : Keyed key} {r x : ρ} (hx : x ∈ t.rows) (hne : key x ≠ key r) :
    x ∈ (t.update r).rows := by
  apply find?_mem
  rw [find?_update, if_neg (Ne.symm hne)]
  exact find?_of_mem hx

theorem mem_update_self {t : Keyed key} {r old : ρ} (h : old ∈ t.rows) (hk : key old = key r) :
    r ∈ (t.update r).rows := by
  apply find?_mem
  rw [find?_update, if_pos rfl, ← hk, find?_of_mem h]
  rfl

/-- `UPDATE` with a change of a row of the table, row by row. -/
theorem rows_update {t : Keyed key} {old : ρ} (h : old ∈ t.rows) (f : ρ → ρ)
    (hk : key (f old) = key old) :
    (t.update (f old)).rows = t.rows.map fun x => if key x = key old then f x else x := by
  refine List.map_congr_left fun x hx => ?_
  rw [overwrite, hk]
  split
  · rename_i he
    rw [eq_of_key hx h he]
  · rfl

theorem update_self {t : Keyed key} {r : ρ} (h : r ∈ t.rows) : t.update r = t := by
  apply Keyed.ext
  have hrows := rows_update h id rfl
  simpa using hrows

theorem mem_erase {t : Keyed key} {k : κ} {x : ρ} :
    x ∈ (t.erase k).rows ↔ x ∈ t.rows ∧ key x ≠ k := by
  simp [erase]

theorem mem_replace {t : Keyed key} {r x : ρ} :
    x ∈ (t.replace r).rows ↔ x = r ∨ (x ∈ t.rows ∧ key x ≠ key r) := by
  simp only [replace, erase, List.mem_append, List.mem_filter, decide_eq_true_eq,
    List.mem_singleton]
  exact Or.comm

theorem rows_replace_new {t : Keyed key} {r : ρ} (h : t.find? (key r) = none) :
    (t.replace r).rows = t.rows ++ [r] := by
  have he : (t.erase (key r)).rows = t.rows := by
    rw [erase, List.filter_eq_self]
    intro x hx
    simpa using find?_eq_none.1 h x hx
  simp [replace, he]

/-- A `SELECT` that names the key returns that key's row, if it passes the rest of the test. -/
theorem getAll_key (t : Keyed key) (k : κ) (q : ρ → Bool) :
    t.getAll (fun r => key r = k && q r) = ((t.find? k).filter q).toList := by
  obtain ⟨l, h⟩ := t
  simp only [getAll, find?]
  induction l with
  | nil => rfl
  | cons x l ih =>
    simp only [List.map_cons, List.nodup_cons] at h
    by_cases hx : key x = k
    · have hl : l.filter (fun r => key r = k && q r) = [] := by
        rw [List.filter_eq_nil_iff]
        intro y hy
        have : key y ≠ k := fun hk => h.1 ((hx.trans hk.symm) ▸ List.mem_map_of_mem hy)
        simp [this]
      rw [List.find?_cons_of_pos (by simpa using hx)]
      by_cases hq : q x = true
      · rw [List.filter_cons_of_pos (by simp [hx, hq]), hl]
        simp [Option.filter, hq]
      · rw [List.filter_cons_of_neg (by simp [hq]), hl]
        simp [Option.filter, hq]
    · rw [List.filter_cons_of_neg (by simp [hx]), List.find?_cons_of_neg (by simpa using hx)]
      exact ih h.2

theorem getAll_eq_key (t : Keyed key) (k : κ) :
    t.getAll (fun r => key r = k) = (t.find? k).toList := by
  have h := getAll_key t k (fun _ => true)
  simp only [Bool.and_true] at h
  rw [h]
  cases t.find? k <;> rfl

/-- A `DELETE` removes one row. -/
theorem length_erase {t : Keyed key} {k : κ} {r : ρ} (h : t.find? k = some r) :
    (t.erase k).rows.length + 1 = t.rows.length := by
  have hsplit := List.length_eq_length_filter_add (l := t.rows) fun x => decide (key x = k)
  have hone : t.rows.filter (fun x => decide (key x = k)) = [r] := by
    have hget := getAll_eq_key t k
    rw [h] at hget
    exact hget
  have hrest : (t.erase k).rows = t.rows.filter fun x => !decide (key x = k) := by
    simp only [erase, ne_eq, decide_not]
  rw [hone] at hsplit
  rw [hrest, hsplit, List.length_singleton, Nat.add_comm]

/-! ## Column totals -/

section
variable {M : Type} [AddCommMonoid M] (f : ρ → M)

/-- An `UPDATE` trades the old row's entry for the new row's. -/
theorem total_update {t : Keyed key} {r old : ρ} (h : t.find? (key r) = some old) :
    (t.update r).total f + f old = t.total f + f r := by
  obtain ⟨l, hl⟩ := t
  rw [find?_eq_some] at h
  simp only [total, update] at h ⊢
  obtain ⟨hm, hk⟩ := h
  induction l with
  | nil => simp at hm
  | cons x l ih =>
    simp only [List.map_cons, List.nodup_cons, List.sum_cons] at hl ⊢
    rcases List.mem_cons.1 hm with rfl | hm
    · have hrest : l.map (overwrite key r) = l := by
        conv => rhs; rw [← List.map_id l]
        refine List.map_congr_left fun y hy => if_neg fun he => ?_
        exact hl.1 ((hk.trans he.symm) ▸ List.mem_map_of_mem hy)
      rw [hrest, overwrite, if_pos hk, add_right_comm, add_comm (f r), add_right_comm]
    · have hx : key x ≠ key r := fun he => hl.1 (he.trans hk.symm ▸ List.mem_map_of_mem hm)
      rw [overwrite, if_neg hx, add_assoc, ih hl.2 hm, ← add_assoc]

theorem total_replace_new {t : Keyed key} {r : ρ} (h : t.find? (key r) = none) :
    (t.replace r).total f = t.total f + f r := by
  simp [total, rows_replace_new h]

end

end

end Keyed
