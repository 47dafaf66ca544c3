import Mathlib

/-!
# Fields and pieces of a list

`fields p l`: the maximal runs of `l` without a separator (`p`), empty runs dropped. `fields_first`
and `fields_last` read the fields of a text that was assembled from its fields, `mem_fields` says
what every field looks like.

A stream may also be cut into pieces of at most `n` elements: their number and total length tell
whether all are full (`full_iff`), and a stream has only one cut into full pieces (`full_unique`).
-/

set_option autoImplicit false

section
variable {α : Type} (p : α → Bool)

def fields (l : List α) : List (List α) := (l.splitOnP p).filter fun x => !x.isEmpty

/-- A possible field: not empty, and without separators. -/
def IsPiece (x : List α) : Prop := x ≠ [] ∧ ∀ a ∈ x, p a = false

end

section
variable {α : Type} {p : α → Bool}

theorem IsPiece.ne_nil {x : List α} (h : IsPiece p x) : x.isEmpty = false := by
  simpa using h.1

/-- A separator ends the field before it. -/
theorem fields_append (l m : List α) {a : α} (ha : p a = true) :
    fields p (l ++ a :: m) = fields p l ++ fields p m := by
  rw [fields, List.splitOnP_append_cons l m ha, List.filter_append]
  rfl

theorem fields_last {x : List α} (h : IsPiece p x) : fields p x = [x] := by
  rw [fields, List.splitOnP_eq_singleton h.2, List.filter_cons_of_pos (by simp [h.ne_nil])]
  rfl

theorem fields_first {x : List α} (h : IsPiece p x) (m : List α) {a : α} (ha : p a = true) :
    fields p (x ++ a :: m) = x :: fields p m := by
  rw [fields_append x m ha, fields_last h]
  rfl

theorem fields_cons_sep (m : List α) {a : α} (ha : p a = true) :
    fields p (a :: m) = fields p m := fields_append [] m ha

/-- `dropWhile` stops where the test fails. -/
theorem head_dropWhile_eq {l m : List α} {a : α} (h : l.dropWhile p = a :: m) : p a = false := by
  have := List.head_dropWhile_not p (l := l) (by simp [h])
  simpa [h] using this

/-- Leading separators do not matter. -/
theorem fields_dropWhile (l : List α) : fields p (l.dropWhile p) = fields p l := by
  induction l with
  | nil => rfl
  | cons a l ih =>
    by_cases ha : p a = true
    · rw [List.dropWhile_cons_of_pos ha, ih, fields_cons_sep l ha]
    · rw [List.dropWhile_cons_of_neg ha]

theorem mem_splitOnP {l x : List α} (h : x ∈ l.splitOnP p) : ∀ a ∈ x, p a = false ∧ a ∈ l := by
  induction l generalizing x with
  | nil => simp_all
  | cons b l ih =>
    rw [List.splitOnP_cons_eq_if_modifyHead] at h
    split at h
    · rcases List.mem_cons.1 h with rfl | h
      · simp
      · intro a ha
        exact ⟨(ih h a ha).1, .tail _ (ih h a ha).2⟩
    · rename_i hb
      obtain ⟨y, ys, hy⟩ := List.exists_cons_of_ne_nil (List.splitOnP_ne_nil p l)
      rw [hy] at h ih
      rcases List.mem_cons.1 h with rfl | h
      · intro a ha
        rcases List.mem_cons.1 ha with rfl | ha
        · exact ⟨by simpa using hb, List.mem_cons_self⟩
        · exact ⟨(ih List.mem_cons_self a ha).1, .tail _ (ih List.mem_cons_self a ha).2⟩
      · intro a ha
        exact ⟨(ih (.tail _ h) a ha).1, .tail _ (ih (.tail _ h) a ha).2⟩

theorem mem_fields {l x : List α} (h : x ∈ fields p l) : IsPiece p x ∧ ∀ a ∈ x, a ∈ l := by
  obtain ⟨hx, hne⟩ := List.mem_filter.1 h
  exact ⟨⟨by simpa using hne, fun a ha => (mem_splitOnP hx a ha).1⟩,
    fun a ha => (mem_splitOnP hx a ha).2⟩

end

/-! ## Pieces -/

section
variable {α : Type} {n : Nat} {L L' : List (List α)}

theorem length_flatten_le (h : ∀ x ∈ L, x.length ≤ n) : L.flatten.length ≤ n * L.length := by
  induction L with
  | nil => simp
  | cons x L ih =>
    have hx := h x List.mem_cons_self
    have hL := ih fun y hy => h y (.tail _ hy)
    simp only [List.flatten_cons, List.length_append, List.length_cons, Nat.mul_succ]
    omega

theorem full_iff (h : ∀ x ∈ L, x.length ≤ n) :
    L.flatten.length = n * L.length ↔ ∀ x ∈ L, x.length = n := by
  induction L with
  | nil => simp
  | cons x L ih =>
    have hx := h x List.mem_cons_self
    have hrest : ∀ y ∈ L, y.length ≤ n := fun y hy => h y (.tail _ hy)
    have hL := length_flatten_le hrest
    have ih := ih hrest
    simp only [List.flatten_cons, List.length_append, List.length_cons, Nat.mul_succ,
      List.forall_mem_cons, ← ih]
    omega

theorem full_unique (hn : 0 < n) (hL : ∀ x ∈ L, x.length = n) (hL' : ∀ x ∈ L', x.length = n)
    (h : L.flatten = L'.flatten) : L = L' := by
  have hle : ∀ {M : List (List α)}, (∀ x ∈ M, x.length = n) → ∀ x ∈ M, x.length ≤ n :=
    fun hM x hx => (hM x hx).le
  have hmap : ∀ {M : List (List α)}, (∀ x ∈ M, x.length = n) →
      M.map List.length = List.replicate M.length n := by
    intro M hM
    rw [List.map_congr_left hM, List.map_const']
  have hlen := congrArg List.length h
  rw [(full_iff (hle hL)).2 hL, (full_iff (hle hL')).2 hL'] at hlen
  rw [List.eq_iff_flatten_eq]
  exact ⟨h, by rw [hmap hL, hmap hL', Nat.eq_of_mul_eq_mul_left hn hlen]⟩

end
