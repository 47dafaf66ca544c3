import Mathlib

/-!
# Packets in flight

A network is one list of packets, oldest first; `place` says where each is. The queue of a place
is what is there, in order: `Mail.takeFirst` removes its head, and a packet appended to the list is
the last of its place. Where every packet has an owner, `Mail.taken` and `Mail.posted` keep "at most
one packet for each owner".
-/

set_option autoImplicit false

namespace Mail

section
variable {π ℓ : Type} [DecidableEq ℓ] (place : π → ℓ)

/-- The packets at a place, oldest first. -/
def queue (ps : List π) (l : ℓ) : List π := ps.filter fun p => place p = l

/-- The packets without the oldest one at a place. -/
def takeFirst (ps : List π) (l : ℓ) : List π := ps.eraseP fun p => place p = l

variable {place} {ps : List π} {l l' : ℓ} {p q : π}

theorem mem_queue : p ∈ queue place ps l ↔ p ∈ ps ∧ place p = l := by
  simp [queue]

theorem queue_append (ps qs : List π) (l : ℓ) :
    queue place (ps ++ qs) l = queue place ps l ++ queue place qs l := List.filter_append ..

theorem queue_here (h : place p = l) : queue place [p] l = [p] := by
  simp [queue, h]

theorem queue_elsewhere (h : place p ≠ l) : queue place [p] l = [] := by
  simp [queue, h]

/-- The head of a queue, in the list. -/
theorem head_split (h : (queue place ps l).head? = some p) :
    ∃ A B, ps = A ++ p :: B ∧ place p = l ∧ (∀ q ∈ A, place q ≠ l) ∧
      takeFirst place ps l = A ++ B := by
  induction ps with
  | nil => cases h
  | cons x ps ih =>
    by_cases hx : place x = l
    · rw [queue, List.filter_cons_of_pos (by simpa using hx)] at h
      cases h
      exact ⟨[], ps, rfl, hx, by simp, List.eraseP_cons_of_pos (by simpa using hx)⟩
    · rw [queue, List.filter_cons_of_neg (by simpa using hx)] at h
      obtain ⟨A, B, hps, hp, hA, htake⟩ := ih h
      refine ⟨x :: A, B, by rw [hps]; rfl, hp, fun q hq => ?_, ?_⟩
      · rcases List.mem_cons.1 hq with rfl | hq
        · exact hx
        · exact hA q hq
      · rw [takeFirst, List.eraseP_cons_of_neg (by simpa using hx)]
        exact congrArg (x :: ·) htake

theorem head_place (h : (queue place ps l).head? = some p) : p ∈ ps ∧ place p = l :=
  mem_queue.1 (List.mem_of_mem_head? h)

theorem perm_takeFirst (h : (queue place ps l).head? = some p) :
    ps.Perm (p :: takeFirst place ps l) := by
  obtain ⟨A, B, hps, -, -, htake⟩ := head_split h
  rw [htake, hps]
  exact List.perm_middle

theorem mem_takeFirst (h : (queue place ps l).head? = some p) (hq : q ∈ ps) :
    q = p ∨ q ∈ takeFirst place ps l := by
  have := (perm_takeFirst h).mem_iff.1 hq
  exact List.mem_cons.1 this

theorem mem_of_mem_takeFirst (h : q ∈ takeFirst place ps l) : q ∈ ps := List.mem_of_mem_eraseP h

theorem queue_takeFirst_sublist :
    (queue place (takeFirst place ps l) l').Sublist (queue place ps l') :=
  List.eraseP_sublist.filter _

theorem queue_takeFirst (h : (queue place ps l).head? = some p) :
    queue place ps l = p :: queue place (takeFirst place ps l) l := by
  obtain ⟨A, B, hps, hp, hA, htake⟩ := head_split h
  have hnil : queue place A l = [] := by
    rw [queue, List.filter_eq_nil_iff]
    intro q hq
    simpa using hA q hq
  rw [htake, hps, queue_append, queue_append, hnil, List.nil_append, List.nil_append, queue,
    List.filter_cons_of_pos (by simpa using hp)]
  rfl

theorem queue_takeFirst_other (h : (queue place ps l).head? = some p) (hne : l' ≠ l) :
    queue place (takeFirst place ps l) l' = queue place ps l' := by
  obtain ⟨A, B, hps, hp, -, htake⟩ := head_split h
  have hpl : place p ≠ l' := fun he => hne (he.symm.trans hp)
  rw [htake, hps, queue_append, queue_append]
  congr 1
  exact (List.filter_cons_of_neg (by simpa using hpl)).symm

end

/-! ## One packet for each owner -/

section
variable {π ℓ ω : Type} [DecidableEq ℓ] {place : π → ℓ} {owner : π → ω} {ps : List π} {l : ℓ}
  {p q : π}

theorem eq_of_owner (h : (ps.map owner).Nodup) (hp : p ∈ ps) (hq : q ∈ ps)
    (he : owner p = owner q) : p = q := List.inj_on_of_nodup_map h hp hq he

/-- Nothing else has the owner of the packet that was taken. -/
theorem taken (h : (ps.map owner).Nodup) (hp : (queue place ps l).head? = some p) :
    ((takeFirst place ps l).map owner).Nodup ∧ ∀ q ∈ takeFirst place ps l, owner q ≠ owner p := by
  have hnd := ((perm_takeFirst hp).map owner).nodup_iff.1 h
  rw [List.map_cons, List.nodup_cons] at hnd
  exact ⟨hnd.2, fun q hq he => hnd.1 (he ▸ List.mem_map_of_mem hq)⟩

theorem posted (h : (ps.map owner).Nodup) (hp : ∀ q ∈ ps, owner q ≠ owner p) :
    ((ps ++ [p]).map owner).Nodup := by
  rw [List.map_append, List.nodup_append']
  refine ⟨h, by simp, fun o ho ho' => ?_⟩
  obtain ⟨q, hq, rfl⟩ := List.mem_map.1 ho
  exact hp q hq (by simpa using ho')

end

end Mail
