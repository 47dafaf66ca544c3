import Micropayment.Proof.Payments

/-!
# Every payment is announced once

The notification of a payment is printed by the client that passes the payment on: none is printed
twice or made up, and at rest none is missing, unless its client has left in between
(`payments_notified`). `World.notices` is what has been printed or has still to be; `receiving`
reads the next message only when it has announced the one before (`Reading`), so nothing in
`announcing` is overwritten.
-/

set_option autoImplicit false

namespace Micropayment

/-- The message is on a connection of the server. -/
def Place.Away {ι : Type} : Place ι → Prop
  | .toServer _ | .toClient _ => True
  | .port _ | .buffer _ => False

section
variable {ι : Type}

/-- A notification: the client that prints it, and the payer and the amount it names. -/
abbrev Notice (ι : Type) := ι × Str × Str

def noticeAt (k : ι) (transferInfo : List Str) : List (Notice ι) :=
  (notification transferInfo).toList.map (Prod.mk k)

/-- The notification of a message that `receiving` has still to pass on. -/
def Packet.unread (q : Packet ι) : List (Notice ι) :=
  match q.place with
  | .port k | .buffer k => noticeAt k (split q.text "#".toList)
  | _ => []

/-- The notification of a message passed on. -/
def said (x : Packet ι × List Str) : List (Notice ι) :=
  match x.1.place with
  | .toServer k => noticeAt k x.2
  | _ => []

/-- The notification that `receiving` has still to print. -/
def Program.unsaid (p : Program ι) : List (Notice ι) := p.announcing.toList.flatMap said

/-- The notifications printed, and those still to be printed. -/
def World.notices [Fintype ι] (w : World ι) : Multiset (Notice ι) :=
  ↑(w.notified.flatMap said) + (tally (fun p => (↑p.unsaid : Multiset (Notice ι))) w.programs +
    ↑(w.packets.flatMap Packet.unread))

/-- The notification that is due for a payment. -/
def Happening.notice (own : ι → Str) : Happening ι → List (Notice ι)
  | .pay i _ amount peer _ => [(peer, own i, toStr amount)]
  | _ => []

end

section
variable {ι : Type} [DecidableEq ι]

/-- One message at a time is in `buffer` or to be announced. -/
structure Reading (w : World ι) (k : ι) : Prop where
  one : (Mail.queue Packet.place w.packets (.buffer k)).length ≤ 1
  clear : (w.programs k).announcing ≠ none → w.next (.buffer k) = none
  opened : (w.programs k).announcing ≠ none → (w.programs k).clientServerOpen = true

/-- Nothing happens at the listening ports of the clients. -/
structure Silent (w w' : World ι) : Prop where
  notified : w'.notified = w.notified
  announcing : ∀ k, (w'.programs k).announcing = (w.programs k).announcing
  opened : ∀ k, (w.programs k).clientServerOpen = true → (w'.programs k).clientServerOpen = true
  unread : (w'.packets.flatMap Packet.unread).Perm (w.packets.flatMap Packet.unread)
  buffer : ∀ k, Mail.queue Packet.place w'.packets (.buffer k) =
    Mail.queue Packet.place w.packets (.buffer k)

end

/-! ## What happens elsewhere -/

section
variable {ι : Type} {q : Packet ι}

theorem Packet.unread_away (h : q.place.Away) : q.unread = [] := by
  unfold unread
  cases hplace : q.place with
  | toServer | toClient => rfl
  | port | buffer =>
    rw [hplace] at h
    exact h.elim

theorem Packet.unread_at {k : ι} (h : q.place = .port k ∨ q.place = .buffer k) :
    q.unread = noticeAt k (split q.text "#".toList) := by
  unfold unread
  rcases h with h | h <;> rw [h]

theorem noticeAt_transactMsg {u : Str} (hu : IsArg u) {x : P2pCall} (hx : x.Valid) (k : ι) :
    noticeAt k (split (transactMsg u x.1 x.2) "#".toList) = [(k, u, toStr x.1)] := by
  rw [transactMsg, split_three hu (isArg_toStr x.1) hx.receiver]
  rfl

end

section
variable {ι : Type} [DecidableEq ι] {w w' w'' : World ι} {i k : ι} {p : Program ι} {q : Packet ι}

namespace Silent

theorem trans (h : Silent w w') (h' : Silent w' w'') : Silent w w'' where
  notified := h'.notified.trans h.notified
  announcing k := (h'.announcing k).trans (h.announcing k)
  opened k ho := h'.opened k (h.opened k ho)
  unread := h'.unread.trans h.unread
  buffer k := (h'.buffer k).trans (h.buffer k)

/-- A main thread goes on. -/
theorem set (hann : p.announcing = (w.programs i).announcing)
    (hopen : (w.programs i).clientServerOpen = true → p.clientServerOpen = true) :
    Silent w (w.set i p) := by
  refine ⟨rfl, fun k => ?_, fun k ho => ?_, .refl _, fun _ => rfl⟩
  · by_cases hk : k = i
    · rw [hk, World.programs_set_self, hann]
    · rw [World.programs_set_other w p hk]
  · by_cases hk : k = i
    · subst hk
      rw [World.programs_set_self]
      exact hopen ho
    · rw [World.programs_set_other w p hk]
      exact ho

/-- Messages are sent over the connections of the server. -/
theorem posted {ps : List (Packet ι)} (h : ∀ x ∈ ps, x.place.Away) : Silent w (w.post ps) := by
  refine ⟨rfl, fun _ => rfl, fun _ ho => ho, ?_, fun k => ?_⟩
  · have hnil : ps.flatMap Packet.unread = [] := by
      rw [List.flatMap_eq_nil_iff]
      exact fun x hx => Packet.unread_away (h x hx)
    show ((w.packets ++ ps).flatMap Packet.unread).Perm _
    rw [List.flatMap_append, hnil, List.append_nil]
  · have hnil : Mail.queue Packet.place ps (.buffer k) = [] := by
      rw [List.eq_nil_iff_forall_not_mem]
      intro x hx
      obtain ⟨hx, hplace⟩ := Mail.mem_queue.1 hx
      have haway := h x hx
      rw [hplace] at haway
      exact haway
    show Mail.queue Packet.place (w.packets ++ ps) _ = _
    rw [Mail.queue_append, hnil, List.append_nil]

theorem taken {l : Place ι} (hq : w.next l = some q) (hl : l.Away) : Silent w (w.take l) := by
  have hplace : q.place = l := (Mail.head_place hq).2
  refine ⟨rfl, fun _ => rfl, fun _ ho => ho, ?_, fun k => ?_⟩
  · have hperm := (Mail.perm_takeFirst hq).flatMap_right Packet.unread
    rw [List.flatMap_cons, Packet.unread_away (hplace ▸ hl)] at hperm
    exact hperm.symm
  · refine Mail.queue_takeFirst_other hq ?_
    rintro rfl
    exact hl

/-- The main thread sends the server a request. -/
theorem ask (hann : p.announcing = (w.programs i).announcing)
    (hopen : (w.programs i).clientServerOpen = true → p.clientServerOpen = true) (r : Request)
    (text : Str) : Silent w (w.request i p r (.toServer i) text) := by
  have hset := set (p := { p with main := .waiting r, requests := p.requests + 1 }) hann hopen
  refine hset.trans (posted fun x hx => ?_)
  obtain rfl := List.mem_singleton.1 hx
  trivial

theorem resume (w : World ι) (i : ι) (text : Str) (info : Except ListError ListInfo)
    (r : Request) : Silent w (w.resume i text info r) := by
  obtain ⟨p, he, hp⟩ := w.resume_eq i text info r
  rw [he]
  exact set hp.announcing hp.opened

theorem serve {c : Conn} (hq : w.next (.toServer k) = some q) (resume : Bool)
    (stray : Option Nat) : Silent w (w.serve k c q resume stray) := by
  have hreplies : ∀ x ∈ w.replies c q stray, x.place.Away := by
    intro x hx
    obtain ⟨i, hi⟩ := place_of_mem_replies hx
    rw [hi]
    trivial
  have h := (taken hq trivial).trans (posted hreplies)
  exact ⟨h.notified, h.announcing, h.opened, h.unread, h.buffer⟩

theorem notices [Fintype ι] (h : Silent w w') : w'.notices = w.notices := by
  have htally : tally (fun p => (↑p.unsaid : Multiset (Notice ι))) w'.programs =
      tally (fun p => ↑p.unsaid) w.programs :=
    tally_congr _ fun k => by rw [Program.unsaid, Program.unsaid, h.announcing k]
  unfold World.notices
  rw [h.notified, htally, Multiset.coe_eq_coe.2 h.unread]

theorem reading (h : Silent w w') (hr : Reading w k) : Reading w' k := by
  refine ⟨?_, fun ha => ?_, fun ha => ?_⟩
  · rw [h.buffer]
    exact hr.one
  · rw [h.announcing] at ha
    rw [World.next, h.buffer]
    exact hr.clear ha
  · rw [h.announcing] at ha
    exact h.opened k (hr.opened ha)

end Silent

/-! ## What happens at the listening ports -/

end

namespace World

section
variable {ι : Type} [Fintype ι]

theorem notices_post (w : World ι) (q : Packet ι) :
    (w.post [q]).notices = ↑q.unread + w.notices := by
  unfold notices post
  dsimp only
  rw [List.flatMap_append, List.flatMap_singleton, ← Multiset.coe_add]
  abel

theorem notices_set [DecidableEq ι] (w : World ι) (i : ι) (p : Program ι) :
    (w.set i p).notices + ↑(w.programs i).unsaid = w.notices + ↑p.unsaid := by
  have htally := tally_update (fun p : Program ι => (↑p.unsaid : Multiset (Notice ι)))
    w.programs i p
  unfold notices set
  dsimp only
  generalize tally (fun p : Program ι => (↑p.unsaid : Multiset (Notice ι)))
    (Function.update w.programs i p) = sum at htally ⊢
  calc ↑(w.notified.flatMap said) + (sum + ↑(w.packets.flatMap Packet.unread)) +
        ↑(w.programs i).unsaid
      = ↑(w.notified.flatMap said) + (sum + ↑(w.programs i).unsaid +
          ↑(w.packets.flatMap Packet.unread)) := by abel
    _ = _ := by
        rw [htally]
        abel

theorem notices_take [DecidableEq ι] {w : World ι} {l : Place ι} {q : Packet ι}
    (hq : w.next l = some q) : w.notices = ↑q.unread + (w.take l).notices := by
  have hperm : (w.packets.flatMap Packet.unread).Perm
      (q.unread ++ (w.take l).packets.flatMap Packet.unread) :=
    (Mail.perm_takeFirst hq).flatMap_right _
  have hsum := Multiset.coe_eq_coe.2 hperm
  rw [← Multiset.coe_add] at hsum
  have hnotified : (w.take l).notified = w.notified := rfl
  have hprograms : (w.take l).programs = w.programs := rfl
  unfold notices
  rw [hsum, hnotified, hprograms]
  abel

end

section
variable {ι : Type} [DecidableEq ι] {w w' : World ι} {i : ι}

/-- `receiving` reads a message only when it is done with the one before. -/
theorem accepting (hs : w.step (.accept i) = some w') :
    w.next (.buffer i) = none ∧ (w.programs i).announcing = none := by
  simp only [step] at hs
  split at hs
  · rename_i hbuffer
    obtain ⟨⟨-, hann⟩, -⟩ := Option.ite_none_right_eq_some.1 hs
    exact ⟨hbuffer, hann⟩
  · cases hs

end

end World

section
variable {ι : Type} [DecidableEq ι] {w w' : World ι} {i k : ι} {q : Packet ι}

namespace Reading

/-- A payment comes in. -/
theorem pay (h : Reading w k) (p : Program ι) (hann : p.announcing = (w.programs i).announcing)
    (hopen : p.clientServerOpen = (w.programs i).clientServerOpen) (peer : ι) (text : Str) :
    Reading (w.request i p .transfer (.port peer) text) k := by
  have hset : Silent w
      (w.set i { p with main := .waiting .transfer, requests := p.requests + 1 }) :=
    .set hann (by rw [hopen]; exact id)
  have hr := hset.reading h
  have hqueue : Mail.queue Packet.place (w.request i p .transfer (.port peer) text).packets
      (.buffer k) = Mail.queue Packet.place w.packets (.buffer k) := by
    show Mail.queue Packet.place (w.packets ++ [_]) _ = _
    rw [Mail.queue_append, Mail.queue_elsewhere (by nofun), List.append_nil]
  refine ⟨?_, fun ha => ?_, hr.opened⟩
  · rw [hqueue]
    exact h.one
  · rw [World.next, hqueue]
    exact hr.clear ha

/-- `receiving` reads a message. -/
theorem accept (h : Reading w k) (hq : w.next (.port i) = some q)
    (hbuffer : w.next (.buffer i) = none) (hann : (w.programs i).announcing = none) :
    Reading ((w.take (.port i)).post [{ q with place := .buffer i }]) k := by
  have hqueue : ∀ k, Mail.queue Packet.place
      ((w.take (.port i)).post [{ q with place := .buffer i }]).packets (.buffer k) =
        Mail.queue Packet.place w.packets (.buffer k) ++
          Mail.queue Packet.place [{ q with place := .buffer i }] (.buffer k) := by
    intro k
    show Mail.queue Packet.place (Mail.takeFirst Packet.place w.packets _ ++ _) _ = _
    rw [Mail.queue_append, Mail.queue_takeFirst_other hq (by nofun)]
  by_cases hk : k = i
  · subst hk
    have hnil := List.head?_eq_none_iff.1 hbuffer
    refine ⟨?_, fun ha => absurd hann ha, fun ha => absurd hann ha⟩
    rw [hqueue, hnil, Mail.queue_here rfl]
    exact le_rfl
  · have hsame : Mail.queue Packet.place
        ((w.take (.port i)).post [{ q with place := .buffer i }]).packets (.buffer k) =
          Mail.queue Packet.place w.packets (.buffer k) := by
      rw [hqueue, Mail.queue_elsewhere (by simpa using Ne.symm hk), List.append_nil]
    refine ⟨?_, fun ha => ?_, h.opened⟩
    · rw [hsame]
      exact h.one
    · rw [World.next, hsame]
      exact h.clear ha

/-- `receiving` passes the message on. -/
theorem forward (h : Reading w k) (hq : w.next (.buffer i) = some q)
    (hopen : (w.programs i).clientServerOpen = true) (info : List Str) :
    Reading (((w.take (.buffer i)).post [{ q with place := .toServer i }]).set i
      { w.programs i with announcing := some ({ q with place := .toServer i }, info) }) k := by
  have hqueue : Mail.queue Packet.place
      ((w.take (.buffer i)).post [{ q with place := .toServer i }]).packets (.buffer k) =
        Mail.queue Packet.place (w.take (.buffer i)).packets (.buffer k) := by
    show Mail.queue Packet.place (Mail.takeFirst Packet.place w.packets _ ++ _) _ = _
    rw [Mail.queue_append, Mail.queue_elsewhere (by nofun), List.append_nil]
    rfl
  have hlen : (Mail.queue Packet.place (w.take (.buffer i)).packets (.buffer k)).length ≤ 1 :=
    Mail.queue_takeFirst_sublist.length_le.trans h.one
  by_cases hk : k = i
  · subst hk
    refine ⟨?_, fun _ => ?_, fun _ => ?_⟩
    · show (Mail.queue Packet.place ((w.take (.buffer k)).post _).packets _).length ≤ 1
      rw [hqueue]
      exact hlen
    · -- it was the only message in the buffer
      have hone := h.one
      rw [Mail.queue_takeFirst hq, List.length_cons] at hone
      show (Mail.queue Packet.place ((w.take (.buffer k)).post _).packets _).head? = none
      rw [hqueue, List.head?_eq_none_iff]
      exact List.length_eq_zero_iff.1 (by
        show (Mail.queue Packet.place (Mail.takeFirst Packet.place w.packets _) _).length = 0
        omega)
    · rw [World.programs_set_self]
      exact hopen
  · have hother : Mail.queue Packet.place (w.take (.buffer i)).packets (.buffer k) =
        Mail.queue Packet.place w.packets (.buffer k) :=
      Mail.queue_takeFirst_other hq (by simpa using hk)
    refine ⟨?_, fun ha => ?_, fun ha => ?_⟩
    · show (Mail.queue Packet.place ((w.take (.buffer i)).post _).packets _).length ≤ 1
      rw [hqueue]
      exact hlen
    · rw [World.programs_set_other _ _ hk] at ha
      show (Mail.queue Packet.place ((w.take (.buffer i)).post _).packets _).head? = none
      rw [hqueue, hother]
      exact h.clear ha
    · rw [World.programs_set_other _ _ hk] at ha ⊢
      exact h.opened ha

/-- `receiving` announces the payment. -/
theorem announce (h : Reading w k) (x : Packet ι × List Str) :
    Reading { w.set i { w.programs i with announcing := none } with
      notified := x :: w.notified } k := by
  have hann : ((w.set i { w.programs i with announcing := none }).programs k).announcing ≠ none →
      k ≠ i ∧ (w.programs k).announcing ≠ none := by
    intro ha
    by_cases hk : k = i
    · subst hk
      rw [World.programs_set_self] at ha
      exact absurd rfl ha
    · rw [World.programs_set_other _ _ hk] at ha
      exact ⟨hk, ha⟩
  refine ⟨h.one, fun ha => h.clear (hann ha).2, fun ha => ?_⟩
  obtain ⟨hk, ha⟩ := hann ha
  show ((w.set i { w.programs i with announcing := none }).programs k).clientServerOpen = true
  rw [World.programs_set_other _ _ hk]
  exact h.opened ha

end Reading

theorem reading_step (h : ∀ k, Reading w k) {e : Happening ι} (hs : w.step e = some w') :
    ∀ k, Reading w' k := by
  intro k
  have hk := h k
  cases World.step_cases hs with
  | @connect i a b c d port server _ _ =>
    have hset : Reading (w.set i { w.programs i with
      main := .menu, serverFd := some w.server.accepted }) k := Silent.reading (.set rfl id) hk
    exact ⟨hset.one, hset.clear, hset.opened⟩
  | register | login | list | transaction | exit =>
    exact Silent.reading (.ask (by rfl) (by exact id) _ _) hk
  | notFound => exact Silent.reading (.set rfl id) hk
  | pay => exact hk.pay _ rfl rfl _ _
  | reply _ hq => exact ((Silent.taken hq trivial).trans (.resume _ _ _ _ _)).reading hk
  | accept hq =>
    obtain ⟨hbuffer, hann⟩ := World.accepting hs
    exact hk.accept hq hbuffer hann
  | forward hq hopen _ => exact hk.forward hq hopen _
  | announce _ _ => exact hk.announce _
  | serve _ hq _ => exact (Silent.serve hq _ _).reading hk
  | hangup | exits => exact ⟨hk.one, hk.clear, hk.opened⟩

/-- At rest, only a client that has left can have something to announce. -/
theorem Attended.announced (h : Attended w) (hr : Reading w i) (hrest : w.Settled)
    (hmain : (w.programs i).main ≠ .gone) : (w.programs i).announcing = none := by
  by_contra hann
  obtain ⟨x, hx⟩ := Option.ne_none_iff_exists'.1 hann
  have htokens := h.announcing i x hx
  have hlisten : w.listening i = true := by
    simp [World.listening, hr.opened hann, hmain]
  have hstep : w.step (.announce i) ≠ none := by
    simp only [World.step, hx, hlisten, htokens, and_self, if_true]
    exact Option.some_ne_none _
  exact hstep (hrest _ trivial)

end

/-! ## Runs -/

section
variable {ι : Type} [DecidableEq ι] [Fintype ι] {own : ι → Str} {w w' : World ι} {i : ι}
  {q : Packet ι}

namespace World

/-- `receiving` reads a message, which is announced later. -/
theorem notices_accept (hq : w.next (.port i) = some q) :
    ((w.take (.port i)).post [{ q with place := .buffer i }]).notices = w.notices := by
  have htake := notices_take hq
  have hplace := (Mail.head_place hq).2
  rw [Packet.unread_at (.inl hplace)] at htake
  rw [notices_post, Packet.unread_at (.inr rfl), htake]

/-- `receiving` passes a message on, with nothing else to announce. -/
theorem notices_forward (hq : w.next (.buffer i) = some q)
    (hann : (w.programs i).announcing = none) :
    (((w.take (.buffer i)).post [{ q with place := .toServer i }]).set i
      { w.programs i with
        announcing :=
          some ({ q with place := .toServer i }, split q.text "#".toList) }).notices =
        w.notices := by
  have htake := notices_take hq
  have hplace := (Mail.head_place hq).2
  rw [Packet.unread_at (.inr hplace)] at htake
  have hset := notices_set ((w.take (.buffer i)).post [{ q with place := .toServer i }]) i
    { w.programs i with
      announcing := some ({ q with place := .toServer i }, split q.text "#".toList) }
  have hold : (((w.take (.buffer i)).post [{ q with place := .toServer i }]).programs i).unsaid =
      [] := by
    show (w.programs i).unsaid = []
    rw [Program.unsaid, hann]
    rfl
  have hnew : ({ w.programs i with
      announcing := some ({ q with place := .toServer i }, split q.text "#".toList) } :
      Program ι).unsaid = noticeAt i (split q.text "#".toList) := List.append_nil _
  have haway : ({ q with place := .toServer i } : Packet ι).unread = [] :=
    Packet.unread_away trivial
  rw [hold, hnew, notices_post, haway, Multiset.coe_nil, add_zero, zero_add, add_comm] at hset
  rw [htake]
  exact hset

/-- What was to be announced has been. -/
theorem notices_announce {x : Packet ι × List Str} (hann : (w.programs i).announcing = some x) :
    ({ w.set i { w.programs i with announcing := none } with
      notified := x :: w.notified } : World ι).notices = w.notices := by
  have hset := notices_set w i { w.programs i with announcing := none }
  have hold : (w.programs i).unsaid = said x := by
    rw [Program.unsaid, hann]
    exact List.append_nil _
  have hnew : ({ w.programs i with announcing := none } : Program ι).unsaid = [] := rfl
  have hsaid : ({ w.set i { w.programs i with announcing := none } with
      notified := x :: w.notified } : World ι).notices =
        ↑(said x) + (w.set i { w.programs i with announcing := none }).notices := by
    unfold notices
    dsimp only
    rw [List.flatMap_cons, ← Multiset.coe_add, add_assoc]
    rfl
  rw [hold, hnew, Multiset.coe_nil, add_zero] at hset
  rw [hsaid, add_comm, hset]

end World

/-- Only a payment adds to what is or will be announced. -/
theorem notices_step (hown : ∀ i, LoginName (own i)) (ho : Orderly own w)
    (h : ∀ k, Reading w k) {e : Happening ι} (hu : Unspoiled e) (hs : w.step e = some w') :
    w'.notices = ↑(e.notice own) + w.notices := by
  have hsame : ∀ {w' : World ι}, w'.notices = w.notices →
      w'.notices = ↑([] : List (Notice ι)) + w.notices := by
    intro w' hw'
    rw [hw', Multiset.coe_nil, zero_add]
  cases World.step_cases hs with
  | @connect i a b c d port server _ _ =>
    have hset : Silent w (w.set i { w.programs i with
      main := .menu, serverFd := some w.server.accepted }) := .set rfl id
    exact hsame (Silent.notices ⟨hset.notified, hset.announcing, hset.opened, hset.unread,
      hset.buffer⟩)
  | register | login | list | transaction | exit =>
    exact hsame (Silent.notices (.ask (by rfl) (by exact id) _ _))
  | notFound => exact hsame (Silent.notices (.set rfl id))
  | reply _ hq => exact hsame (((Silent.taken hq trivial).trans (.resume _ _ _ _ _)).notices)
  | serve _ hq _ => exact hsame (Silent.serve hq _ _).notices
  | hangup | exits =>
    exact hsame (Silent.notices ⟨rfl, fun _ => rfl, fun _ ho => ho, .refl _, fun _ => rfl⟩)
  | @pay i peer receiver heap text amount _ _ h1 h2 hport htext =>
    obtain ⟨hvalid, rfl⟩ := ho.payment hown h1 h2 hport hu htext
    have hset : Silent w (w.set i { w.programs i with
      main := .waiting .transfer, requests := (w.programs i).requests + 1 }) := .set rfl id
    unfold World.request
    rw [World.notices_post, hset.notices, Packet.unread_at (.inl rfl),
      noticeAt_transactMsg (hown i).arg hvalid]
    rfl
  | accept hq => exact hsame (World.notices_accept hq)
  | @forward i q mixed hq _ _ =>
    obtain rfl : mixed = none := hu
    have hann : (w.programs i).announcing = none := by
      by_contra hann
      rw [(h i).clear hann] at hq
      cases hq
    exact hsame (World.notices_forward hq hann)
  | announce hann _ => exact hsame (World.notices_announce hann)

end

end Micropayment
