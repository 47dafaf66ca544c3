import Micropayment.Proof.Notify

/-!
# No request is lost or handled twice

The server handles the requests of every client one after the other, each of them once
(`handled_in_turn`); the number of a request still on its way is the client's last (`InTurn`).
-/

set_option autoImplicit false

namespace Micropayment

/-- All numbers from 1 to `n`, the last one first. -/
def upTo : Nat → List Nat
  | 0 => []
  | n + 1 => (n + 1) :: upTo n

section
variable {ι : Type} [DecidableEq ι]

/-- The requests of the client that the server has handled, the last one first. -/
def World.asked (w : World ι) (i : ι) : List Nat :=
  (w.handled.filter fun x => x.1.client = i).map fun x => x.1.request

/-- The server has handled the request; this is its reply. -/
def Packet.Reply (q : Packet ι) : Prop := ∃ k, q.place = .toClient k

/-- All requests of `i` have been handled, or all but the last one. -/
def InTurn (w : World ι) (i : ι) : Prop :=
  (w.asked i = upTo (w.programs i).requests ∧ ∀ q ∈ w.packets, q.client = i → q.Reply) ∨
    ∃ n, (w.programs i).requests = n + 1 ∧ w.asked i = upTo n ∧
      ∃ q ∈ w.packets, q.client = i ∧ ¬q.Reply

namespace InTurn

variable {own : ι → Str} {w w' : World ι} {i k : ι} {p : Program ι} {q : Packet ι}

/-- It is about the packets of the client, and what the server has handled for it. -/
theorem same (h : InTurn w k) (hpackets : ∀ x, x.client = k → (x ∈ w'.packets ↔ x ∈ w.packets))
    (hrequests : (w'.programs k).requests = (w.programs k).requests)
    (hasked : w'.asked k = w.asked k) : InTurn w' k := by
  unfold InTurn
  rw [hrequests, hasked]
  rcases h with ⟨hall, hreply⟩ | ⟨n, hn, hall, x, hx, hclient, hreply⟩
  · exact .inl ⟨hall, fun x hx hclient => hreply x ((hpackets x hclient).1 hx) hclient⟩
  · exact .inr ⟨n, hn, hall, x, (hpackets x hclient).2 hx, hclient, hreply⟩

/-- Nothing but replies on the way: everything has been handled. -/
theorem all (h : InTurn w k) (hreply : ∀ x ∈ w.packets, x.client = k → x.Reply) :
    w.asked k = upTo (w.programs k).requests := by
  rcases h with ⟨hall, -⟩ | ⟨n, -, -, x, hx, hclient, hno⟩
  · exact hall
  · exact absurd (hreply x hx hclient) hno

theorem last (h : InTurn w q.client) (hq : q ∈ w.packets) (hno : ¬q.Reply) :
    ∃ n, (w.programs q.client).requests = n + 1 ∧ w.asked q.client = upTo n := by
  rcases h with ⟨-, hreply⟩ | ⟨n, hn, hall, -⟩
  · exact absurd (hreply q hq rfl) hno
  · exact ⟨n, hn, hall⟩

theorem set (h : InTurn w k) (hrequests : p.requests = (w.programs i).requests) :
    InTurn (w.set i p) k := by
  refine h.same (fun _ _ => Iff.rfl) ?_ rfl
  by_cases hk : k = i
  · rw [hk, World.programs_set_self, hrequests]
  · rw [World.programs_set_other w p hk]

/-- A new request. -/
theorem request (h : InTurn w k) (hidle : ∀ x ∈ w.packets, x.client ≠ i)
    (hrequests : p.requests = (w.programs i).requests) {r : Request} {place : Place ι} {text : Str}
    (hplace : ∀ m, place ≠ .toClient m) : InTurn (w.request i p r place text) k := by
  have hp : (w.request i p r place text).programs =
      (w.set i { p with main := .waiting r, requests := p.requests + 1 }).programs := rfl
  by_cases hk : k = i
  · subst hk
    refine .inr ⟨(w.programs k).requests, ?_, ?_, _, List.mem_append_right _
      (List.mem_singleton_self _), rfl, ?_⟩
    · rw [hp, World.programs_set_self]
      exact congrArg (· + 1) hrequests
    · exact h.all fun x hx hclient => absurd hclient (hidle x hx)
    · rintro ⟨m, hm⟩
      exact hplace m hm
  · refine h.same (fun x hclient => ?_) ?_ rfl
    · show x ∈ w.packets ++ _ ↔ _
      rw [List.mem_append, or_iff_left]
      intro hx
      rw [List.mem_singleton] at hx
      exact hk (hclient.symm.trans (congrArg Packet.client hx))
    · rw [hp, World.programs_set_other w _ hk]

/-- Taking a packet leaves those of the other clients. -/
theorem mem_take {l : Place ι} (hq : w.next l = some q) {x : Packet ι} (hne : x.client ≠ q.client) :
    x ∈ (w.take l).packets ↔ x ∈ w.packets := by
  refine ⟨Mail.mem_of_mem_takeFirst, fun hx => ?_⟩
  refine (Mail.mem_takeFirst hq hx).resolve_left ?_
  rintro rfl
  exact hne rfl

/-- Nor do they notice what takes its place. -/
theorem mem_replaced {l : Place ι} (hq : w.next l = some q) {x y : Packet ι}
    (hne : x.client ≠ q.client) (hy : y.client = q.client) :
    x ∈ (w.take l).packets ++ [y] ↔ x ∈ w.packets := by
  rw [List.mem_append, mem_take hq hne, or_iff_left]
  intro hx
  apply hne
  rw [List.mem_singleton.1 hx]
  exact hy

/-- A reply is taken. -/
theorem take (h : InTurn w k) (ho : Orderly own w) (hq : w.next (.toClient i) = some q) :
    InTurn (w.take (.toClient i)) k := by
  obtain ⟨hmem, hplace⟩ := Mail.head_place hq
  by_cases hk : k = q.client
  · subst hk
    refine .inl ⟨h.all fun x hx hclient => ?_, fun x hx hclient => ?_⟩
    · obtain rfl := Mail.eq_of_owner ho.owners hx hmem hclient
      exact ⟨i, hplace⟩
    · exact absurd hclient ((ho.take hq).2 x hx)
  · refine h.same (fun x hclient => ?_) rfl rfl
    refine mem_take hq ?_
    rw [hclient]
    exact hk

/-- A message moves on. -/
theorem move (h : InTurn w k) {l l' : Place ι} (hq : w.next l = some q) (hl : ∀ m, l ≠ .toClient m)
    (hl' : ∀ m, l' ≠ .toClient m) : InTurn ((w.take l).post [{ q with place := l' }]) k := by
  obtain ⟨hmem, hplace⟩ := Mail.head_place hq
  by_cases hk : k = q.client
  · subst hk
    have hno : ¬q.Reply := by
      rintro ⟨m, hm⟩
      exact hl m (hplace.symm.trans hm)
    obtain ⟨n, hn, hall⟩ := h.last hmem hno
    refine .inr ⟨n, hn, hall, _, List.mem_append_right _ (List.mem_singleton_self _), rfl, ?_⟩
    rintro ⟨m, hm⟩
    exact hl' m hm
  · refine h.same (fun x hclient => ?_) rfl rfl
    refine mem_replaced hq ?_ rfl
    rw [hclient]
    exact hk

/-- The main thread goes on with a reply. -/
theorem resume (h : InTurn w k) (text : Str) (info : Except ListError ListInfo) (r : Request) :
    InTurn (w.resume i text info r) k := by
  obtain ⟨p, he, hp⟩ := w.resume_eq i text info r
  rw [he]
  exact h.set hp.requests

end InTurn

end

section
variable {ι : Type} [DecidableEq ι] {own : ι → Str} {w w' : World ι} {i k : ι} {c : Conn}
  {q : Packet ι}

/-- Every message is answered by one frame to its client. -/
theorem Orderly.replies_one (h : Orderly own w) (hw : Wired w) (hown : ∀ i, LoginName (own i))
    (hconn : w.conn i = some c) (hq : w.next (.toServer i) = some q) (stray : Option Nat) :
    ∃ response, w.replies c q stray = [⟨.toClient q.client, q.client, q.request, response⟩] := by
  obtain ⟨fd, response, r, session', hans⟩ := h.answered hw hown hconn hq true stray
  refine ⟨response, ?_⟩
  unfold World.replies World.deliver
  rw [hans.answer.sent]
  dsimp only
  rw [if_neg hans.answer.ne, hans.back]

/-- The server handles a message. -/
theorem InTurn.serve (h : InTurn w k) (ho : Orderly own w) (hw : Wired w)
    (hown : ∀ i, LoginName (own i)) (hconn : w.conn i = some c)
    (hq : w.next (.toServer i) = some q) (resume : Bool) (stray : Option Nat) :
    InTurn (w.serve i c q resume stray) k := by
  obtain ⟨hmem, hplace⟩ := Mail.head_place hq
  obtain ⟨response, hreplies⟩ := ho.replies_one hw hown hconn hq stray
  have hpackets : (w.serve i c q resume stray).packets = (w.take (.toServer i)).packets ++
      [⟨.toClient q.client, q.client, q.request, response⟩] := by
    rw [← hreplies]
    rfl
  by_cases hk : k = q.client
  · subst hk
    have hno : ¬q.Reply := by
      rintro ⟨m, hm⟩
      cases hplace.symm.trans hm
    obtain ⟨n, hn, hall⟩ := h.last hmem hno
    obtain ⟨r, -, hrequest, -⟩ := ho.inFlight q hmem
    refine .inl ⟨?_, fun x hx hclient => ?_⟩
    · have hasked : (w.serve i c q resume stray).asked q.client =
          q.request :: w.asked q.client := by
        unfold World.asked World.serve
        dsimp only
        rw [List.filter_cons_of_pos (by simp)]
        rfl
      show _ = upTo (w.programs q.client).requests
      rw [hasked, hrequest, hn, hall]
      rfl
    · rw [hpackets, List.mem_append] at hx
      rcases hx with hx | hx
      · exact absurd hclient ((ho.take hq).2 x hx)
      · obtain rfl := List.mem_singleton.1 hx
        exact ⟨_, rfl⟩
  · refine h.same (fun x hclient => ?_) rfl ?_
    · rw [hpackets]
      refine InTurn.mem_replaced hq ?_ rfl
      rw [hclient]
      exact hk
    · unfold World.asked World.serve
      dsimp only
      rw [List.filter_cons_of_neg (by simpa using Ne.symm hk)]

theorem inTurn_step (hown : ∀ i, LoginName (own i)) (hw : Wired w) (ho : Orderly own w)
    (h : ∀ k, InTurn w k) {e : Happening ι} (hs : w.step e = some w') : ∀ k, InTurn w' k := by
  intro k
  have hk := h k
  cases World.step_cases hs with
  | @connect i a b c d port server hmain hserver =>
    have hset : InTurn (w.set i { w.programs i with
      main := .menu, serverFd := some w.server.accepted }) k := hk.set rfl
    exact hset
  | register hmain | login hmain _ _ _ | transaction hmain | exit hmain =>
    exact hk.request (ho.ready (.inl hmain)).1 (by rfl) nofun
  | list hmain => exact hk.request (ho.ready (hmain.imp_right .inr)).1 (by rfl) nofun
  | notFound _ => exact hk.set rfl
  | pay hmain _ _ _ _ => exact hk.request (ho.ready (.inr (.inl hmain))).1 (by rfl) nofun
  | reply hmain hq => exact (hk.take ho hq).resume _ _ _
  | accept hq => exact hk.move hq nofun nofun
  | @forward i q _ hq _ _ =>
    have hmoved : InTurn ((w.take (.buffer i)).post [{ q with place := .toServer i }]) k :=
      hk.move hq nofun nofun
    exact hmoved.set rfl
  | @announce i x _ _ =>
    have hset : InTurn (w.set i { w.programs i with announcing := none }) k := hk.set rfl
    exact hset
  | serve hconn hq _ => exact hk.serve ho hw hown hconn hq _ _
  | exits | hangup => exact hk

end

section
variable {ι : Type} [DecidableEq ι] {own : ι → Str} {w : World ι}

theorem inTurn_run (hown : ∀ i, LoginName (own i)) {t : Table}
    (ht : ∀ r ∈ t.rows, '\x00' ∉ r.username ∧ '\x00' ∉ r.ip) {es : List (Happening ι)}
    (h : Run World.step (Proper own) (World.init t) es w) :
    (Wired w ∧ Orderly own w) ∧ ∀ k, InTurn w k := by
  refine h.inv (I := fun w => (Wired w ∧ Orderly own w) ∧ ∀ k, InTurn w k)
    (fun _ _ _ hi hg hs => ?_) ⟨orderly_init ht, fun k => .inl ⟨rfl, fun q hq => ?_⟩⟩
  · exact ⟨orderly_step hown hi.1.1 hi.1.2 hg hs, inTurn_step hown hi.1.1 hi.1.2 hi.2 hs⟩
  · exact absurd hq List.not_mem_nil

/-- **No request is handled twice, and none is overtaken**: the server has handled all requests of
a client, in their order and each once, or all but the last, for whose answer the client waits. -/
theorem handled_in_turn (hown : ∀ i, LoginName (own i)) {t : Table}
    (ht : ∀ r ∈ t.rows, '\x00' ∉ r.username ∧ '\x00' ∉ r.ip) {es : List (Happening ι)}
    (h : Run World.step (Proper own) (World.init t) es w) (i : ι) :
    w.asked i = upTo (w.programs i).requests ∨
      ∃ r n, (w.programs i).main = .waiting r ∧ (w.programs i).requests = n + 1 ∧
        w.asked i = upTo n := by
  obtain ⟨⟨-, ho⟩, hturn⟩ := inTurn_run hown ht h
  rcases hturn i with ⟨hall, -⟩ | ⟨n, hn, hall, q, hq, rfl, -⟩
  · exact .inl hall
  · obtain ⟨r, hmain, -⟩ := ho.inFlight q hq
    exact .inr ⟨r, n, hmain, hn, hall⟩

end

/-- After a payment: `a` has asked for six things, the payment being the fifth. -/
theorem handled_in_turn_paid : ∃ w, Run World.step (Proper seat) (World.init Keyed.empty)
    (twoOnline ++ aPaysB 300) w ∧ w.asked false = [6, 5, 4, 3, 2, 1] ∧
      (w.asked false = upTo (w.programs false).requests ∨
        ∃ r n, (w.programs false).main = .waiting r ∧ (w.programs false).requests = n + 1 ∧
          w.asked false = upTo n) := by
  have hrun : allowed World.step (Proper seat) (World.init Keyed.empty)
      (twoOnline ++ aPaysB 300) = true := by
    decide +kernel
  have hend : (runAll World.step (World.init Keyed.empty) (twoOnline ++ aPaysB 300)).map
      (fun w => w.asked false) = some [6, 5, 4, 3, 2, 1] := by
    decide +kernel
  obtain ⟨w, hw, hr⟩ := Run.of_allowed hrun
  rw [hw] at hend
  exact ⟨w, hr, Option.some.inj hend,
    handled_in_turn loginName_seat (fun r hr => absurd hr List.not_mem_nil) hr false⟩

end Micropayment
