import Micropayment.Proof.Replies

/-!
# A payment notification means the payment happened

`receiving` prints its notification when it has passed the message on, before the server decides.
`payments_honoured`: the notification is right in every run in which clients pay positive amounts to
others over the port of the receiver, the payer can pay when the server comes to the message,
nothing is passed on after Exit, and the server has room for its replies (`Fair`). The transfers on
their way are then payments to the client they are at, which stays logged in until the server has
them (`Promised`). `bankrupt_notified` is a run in which the payer cannot pay.
-/

set_option autoImplicit false

namespace Micropayment

/-- The payer of the TRANSACTION, if it is one, has the money. -/
def Covered (s : Server) (raw : Str) : Prop :=
  let item := parseCommand raw
  match item.1, stod (arg item.2 1), s.table.find? (arg item.2 0) with
  | .transaction, .ok pay, some payer => pay ≤ payer.balance
  | _, _, _ => True

instance (s : Server) (raw : Str) : Decidable (Covered s raw) := by
  unfold Covered
  dsimp only
  split <;> infer_instance

section
variable {ι : Type} [DecidableEq ι]

/-- A client pays a positive amount to another user, over the port of that user's client; it passes
nothing on once it has sent Exit; and when the server comes to a message, the payer has the money,
and there is room for the reply. -/
def Fair (own : ι → Str) (w : World ι) : Happening ι → Prop
  | .pay i receiver amount peer _ => 0 < amount ∧ receiver = own peer ∧ receiver ≠ own i
  | .forward i _ => (w.programs i).main ≠ .waiting .exit
  | .serve i resume stray => (∀ q ∈ w.next (.toServer i), Covered w.server (cStr q.text)) ∧
      Roomy w (.serve i resume stray)
  | _ => True

instance (own : ι → Str) (w : World ι) (e : Happening ι) : Decidable (Fair own w e) :=
  match e with
  | .pay i receiver amount peer _ =>
    inferInstanceAs (Decidable (0 < amount ∧ receiver = own peer ∧ receiver ≠ own i))
  | .forward i _ => inferInstanceAs (Decidable ((w.programs i).main ≠ .waiting .exit))
  | .serve i resume stray => inferInstanceAs (Decidable
      ((∀ q ∈ w.next (.toServer i), Covered w.server (cStr q.text)) ∧
      Roomy w (.serve i resume stray)))
  | .connect .. | .register .. | .login .. | .list _ | .transaction _ | .notFound .. | .exit _
  | .reply .. | .accept _ | .announce _ | .hangup _ => .isTrue trivial

/-- The server ends the connection on which the message comes in. -/
def Packet.Leaves (q : Packet ι) : Prop := (parseCommand (cStr q.text)).1 = .exit

/-- There is no Exit on the connection of `j`. -/
def NoExit (w : World ι) (j : ι) : Prop :=
  ∀ q ∈ Mail.queue Packet.place w.packets (.toServer j), ¬q.Leaves

/-- The message is on its way to the server, which runs, on a connection that is logged in as
`own j`, with no Exit before it. -/
structure Pending (own : ι → Str) (w : World ι) (j : ι) (p : Packet ι) : Prop where
  lives : w.exited = false
  session : w.session j = some (own j)
  queued : ∃ A B, Mail.queue Packet.place w.packets (.toServer j) = A ++ p :: B ∧
    ∀ q ∈ A, ¬q.Leaves

/-- The message `x.1`, which the client `j` has passed on, is a transfer to its user, of the payer
and the amount that were printed. The server has carried it out, or has it still before it; it has
never turned it down. -/
def Honoured (own : ι → Str) (w : World ι) (x : Packet ι × List Str) : Prop :=
  ∃ j s n, x.1.place = .toServer j ∧ split x.1.text "#".toList = [s, n, own j] ∧
    notification x.2 = some (s, n) ∧
    (∀ status, (x.1, status) ∈ w.handled → status = some .transferOk) ∧
    ((x.1, some .transferOk) ∈ w.handled ∨ Pending own w j x.1)

/-! ## The invariant -/

/-- A transfer from `u` to `v`. -/
def IsPayment (u v text : Str) : Prop :=
  ∃ n : Int, 0 < n ∧ P2pCall.Valid (n, v) ∧ u ≠ v ∧ text = transactMsg u n v

/-- The message is at another client than its own, or that client has passed it on. -/
def Packet.Via (q : Packet ι) (k : ι) : Prop :=
  q.place = .port k ∨ q.place = .buffer k ∨ (q.place = .toServer k ∧ q.client ≠ k)

/-- The client `j` has passed the message on, and has split it. -/
structure PassedOn (own : ι → Str) (w : World ι) (j : ι) (x : Packet ι × List Str) : Prop where
  place : x.1.place = .toServer j
  other : x.1.client ≠ j
  payment : IsPayment (own x.1.client) (own j) x.1.text
  tokens : x.2 = split x.1.text "#".toList
  sent : x.1 ∈ w.packets ∨ ∃ status, (x.1, status) ∈ w.handled

structure Promised (own : ι → Str) (w : World ι) : Prop where
  lives : w.exited = false
  payments : ∀ q ∈ w.packets, ∀ k, q.Via k → IsPayment (own q.client) (own k) q.text
  online : ∀ q ∈ w.packets, ∀ k, q.place = .toServer k → q.client ≠ k →
    w.session k = some (own k)
  exits : ∀ k, (Mail.queue Packet.place w.packets (.toServer k)).Pairwise fun q _ => ¬q.Leaves
  carried : ∀ x ∈ w.handled, ∀ k, x.1.place = .toServer k → x.1.client ≠ k →
    x.2 = some .transferOk
  notified : ∀ x ∈ w.notified, ∃ j, PassedOn own w j x
  announcing : ∀ i x, (w.programs i).announcing = some x → ∃ j, PassedOn own w j x

theorem Promised.honoured {own : ι → Str} {w : World ι} (h : Promised own w)
    (hown : ∀ i, LoginName (own i)) {x : Packet ι × List Str} (hx : x ∈ w.notified) :
    Honoured own w x := by
  obtain ⟨j, hj⟩ := h.notified x hx
  obtain ⟨n, -, hn, -, htext⟩ := hj.payment
  have htokens : split x.1.text "#".toList = [own x.1.client, toStr n, own j] := by
    rw [htext]
    exact split_three (hown x.1.client).arg (isArg_toStr n) hn.receiver
  have hcarried : ∀ status, (x.1, status) ∈ w.handled → status = some .transferOk :=
    fun status hs => h.carried _ hs j hj.place hj.other
  refine ⟨j, own x.1.client, toStr n, hj.place, htokens, ?_, hcarried, ?_⟩
  · rw [hj.tokens, htokens]
    rfl
  · rcases hj.sent with hsent | ⟨status, hs⟩
    · obtain ⟨A, B, hAB⟩ := List.append_of_mem (Mail.mem_queue.2 ⟨hsent, hj.place⟩)
      have hexits := h.exits j
      rw [hAB, List.pairwise_append] at hexits
      exact .inr ⟨h.lives, h.online x.1 hsent j hj.place hj.other, A, B, hAB,
        fun q hq => hexits.2.2 q hq x.1 List.mem_cons_self⟩
    · exact .inl (hcarried status hs ▸ hs)

end

/-! ## The network -/

/-- While a client has not sent Exit, there is no Exit on its connection. -/
theorem Orderly.no_exit {ι : Type} [DecidableEq ι] {own : ι → Str} {w : World ι} {j : ι}
    (h : Orderly own w) (hown : ∀ i, LoginName (own i))
    (hmain : (w.programs j).main ≠ .waiting .exit) : NoExit w j := by
  intro q hq
  unfold Packet.Leaves
  obtain ⟨hq, hplace⟩ := Mail.mem_queue.1 hq
  obtain ⟨r, hwait, -, hfits⟩ := h.inFlight q hq
  rw [hplace] at hfits
  rcases hfits with ⟨-, htransfer⟩ | ⟨rfl, hreq⟩
  · rw [htransfer.parse (hown q.client).arg]
    nofun
  · intro hexit
    rw [hreq.exit_iff (hown q.client).arg (hown q.client).ne] at hexit
    subst hexit
    exact hmain hwait

section
variable {ι : Type} {own : ι → Str} {w : World ι} {j : ι} {x : Packet ι × List Str}

/-- What a client has passed on stays so while no message is lost on the way to the server. -/
theorem PassedOn.mono (h : PassedOn own w j x) {w' : World ι}
    (hpackets : ∀ y ∈ w.packets, ∀ k, y.place = .toServer k →
      y ∈ w'.packets ∨ ∃ status, (y, status) ∈ w'.handled)
    (hhandled : ∀ y ∈ w.handled, y ∈ w'.handled) : PassedOn own w' j x := by
  refine ⟨h.place, h.other, h.payment, h.tokens, ?_⟩
  rcases h.sent with hsent | ⟨status, hs⟩
  · exact hpackets x.1 hsent j h.place
  · exact .inr ⟨status, hhandled _ hs⟩

end

section
variable {ι : Type} [DecidableEq ι] {own : ι → Str} {w : World ι} {i k : ι} {p : Program ι}
  {q : Packet ι}

namespace Promised

/-- A program goes on. -/
theorem set (h : Promised own w) (hfd : p.serverFd = (w.programs i).serverFd)
    (hann : ∀ x, p.announcing = some x → ∃ j, PassedOn own w j x) : Promised own (w.set i p) := by
  have hpassed : ∀ {j x}, PassedOn own w j x → PassedOn own (w.set i p) j x := fun hx =>
    hx.mono (fun y hy _ _ => .inl hy) fun y hy => hy
  refine ⟨h.lives, h.payments, fun q hq k hplace hne => ?_, h.exits, h.carried,
    fun x hx => (h.notified x hx).imp fun _ => hpassed, fun k x hx => ?_⟩
  · rw [Orderly.session_set hfd]
    exact h.online q hq k hplace hne
  · refine Exists.imp (fun _ => hpassed) ?_
    by_cases hk : k = i
    · subst hk
      rw [World.programs_set_self] at hx
      exact hann x hx
    · rw [World.programs_set_other w p hk] at hx
      exact h.announcing k x hx

/-- A message is taken from a place other than the way to the server. -/
theorem take (h : Promised own w) {l : Place ι} (hq : w.next l = some q)
    (hl : ∀ k, l ≠ .toServer k) : Promised own (w.take l) := by
  have hpassed : ∀ {j x}, PassedOn own w j x → PassedOn own (w.take l) j x := by
    intro j x hx
    refine hx.mono (fun y hy k hplace => .inl ?_) fun y hy => hy
    rcases Mail.mem_takeFirst hq hy with rfl | hy
    · exact absurd ((Mail.head_place hq).2.symm.trans hplace) (hl k)
    · exact hy
  refine ⟨h.lives, fun x hx => h.payments x (Mail.mem_of_mem_takeFirst hx),
    fun x hx => h.online x (Mail.mem_of_mem_takeFirst hx), fun k => ?_, h.carried,
    fun x hx => (h.notified x hx).imp fun _ => hpassed,
    fun k x hx => (h.announcing k x hx).imp fun _ => hpassed⟩
  show (Mail.queue Packet.place (Mail.takeFirst Packet.place w.packets l) _).Pairwise _
  rw [Mail.queue_takeFirst_other hq (hl k).symm]
  exact h.exits k

/-- A message is sent. -/
theorem post (h : Promised own w) (hpay : ∀ k, q.Via k → IsPayment (own q.client) (own k) q.text)
    (honline : ∀ k, q.place = .toServer k → q.client ≠ k → w.session k = some (own k))
    (hexit : ∀ k, q.place = .toServer k → NoExit w k) : Promised own (w.post [q]) := by
  have hpassed : ∀ {j x}, PassedOn own w j x → PassedOn own (w.post [q]) j x := fun hx =>
    hx.mono (fun y hy k _ => .inl (List.mem_append_left _ hy)) fun y hy => hy
  refine ⟨h.lives, fun x hx => ?_, fun x hx => ?_, fun k => ?_, h.carried,
    fun x hx => (h.notified x hx).imp fun _ => hpassed,
    fun k x hx => (h.announcing k x hx).imp fun _ => hpassed⟩
  · rcases List.mem_append.1 hx with hx | hx
    · exact h.payments x hx
    · obtain rfl := List.mem_singleton.1 hx
      exact hpay
  · rcases List.mem_append.1 hx with hx | hx
    · exact h.online x hx
    · obtain rfl := List.mem_singleton.1 hx
      exact honline
  · show (Mail.queue Packet.place (w.packets ++ [q]) _).Pairwise _
    rw [Mail.queue_append, List.pairwise_append]
    by_cases hplace : q.place = .toServer k
    · rw [Mail.queue_here hplace]
      exact ⟨h.exits k, List.pairwise_singleton .., fun x hx _ _ => hexit k hplace x hx⟩
    · rw [Mail.queue_elsewhere hplace]
      exact ⟨h.exits k, .nil, fun _ _ _ hy => absurd hy List.not_mem_nil⟩

/-- The main thread sends the server a request. -/
theorem ask (h : Promised own w) (hfd : p.serverFd = (w.programs i).serverFd)
    (hann : p.announcing = (w.programs i).announcing)
    (hexit : NoExit w i) (r : Request) (text : Str) :
    Promised own (w.request i p r (.toServer i) text) := by
  have hset := h.set (p := { p with main := .waiting r, requests := p.requests + 1 }) hfd
    fun x hx => h.announcing i x (hann ▸ hx)
  refine hset.post (fun k hvia => ?_) (fun k hplace hne => ?_) fun k hplace => ?_
  · rcases hvia with hplace | hplace | ⟨hplace, hne⟩
    · cases hplace
    · cases hplace
    · exact absurd (Place.toServer.inj hplace) hne
  · exact absurd (Place.toServer.inj hplace) hne
  · obtain rfl := Place.toServer.inj hplace
    exact hexit

/-- The main thread sends a peer a transfer to its user. -/
theorem transfer (h : Promised own w) (hfd : p.serverFd = (w.programs i).serverFd)
    (hann : p.announcing = (w.programs i).announcing) {peer : ι} {text : Str}
    (hpay : IsPayment (own i) (own peer) text) :
    Promised own (w.request i p .transfer (.port peer) text) := by
  have hset := h.set (p := { p with main := .waiting .transfer, requests := p.requests + 1 }) hfd
    fun x hx => h.announcing i x (hann ▸ hx)
  refine hset.post (fun k hvia => ?_) (fun k hplace _ => ?_) fun k hplace => ?_
  · rcases hvia with hplace | hplace | ⟨hplace, -⟩
    · obtain rfl := Place.port.inj hplace
      exact hpay
    · cases hplace
    · cases hplace
  · cases hplace
  · cases hplace

/-- The main thread goes on with a reply. -/
theorem resume (h : Promised own w) (text : Str) (info : Except ListError ListInfo) (r : Request) :
    Promised own (w.resume i text info r) := by
  obtain ⟨p, he, hp⟩ := w.resume_eq i text info r
  rw [he]
  exact h.set hp.serverFd fun x hx => h.announcing i x (hp.announcing ▸ hx)

/-- `receiving` reads a message from a peer. -/
theorem accept (h : Promised own w) (hq : w.next (.port i) = some q) :
    Promised own ((w.take (.port i)).post [{ q with place := .buffer i }]) := by
  obtain ⟨hmem, hplace⟩ := Mail.head_place hq
  refine (h.take hq nofun).post (fun k hvia => ?_) (fun k hk _ => ?_) fun k hk => ?_
  · rcases hvia with hk | hk | ⟨hk, -⟩
    · cases hk
    · obtain rfl := Place.buffer.inj hk
      exact h.payments q hmem i (.inl hplace)
    · cases hk
  · cases hk
  · cases hk

/-- `receiving` passes the message on. -/
theorem forward (h : Promised own w) (hq : w.next (.buffer i) = some q)
    (hsession : w.session i = some (own i)) (hexit : NoExit w i) :
    Promised own (((w.take (.buffer i)).post [{ q with place := .toServer i }]).set i
      { w.programs i with
        announcing := some ({ q with place := .toServer i }, split q.text "#".toList) }) := by
  obtain ⟨hmem, hplace⟩ := Mail.head_place hq
  have hpay := h.payments q hmem i (.inr (.inl hplace))
  have hother : q.client ≠ i := by
    obtain ⟨n, -, -, hne, -⟩ := hpay
    exact fun he => hne (congrArg own he)
  have hpost : Promised own ((w.take (.buffer i)).post [{ q with place := .toServer i }]) := by
    refine (h.take hq nofun).post (fun k hvia => ?_) (fun k hk _ => ?_) fun k hk => ?_
    · rcases hvia with hk | hk | ⟨hk, -⟩
      · cases hk
      · cases hk
      · obtain rfl := Place.toServer.inj hk
        exact hpay
    · obtain rfl := Place.toServer.inj hk
      exact hsession
    · obtain rfl := Place.toServer.inj hk
      unfold NoExit World.take
      rw [Mail.queue_takeFirst_other hq (by nofun)]
      exact hexit
  refine hpost.set rfl fun x hx => ⟨i, ?_⟩
  obtain rfl := Option.some.inj hx
  exact ⟨rfl, hother, hpay, rfl, .inl (List.mem_append_right _ (List.mem_singleton_self _))⟩

/-- `receiving` prints its notification. -/
theorem announce (h : Promised own w) {x : Packet ι × List Str}
    (hann : (w.programs i).announcing = some x) :
    Promised own { w.set i { w.programs i with announcing := none } with
      notified := x :: w.notified } := by
  have hset := h.set (i := i) (p := { w.programs i with announcing := none }) rfl nofun
  have hx := h.announcing i x hann
  have hpassed : ∀ {j y}, PassedOn own w j y →
      PassedOn own { w.set i { w.programs i with announcing := none } with
        notified := x :: w.notified } j y := fun hy =>
    hy.mono (fun y hy _ _ => .inl hy) fun y hy => hy
  refine ⟨hset.lives, hset.payments, hset.online, hset.exits, hset.carried, fun y hy => ?_,
    fun k y hy => ?_⟩
  · rcases List.mem_cons.1 hy with rfl | hy
    · exact hx.imp fun _ => hpassed
    · exact (h.notified y hy).imp fun _ => hpassed
  · exact (hset.announcing k y hy).imp fun _ hp =>
      hp.mono (fun y hy _ _ => .inl hy) fun y hy => hy

end Promised

end

/-! ## The server -/

/-- A payment between the users of two connections that the payer has the money for. -/
theorem transferStatus_payment {s : Server} (hs : Sessions s) {payer payee : Conn}
    (hp : payer ∈ s.conns.rows) (hr : payee ∈ s.conns.rows) (hu : IsArg payer.username)
    {text : Str} (hpay : IsPayment payer.username payee.username text)
    (hcov : Covered s (cStr text)) : transferStatus s (cStr text) = some .transferOk := by
  obtain ⟨n, hpos, hn, hne, rfl⟩ := hpay
  obtain ⟨a, ha, hao, -⟩ := hs.backed payer hp hu.ne
  obtain ⟨b, hb, hbo, -⟩ := hs.backed payee hr hn.receiver.ne
  have hparse := parseCommand_transactMsg hu hn
  rw [← parseCommand_cStr] at hparse
  have hstod := stod_toStr hn.lower hn.upper
  have hfunds : (n : ℚ) ≤ a.balance := by
    simpa only [Covered, hparse, arg, List.getD_cons_succ, List.getD_cons_zero, hstod, ha]
      using hcov
  have ht : Transfers s.table payer.username payee.username n a b :=
    ⟨hne, Int.cast_pos.2 hpos, ha, hao, hb, hbo, hfunds⟩
  simp only [transferStatus, hparse, arg, List.getD_cons_succ, List.getD_cons_zero, hstod, ht.run]

theorem place_of_mem_replies {ι : Type} {w : World ι} {c : Conn} {q x : Packet ι}
    {stray : Option Nat} (hx : x ∈ w.replies c q stray) : ∃ i, x.place = .toClient i := by
  have hdeliver : ∀ {fd response}, x ∈ w.deliver q fd response → ∃ i, x.place = .toClient i := by
    intro fd response hx
    unfold World.deliver at hx
    split at hx
    · rename_i i _
      exact ⟨i, congrArg Packet.place (List.mem_singleton.1 hx)⟩
    · cases hx
  unfold World.replies at hx
  split at hx
  · split at hx
    · cases hx
    · exact hdeliver hx
  · cases hx
  · split at hx
    · exact hdeliver hx
    · cases hx

section
variable {ι : Type} [DecidableEq ι] {own : ι → Str} {w : World ι} {k : ι} {c : Conn}
  {q : Packet ι}

namespace Promised

/-- What another client has passed on is a payment, and the server carries it out. -/
theorem carries (h : Promised own w) (ho : Orderly own w) (hw : Wired w)
    (hown : ∀ i, LoginName (own i)) (hconn : w.conn k = some c)
    (hq : w.next (.toServer k) = some q) (hne : q.client ≠ k)
    (hcov : Covered w.server (cStr q.text)) :
    transferStatus w.server (cStr q.text) = some .transferOk := by
  obtain ⟨hmem, hplace⟩ := Mail.head_place hq
  have hpay := h.payments q hmem k (.inr (.inr ⟨hplace, hne⟩))
  have hpayee : some c.username = some (own k) :=
    (congrArg (Option.map Conn.username) hconn).symm.trans (h.online q hmem k hplace hne)
  obtain ⟨r, hmain, -, hfits⟩ := ho.inFlight q hmem
  rw [hplace] at hfits
  rcases hfits with ⟨rfl, -⟩ | ⟨rfl, -⟩
  · obtain ⟨payer, hpayer, hname⟩ := ho.payer hmain
    refine transferStatus_payment hw.entries.sessions (Wired.conn_some hpayer).2
      (Wired.conn_some hconn).2 ?_ ?_ hcov
    · rw [hname]
      exact (hown q.client).arg
    · rw [hname, Option.some.inj hpayee]
      exact hpay
  · exact absurd rfl hne

/-- A client stays logged in while something that it has passed on is still to come. -/
theorem stays (h : Promised own w) (ho : Orderly own w) (hown : ∀ i, LoginName (own i))
    (hq : w.next (.toServer k) = some q) {r : Request}
    (hmain : (w.programs q.client).main = .waiting r) {session : Option Str}
    (hsound : Sound (own q.client) session (w.programs q.client)) {x : Packet ι}
    (hx : x ∈ (w.take (.toServer k)).packets) (hplace : x.place = .toServer q.client)
    (hne : x.client ≠ q.client) : session = some (own q.client) := by
  obtain ⟨hmem, hk⟩ := Mail.head_place hq
  have honline := h.online x (Mail.mem_of_mem_takeFirst hx) q.client hplace hne
  obtain ⟨r', hmain', -, hfits⟩ := ho.inFlight q hmem
  obtain rfl : r' = r := by simpa using hmain'.symm.trans hmain
  rw [hk] at hfits
  have hreq : r' ≠ .transfer →
      k = q.client ∧ IsRequest (own q.client) (w.session q.client) r' q.text :=
    fun hr => hfits.resolve_left fun ht => hr ht.1
  -- its LOGIN has been answered, and its Exit would be behind `x`
  have hlogin : r' ≠ .login := by
    rintro rfl
    have hout := (hreq nofun).2.loggedOut
    exact (hown q.client).arg.ne (Option.some.inj (honline.symm.trans hout))
  have hexit : r' ≠ .exit := by
    rintro rfl
    obtain ⟨rfl, hr⟩ := hreq nofun
    have hexits := h.exits q.client
    rw [Mail.queue_takeFirst hq, List.pairwise_cons] at hexits
    refine hexits.1 x (Mail.mem_queue.2 ⟨hx, hplace⟩) ?_
    exact (hr.exit_iff (hown q.client).arg (hown q.client).ne).2 rfl
  have hopen : (w.programs q.client).clientServerOpen = true := by
    refine ((ho.sound q.client).opens honline).resolve_right ?_
    rw [hmain]
    simpa using hlogin
  refine hsound.opened hopen ?_ ?_ <;> rw [hmain]
  · nofun
  · simpa using hexit

theorem serve (h : Promised own w) (ho : Orderly own w) (hw : Wired w)
    (hown : ∀ i, LoginName (own i)) (hconn : w.conn k = some c)
    (hq : w.next (.toServer k) = some q) (hcov : Covered w.server (cStr q.text)) (resume : Bool)
    (stray : Option Nat) : Promised own (w.serve k c q resume stray) := by
  obtain ⟨hmem, hk⟩ := Mail.head_place hq
  obtain ⟨fd, response, r, session', hans⟩ := ho.answered hw hown hconn hq resume stray
  have hold : ∀ x ∈ (w.serve k c q resume stray).packets,
      x ∈ (w.take (.toServer k)).packets ∨ ∃ i, x.place = .toClient i := fun x hx =>
    (List.mem_append.1 hx).imp_right place_of_mem_replies
  have hpassed : ∀ {j x}, PassedOn own w j x → PassedOn own (w.serve k c q resume stray) j x := by
    intro j x hx
    refine hx.mono (fun y hy _ _ => ?_) fun y hy => List.mem_cons_of_mem _ hy
    rcases Mail.mem_takeFirst hq hy with rfl | hy
    · exact .inr ⟨_, List.mem_cons_self⟩
    · exact .inl (List.mem_append_left _ hy)
  refine ⟨h.lives, fun x hx m hvia => ?_, fun x hx m hplace hne => ?_, fun m => ?_,
    fun x hx m hplace hne => ?_, fun x hx => (h.notified x hx).imp fun _ => hpassed,
    fun i x hx => (h.announcing i x hx).imp fun _ => hpassed⟩
  · rcases hold x hx with hx | ⟨i, hi⟩
    · exact h.payments x (Mail.mem_of_mem_takeFirst hx) m hvia
    · rw [Packet.Via, hi] at hvia
      simp at hvia
  · rcases hold x hx with hx | ⟨i, hi⟩
    · rw [hans.sessions]
      split
      · rename_i hm
        subst hm
        exact h.stays ho hown hq hans.waits hans.sound hx hplace hne
      · exact h.online x (Mail.mem_of_mem_takeFirst hx) m hplace hne
    · rw [hi] at hplace
      cases hplace
  · show (Mail.queue Packet.place
      ((w.take (.toServer k)).packets ++ w.replies c q stray) _).Pairwise _
    have hnil : Mail.queue Packet.place (w.replies c q stray) (.toServer m) = [] := by
      rw [List.eq_nil_iff_forall_not_mem]
      intro x hx
      obtain ⟨hx, hplace⟩ := Mail.mem_queue.1 hx
      obtain ⟨i, hi⟩ := place_of_mem_replies hx
      rw [hi] at hplace
      cases hplace
    rw [Mail.queue_append, hnil, List.append_nil]
    exact (h.exits m).sublist Mail.queue_takeFirst_sublist
  · rcases List.mem_cons.1 hx with rfl | hx
    · obtain rfl := Place.toServer.inj (hk.symm.trans hplace)
      exact h.carries ho hw hown hconn hq hne hcov
    · exact h.carried x hx m hplace hne

/-- The server has made or ended the connection of `k`, over which nothing is passed on. -/
theorem reconnected (h : Promised own w) {w' : World ι} (hlives : w'.exited = w.exited)
    (hpackets : w'.packets = w.packets) (hhandled : w'.handled = w.handled)
    (hnotified : w'.notified = w.notified)
    (hann : ∀ i, (w'.programs i).announcing = (w.programs i).announcing)
    (hsession : ∀ i, i ≠ k → w'.session i = w.session i)
    (hnone : ∀ q ∈ w.packets, q.place = .toServer k → q.client ≠ k → False) :
    Promised own w' := by
  have hpassed : ∀ {j x}, PassedOn own w j x → PassedOn own w' j x := fun hx =>
    hx.mono (fun y hy _ _ => .inl (hpackets ▸ hy)) fun y hy => hhandled ▸ hy
  refine ⟨hlives.trans h.lives, hpackets ▸ h.payments, fun q hq m hplace hne => ?_,
    hpackets ▸ h.exits, hhandled ▸ h.carried,
    fun x hx => (h.notified x (hnotified ▸ hx)).imp fun _ => hpassed,
    fun i x hx => (h.announcing i x (hann i ▸ hx)).imp fun _ => hpassed⟩
  rw [hpackets] at hq
  rw [hsession]
  · exact h.online q hq m hplace hne
  · rintro rfl
    exact hnone q hq hplace hne

theorem connect (h : Promised own w) (ho : Orderly own w) (hw : Wired w)
    (hmain : (w.programs k).main = .start) {a b c d : UInt8} {port : Int} {server : Server}
    (hs : w.server.step (.accept (inetNtoa a b c d) port) = some server) :
    Promised own { w.set k { w.programs k with
        main := .menu, serverFd := some w.server.accepted } with
      server, accepted := w.accepted ++ [k] } := by
  refine h.reconnected (k := k) rfl rfl rfl rfl (fun i => ?_) (fun i hi => ?_)
    fun q hq hplace hne => ?_
  · show ((w.set k { w.programs k with
      main := .menu, serverFd := some w.server.accepted }).programs i).announcing = _
    by_cases hi : i = k
    · rw [hi, World.programs_set_self]
    · rw [World.programs_set_other _ _ hi]
  · rw [hw.session_connect hs, if_neg hi]
  · -- it was not logged in before
    obtain ⟨c, hc, -⟩ := Wired.session_some (h.online q hq k hplace hne)
    have hfd := (Wired.conn_some hc).1
    rw [((ho.sound k).start hmain).1] at hfd
    cases hfd

theorem hangup (h : Promised own w) (hw : Wired w) (hconn : w.conn k = some c)
    (hq : w.next (.toServer k) = none) :
    Promised own { w with server := w.server.disconnect c } := by
  refine h.reconnected (k := k) rfl rfl rfl rfl (fun _ => rfl) (fun i hi => ?_)
    fun q hmem hplace _ => ?_
  · rw [hw.session_hangup hconn, if_neg hi]
  · have hnil := List.head?_eq_none_iff.1 hq
    have hqueue := Mail.mem_queue.2 ⟨hmem, hplace⟩
    rw [hnil] at hqueue
    cases hqueue

end Promised

end

/-! ## Every step -/

section
variable {ι : Type} [DecidableEq ι] {own : ι → Str} {w w' : World ι} {i : ι}

/-- A request that goes out while the main thread has not sent Exit before. -/
theorem Promised.request (h : Promised own w) (ho : Orderly own w) (hown : ∀ i, LoginName (own i))
    (hmain : (w.programs i).main = .menu ∨ (w.programs i).main = .renewing) {p : Program ι}
    (hfd : p.serverFd = (w.programs i).serverFd)
    (hann : p.announcing = (w.programs i).announcing) (r : Request) (text : Str) :
    Promised own (w.request i p r (.toServer i) text) := by
  refine h.ask hfd hann (ho.no_exit hown ?_) r text
  rcases hmain with hmain | hmain
  all_goals rw [hmain]
  all_goals nofun

theorem promised_step (hown : ∀ i, LoginName (own i)) (hw : Wired w) (ho : Orderly own w)
    (h : Promised own w) {e : Happening ι} (hu : Unspoiled e) (hg : Fair own w e)
    (hs : w.step e = some w') :
    Promised own w' := by
  cases World.step_cases hs with
  | connect hmain hserver => exact h.connect ho hw hmain hserver
  | register hmain | login hmain _ _ _ | transaction hmain | exit hmain =>
    exact h.request ho hown (.inl hmain) (by rfl) (by rfl) _ _
  | list hmain => exact h.request ho hown hmain (by rfl) (by rfl) _ _
  | notFound _ => exact h.set rfl (h.announcing _)
  | @pay i peer receiver heap text amount _ _ h1 h2 hport htext =>
    obtain ⟨hpos, rfl, hother⟩ := hg
    obtain ⟨hvalid, rfl⟩ := ho.payment hown h1 h2 hport hu htext
    exact h.transfer (by rfl) (by rfl) ⟨amount, hpos, hvalid, Ne.symm hother, rfl⟩
  | reply _ hq => exact (h.take hq fun k hk => by cases hk).resume _ _ _
  | accept hq => exact h.accept hq
  | @forward i q mixed hq hopen hgone =>
    obtain rfl : mixed = none := hu
    exact h.forward hq ((ho.sound i).opened hopen hgone hg) (ho.no_exit hown hg)
  | announce hann _ => exact h.announce hann
  | serve hconn hq _ => exact h.serve ho hw hown hconn hq (hg.1 _ hq) _ _
  | exits _ hconn hq hexits =>
    rw [ho.survives hw hown hconn hq (hg.2 _ hconn _ hq)] at hexits
    cases hexits
  | hangup hconn hq _ => exact h.hangup hw hconn hq

end

section
variable {ι : Type} {own : ι → Str}

theorem promised_init (t : Table) [DecidableEq ι] : Promised own (World.init t : World ι) :=
  ⟨rfl, fun _ hq => absurd hq List.not_mem_nil, fun _ hq => absurd hq List.not_mem_nil,
    fun _ => .nil, fun _ hx => absurd hx List.not_mem_nil, fun _ hp => absurd hp List.not_mem_nil,
    nofun⟩

end

section
variable {ι : Type} [DecidableEq ι] {own : ι → Str} {w : World ι}

/-- **A payment notification means the payment happened**, in every run of menu-driven clients and
the server in which clients pay as `Fair` says. -/
theorem payments_honoured (hown : ∀ i, LoginName (own i)) {t : Table}
    (ht : ∀ r ∈ t.rows, '\x00' ∉ r.username ∧ '\x00' ∉ r.ip) {es : List (Happening ι)}
    (h : Run World.step (fun w e => Proper own w e ∧ Fair own w e) (World.init t) es w) :
    ∀ x ∈ w.notified, Honoured own w x := by
  have hinv : (Wired w ∧ Orderly own w) ∧ Promised own w := by
    refine h.inv (I := fun w => (Wired w ∧ Orderly own w) ∧ Promised own w)
      (fun _ _ _ hi hg hs => ?_) ⟨orderly_init ht, promised_init t⟩
    obtain ⟨⟨hw, ho⟩, hp⟩ := hi
    exact ⟨orderly_step hown hw ho hg.1 hs, promised_step hown hw ho hp hg.1.2.2 hg.2 hs⟩
  intro x hx
  exact hinv.2.honoured hown hx

end

/-- `a` pays `b` 300 of its 10000. -/
theorem payments_honoured_paid : ∃ w, Run World.step (fun w e => Proper seat w e ∧ Fair seat w e)
    (World.init Keyed.empty) (twoOnline ++ aPaysB 300) w ∧
      w.notified.map (fun x => notification x.2) = [some ("a".toList, "300".toList)] ∧
      ∀ x ∈ w.notified, Honoured seat w x := by
  have hrun : allowed World.step (fun w e => Proper seat w e ∧ Fair seat w e)
      (World.init Keyed.empty) (twoOnline ++ aPaysB 300) = true := by
    decide +kernel
  have hend : (runAll World.step (World.init Keyed.empty) (twoOnline ++ aPaysB 300)).map
      (fun w => w.notified.map fun x => notification x.2) =
        some [some ("a".toList, "300".toList)] := by
    decide +kernel
  obtain ⟨w, hw, hr⟩ := Run.of_allowed hrun
  rw [hw] at hend
  exact ⟨w, hr, Option.some.inj hend,
    payments_honoured loginName_seat (fun r hr => absurd hr List.not_mem_nil) hr⟩

/-- `a` pays `b` 20000 of its 10000: `b` is told so, and the server turns it down. -/
theorem bankrupt_notified : ∃ w, Run World.step (Proper seat) (World.init Keyed.empty)
    (twoOnline ++ aPaysB 20000) w ∧ ∃ x ∈ w.notified,
      notification x.2 = some ("a".toList, "20000".toList) ∧
      (x.1, some .transferSenderBankrupt) ∈ w.handled ∧ ¬Honoured seat w x := by
  have hrun : allowed World.step (Proper seat) (World.init Keyed.empty)
      (twoOnline ++ aPaysB 20000) = true := by
    decide +kernel
  have hend : (runAll World.step (World.init Keyed.empty) (twoOnline ++ aPaysB 20000)).map
      (fun w => (w.notified.contains (⟨.toServer true, false, 5, "a#20000#b".toList⟩,
          ["a".toList, "20000".toList, "b".toList]),
        w.handled.contains (⟨.toServer true, false, 5, "a#20000#b".toList⟩,
          some .transferSenderBankrupt))) = some (true, true) := by
    decide +kernel
  obtain ⟨w, hw, hr⟩ := Run.of_allowed hrun
  rw [hw] at hend
  obtain ⟨hnotified, hhandled⟩ := Prod.mk.inj (Option.some.inj hend)
  have hhandled := List.contains_iff_mem.1 hhandled
  refine ⟨w, hr, _, List.contains_iff_mem.1 hnotified, rfl, hhandled, ?_⟩
  rintro ⟨j, s, n, -, -, -, hok, -⟩
  have := hok _ hhandled
  cases this

end Micropayment
