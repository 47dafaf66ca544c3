import Micropayment.Proof.Accounts
import Micropayment.Proof.Delivery
import Micropayment.Proof.History

/-!
# The books of the whole system

The clients, the network and the server together: every balance at the server is the initial one
plus and minus the transfers carried out so far (`carriedOut`), and each of these is a payment that
the payer has made in the run, none of them counted twice (`books_balance`): what has been carried
out and what is on its way grows with the payments only (`Asks`).
-/

set_option autoImplicit false

namespace Micropayment

/-- The transfer that a message asks for. -/
def transferIn (raw : Str) : Option (Move Str ℚ) :=
  let item := parseCommand raw
  match item.1, stod (arg item.2 1) with
  | .transaction, .ok pay => some ⟨arg item.2 0, arg item.2 2, pay⟩
  | _, _ => none

/-- The transfers of the messages handled with success. -/
def carriedOut {ι : Type} (handled : List (Packet ι × Option Status)) : List (Move Str ℚ) :=
  handled.flatMap fun x =>
    if x.2 = some .transferOk then (transferIn (cStr x.1.text)).toList else []

/-- The transfer that the server has still to carry out for the message. -/
def Packet.due {ι : Type} (q : Packet ι) : List (Move Str ℚ) :=
  match q.place with
  | .toClient _ => []
  | _ => (transferIn (cStr q.text)).toList

/-- The transfers on their way. -/
def World.underWay {ι : Type} (w : World ι) : List (Move Str ℚ) := w.packets.flatMap Packet.due

/-- The payment that a user makes. -/
def Happening.payment {ι : Type} (own : ι → Str) : Happening ι → List (Move Str ℚ)
  | .pay i receiver amount _ _ => [⟨own i, receiver, amount⟩]
  | _ => []

/-- From `w` to `w'` the users have asked for the transfers `l`, and no transfer has been turned
down. -/
def Asks {ι : Type} (w w' : World ι) (l : List (Move Str ℚ)) : Prop :=
  (carriedOut w'.handled ++ w'.underWay).Perm (l ++ (carriedOut w.handled ++ w.underWay))

/-- The message is a payment of the client `u`. -/
def PaidBy (u text : Str) : Prop :=
  ∃ (n : Int) (v : Str), 0 < n ∧ text = transactMsg u n v ∧ transferIn (cStr text) = some ⟨u, v, n⟩

/-! ## One message -/

section
variable {u text : Str} {t : Table} {s : Server} {c : Conn}

theorem IsRequest.not_transaction {session : Option Str} {r : Request} (hu : IsArg u)
    (hr : u ≠ "REGISTER".toList) (h : IsRequest u session r text) :
    (parseCommand (cStr text)).1 ≠ .transaction := by
  rw [parseCommand_cStr]
  cases h with
  | register name hcmd => exact hcmd
  | @login port h1 h2 hout =>
    rw [parseCommand_two hu (isArg_toStr port), cmdType_two, if_neg hr]
    split <;> simp
  | list | exit => decide +kernel

/-- A call that is no transfer moves no money. -/
theorem holding_quiet {x : Call} (hw : x.Whole) (hm : x.moves t = []) (v : Str) :
    (holding (x.prog.run t).2 v : ℚ) = holding t v := by
  have h := holding_exec hw rfl v (t := t)
  rw [hm] at h
  rw [h]
  simp [received, paid]

theorem callIn_quiet {raw : Str} (h : (parseCommand raw).1 ≠ .transaction) {x : Call}
    (hx : x ∈ Server.callIn c raw) : x.Whole ∧ ∀ t, x.moves t = [] := by
  unfold Server.callIn at hx
  dsimp only at hx
  cases hcmd : (parseCommand raw).1 with
  | transaction => exact absurd hcmd h
  | register | exit =>
    rw [hcmd] at hx
    obtain rfl := Option.some.inj hx
    exact ⟨trivial, fun _ => rfl⟩
  | login =>
    rw [hcmd] at hx
    obtain ⟨port, -, rfl⟩ := Option.map_eq_some_iff.1 hx
    exact ⟨trivial, fun _ => rfl⟩
  | list | err =>
    rw [hcmd] at hx
    cases hx

/-- What a message does to a balance, when it is no transfer. -/
theorem holding_other {raw : Str} (h : (parseCommand raw).1 ≠ .transaction) (v : Str) :
    (holding (applyCalls t (Server.callIn c raw).toList) v : ℚ) = holding t v := by
  cases hx : Server.callIn c raw with
  | none => rfl
  | some x =>
    obtain ⟨hw, hm⟩ := callIn_quiet h hx
    exact holding_quiet hw (hm t) v

theorem transferStatus_other {raw : Str} (h : (parseCommand raw).1 ≠ .transaction) :
    transferStatus s raw = none := by
  unfold transferStatus
  dsimp only
  split
  · rename_i hcmd _
    exact absurd hcmd h
  · rfl

theorem transferIn_transactMsg (hu : IsArg u) {x : P2pCall} (hx : x.Valid) :
    transferIn (cStr (transactMsg u x.1 x.2)) = some ⟨u, x.2, (x.1 : ℤ)⟩ := by
  have hparse := parseCommand_transactMsg hu hx
  have hstod := stod_toStr hx.lower hx.upper
  rw [cStr_transactMsg hu hx]
  simp [transferIn, hparse, arg, hstod]

/-- A payment at the server. -/
theorem transactMsg_call (hu : IsArg u) {x : P2pCall} (hx : x.Valid) :
    Server.callIn c (cStr (transactMsg u x.1 x.2)) = some (.transaction u x.2 (x.1 : ℤ)) ∧
      transferStatus s (cStr (transactMsg u x.1 x.2)) =
        some ((Call.transaction u x.2 (x.1 : ℤ)).status s.table) := by
  have hparse := parseCommand_transactMsg hu hx
  have hstod := stod_toStr hx.lower hx.upper
  rw [cStr_transactMsg hu hx]
  refine ⟨?_, ?_⟩
  · simp [Server.callIn, hparse, arg, hstod, Except.toOption]
  · simp [transferStatus, hparse, arg, hstod, Call.status, Call.prog]

/-- A message that asks for no transfer. -/
theorem transferIn_other {raw : Str} (h : (parseCommand raw).1 ≠ .transaction) :
    transferIn raw = none := by
  unfold transferIn
  dsimp only
  split
  · rename_i hcmd _
    exact absurd hcmd h
  · rfl

/-- Only positive amounts are transferred. -/
theorem pos_of_transferOk {snd rcv : Str} {pay : ℚ}
    (h : (Call.transaction snd rcv pay).status t = .transferOk) : 0 < pay := by
  rcases userTransaction_run t snd rcv pay with ⟨a, b, ht, -⟩ | ⟨-, st, hst, hrun⟩
  · exact ht.pos
  · have hstatus : (Call.transaction snd rcv pay).status t = st := congrArg Prod.fst hrun
    exact absurd (hstatus.symm.trans h) hst

end

/-! ## What one happening asks for -/

section
variable {ι : Type} {own : ι → Str} {w w' w'' : World ι} {q : Packet ι} {l : List (Move Str ℚ)}

theorem Packet.due_eq (h : ∀ k, q.place ≠ .toClient k) :
    q.due = (transferIn (cStr q.text)).toList := by
  unfold due
  split
  · rename_i k hk
    exact absurd hk (h k)
  · rfl

theorem Packet.due_reply {k : ι} (h : q.place = .toClient k) : q.due = [] := by
  unfold due
  rw [h]

/-- Only a client that pays has a payment on its way. -/
theorem Orderly.due_nil (h : Orderly own w) (hown : ∀ i, LoginName (own i)) (hq : q ∈ w.packets)
    (hmain : (w.programs q.client).main ≠ .waiting .transfer) : q.due = [] := by
  obtain ⟨r, hwait, -, hfits⟩ := h.inFlight q hq
  have hr : r ≠ .transfer := by
    rintro rfl
    exact hmain hwait
  cases hplace : q.place with
  | toClient k => exact Packet.due_reply hplace
  | port k | buffer k =>
    rw [hplace] at hfits
    exact absurd hfits.1 hr
  | toServer k =>
    rw [hplace] at hfits
    have hreq := (hfits.resolve_left fun ht => hr ht.1).2
    have hother := hreq.not_transaction (hown q.client).arg (hown q.client).ne
    rw [Packet.due_eq (by simp [hplace]), transferIn_other hother]
    rfl

/-- The server has handled one more message. -/
theorem carriedOut_cons (x : Packet ι × Option Status) (l : List (Packet ι × Option Status)) :
    carriedOut (x :: l) =
      (if x.2 = some .transferOk then (transferIn (cStr x.1.text)).toList else []) ++
        carriedOut l := rfl

namespace Asks

/-- Neither the messages nor what has been handled changes. -/
theorem quiet (hpackets : w'.packets = w.packets) (hhandled : w'.handled = w.handled) :
    Asks w w' [] := by
  rw [Asks, World.underWay, World.underWay, hpackets, hhandled]
  exact .refl _

theorem trans (h : Asks w w' []) (h' : Asks w' w'' l) : Asks w w'' l :=
  List.Perm.trans h' (List.Perm.append_left l h)

/-- A message is sent. -/
theorem posted (hpackets : w'.packets = w.packets ++ [q]) (hhandled : w'.handled = w.handled) :
    Asks w w' q.due := by
  rw [Asks, World.underWay, World.underWay, hpackets, hhandled, List.flatMap_append,
    List.flatMap_singleton, ← List.append_assoc]
  exact List.perm_append_comm

end Asks

end

section
variable {ι : Type} [DecidableEq ι] {own : ι → Str} {w w' : World ι} {i k : ι} {p : Program ι}
  {c : Conn} {q : Packet ι}

theorem World.underWay_take {l : Place ι} (hq : w.next l = some q) :
    w.underWay.Perm (q.due ++ (w.take l).underWay) :=
  (Mail.perm_takeFirst hq).flatMap_right _

/-- A request other than a payment. -/
theorem Orderly.due_request (hown : ∀ i, LoginName (own i)) {r : Request} {place : Place ι}
    {text : Str} (h : Orderly own (w.request i p r place text)) (hr : r ≠ .transfer) :
    (Packet.mk place i (p.requests + 1) text).due = [] := by
  refine h.due_nil hown (List.mem_append_right _ (List.mem_singleton_self _)) ?_
  show ((w.set i { p with main := .waiting r, requests := p.requests + 1 }).programs i).main ≠ _
  rw [World.programs_set_self]
  simpa using hr

namespace Asks

/-- A reply is taken. -/
theorem taken (hq : w.next (.toClient k) = some q) : Asks w (w.take (.toClient k)) [] := by
  have hperm := World.underWay_take hq
  rw [Packet.due_reply (Mail.head_place hq).2] at hperm
  exact hperm.symm.append_left _

/-- A message moves on. -/
theorem moved {l l' : Place ι} (hq : w.next l = some q) (hl : ∀ k, l ≠ .toClient k)
    (hl' : ∀ k, l' ≠ .toClient k) : Asks w ((w.take l).post [{ q with place := l' }]) [] := by
  have hold : q.due = (transferIn (cStr q.text)).toList :=
    Packet.due_eq fun k hk => hl k ((Mail.head_place hq).2.symm.trans hk)
  have hnew : Packet.due { q with place := l' } = (transferIn (cStr q.text)).toList :=
    Packet.due_eq hl'
  have hperm := World.underWay_take hq
  rw [hold] at hperm
  show (_ ++ ((w.take l).packets ++ [_]).flatMap Packet.due).Perm _
  rw [List.flatMap_append, List.flatMap_singleton, hnew]
  exact (List.perm_append_comm.trans hperm.symm).append_left _

/-- The main thread sends the server a request other than a payment. -/
theorem request (hown : ∀ i, LoginName (own i)) {r : Request} {place : Place ι} {text : Str}
    (h : Orderly own (w.request i p r place text)) (hr : r ≠ .transfer) :
    Asks w (w.request i p r place text) [] := by
  rw [← h.due_request hown hr]
  exact posted rfl rfl

theorem resume (w : World ι) (i : ι) (text : Str) (info : Except ListError ListInfo)
    (r : Request) : Asks w (w.resume i text info r) [] := by
  obtain ⟨p, he, -⟩ := w.resume_eq i text info r
  rw [he]
  exact quiet rfl rfl

/-- A client pays. -/
theorem pay (hown : ∀ i, LoginName (own i)) {receiver text : Str} {amount : Int} {peer : ι}
    (hpay : P2pCall.Valid (amount, receiver) ∧ text = transactMsg (own i) amount receiver) :
    Asks w (w.request i p .transfer (.port peer) text) [⟨own i, receiver, amount⟩] := by
  obtain ⟨hvalid, rfl⟩ := hpay
  have hmove := transferIn_transactMsg (hown i).arg hvalid
  have hdue : (Packet.mk (.port peer) i (p.requests + 1)
      (transactMsg (own i) amount receiver)).due = [⟨own i, receiver, amount⟩] := by
    rw [Packet.due_eq nofun]
    exact congrArg Option.toList hmove
  rw [← hdue]
  exact posted rfl rfl

end Asks

theorem World.transfers_take {l : Place ι} (hq : w.next l = some q) :
    (q.due ++ (carriedOut w.handled ++ (w.take l).underWay)).Perm
      (carriedOut w.handled ++ w.underWay) := by
  rw [← List.append_assoc]
  refine (List.perm_append_comm.append_right _).trans ?_
  rw [List.append_assoc]
  exact (World.underWay_take hq).symm.append_left _

/-- The server takes a message off its way. It may turn down the transfer that was due. -/
theorem World.transfers_serve (hq : w.next (.toServer k) = some q) (resume : Bool)
    (stray : Option Nat) :
    (carriedOut (w.serve k c q resume stray).handled ++
      (w.serve k c q resume stray).underWay).Perm
        ((if transferStatus w.server (cStr q.text) = some .transferOk then q.due else []) ++
          (carriedOut w.handled ++ (w.take (.toServer k)).underWay)) := by
  have hdue : q.due = (transferIn (cStr q.text)).toList :=
    Packet.due_eq (by simp [(Mail.head_place hq).2])
  have hreplies : (w.replies c q stray).flatMap Packet.due = [] := by
    rw [List.flatMap_eq_nil_iff]
    intro x hx
    obtain ⟨i, hi⟩ := place_of_mem_replies hx
    exact Packet.due_reply hi
  show (carriedOut ((q, transferStatus w.server (cStr q.text)) :: w.handled) ++
    ((w.take (.toServer k)).packets ++ w.replies c q stray).flatMap Packet.due).Perm _
  rw [carriedOut_cons, List.flatMap_append, hreplies, List.append_nil, hdue, List.append_assoc]
  exact .refl _

/-- Only payments add to the transfers; the server may turn one down. -/
theorem asks_step (hown : ∀ i, LoginName (own i)) (hw : Wired w) (ho : Orderly own w)
    {e : Happening ι} (hg : Proper own w e) (hs : w.step e = some w') :
    Asks w w' (e.payment own) ∨ ∃ i resume stray c q, e = .serve i resume stray ∧
      w.conn i = some c ∧ w.next (.toServer i) = some q ∧ w' = w.serve i c q resume stray := by
  have hnext := (orderly_step hown hw ho hg hs).2
  cases World.step_cases hs with
  | serve hconn hq _ => exact .inr ⟨_, _, _, _, _, rfl, hconn, hq, rfl⟩
  | connect | notFound | announce | hangup | exits => exact .inl (.quiet rfl rfl)
  | register | login | list | transaction | exit => exact .inl (.request hown hnext (by simp))
  | pay _ h1 h2 hport htext => exact .inl (.pay hown (ho.payment hown h1 h2 hport hg.2.2 htext))
  | reply _ hq => exact .inl ((Asks.taken hq).trans (.resume _ _ _ _ _))
  | accept hq => exact .inl (.moved hq (by simp) (by simp))
  | @forward i q _ hq _ _ =>
    have hmoved : Asks w ((w.take (.buffer i)).post [{ q with place := .toServer i }]) [] :=
      .moved hq (by simp) (by simp)
    exact .inl (hmoved.trans (.quiet rfl rfl))

/-- No step makes up a transfer. -/
theorem transfers_step (hown : ∀ i, LoginName (own i)) (hw : Wired w) (ho : Orderly own w)
    {e : Happening ι} (hg : Proper own w e) (hs : w.step e = some w') :
    (carriedOut w'.handled ++ w'.underWay).Subperm
      (e.payment own ++ (carriedOut w.handled ++ w.underWay)) := by
  rcases asks_step hown hw ho hg hs with hasks | ⟨i, resume, stray, c, q, rfl, -, hq, rfl⟩
  · exact hasks.subperm
  · have htake := (World.transfers_take hq).subperm
    refine (World.transfers_serve hq resume stray).subperm.trans (.trans ?_ htake)
    split
    · exact .refl _
    · exact (List.sublist_append_right _ _).subperm

end

/-! ## The invariant -/

section
variable {ι : Type} {own : ι → Str} {w w' : World ι}

structure Booked (own : ι → Str) (w : World ι) : Prop where
  holdings : ∀ u, (holding w.server.table u : ℚ) =
    10000 + received (carriedOut w.handled) u - paid (carriedOut w.handled) u
  payments : ∀ x ∈ w.handled, x.2 = some .transferOk → PaidBy (own x.1.client) x.1.text

/-- Nothing has been handled, and no balance has changed. -/
theorem Booked.quiet (h : Booked own w)
    (htable : ∀ u, (holding w'.server.table u : ℚ) = holding w.server.table u)
    (hhandled : w'.handled = w.handled) : Booked own w' := by
  refine ⟨fun u => ?_, ?_⟩
  · rw [htable, hhandled]
    exact h.holdings u
  · rw [hhandled]
    exact h.payments

end

section
variable {ι : Type} [DecidableEq ι] {own : ι → Str} {w w' : World ι}

/-- A main thread that goes on leaves the server alone. -/
theorem World.resume_frame (w : World ι) (i : ι) (text : Str) (info : Except ListError ListInfo)
    (r : Request) : (w.resume i text info r).server = w.server ∧
      (w.resume i text info r).handled = w.handled := by
  obtain ⟨p, he, -⟩ := w.resume_eq i text info r
  rw [he]
  exact ⟨rfl, rfl⟩

theorem Booked.serve (h : Booked own w) (ho : Orderly own w) (hw : Wired w)
    (hown : ∀ i, LoginName (own i)) {i : ι} {c : Conn} {q : Packet ι} (hconn : w.conn i = some c)
    (hq : w.next (.toServer i) = some q) (resume : Bool) (stray : Option Nat) :
    Booked own (w.serve i c q resume stray) := by
  obtain ⟨hmem, hplace⟩ := Mail.head_place hq
  obtain ⟨fd, response, r', session', hans⟩ := ho.answered hw hown hconn hq resume stray
  have hc := (Wired.conn_some hconn).2
  have htable : (w.serve i c q resume stray).server.table =
      applyCalls w.server.table (Server.callIn c (cStr q.text)).toList := by
    have hstep := Server.step_table (Server.step_message hc q.text resume)
    simp only [Server.callOf, Keyed.find?_of_mem hc, Option.bind_some, if_neg hans.answer.ne]
      at hstep
    exact hstep
  have hhandled : (w.serve i c q resume stray).handled =
      (q, transferStatus w.server (cStr q.text)) :: w.handled := rfl
  obtain ⟨r, -, -, hfits⟩ := ho.inFlight q hmem
  rw [hplace] at hfits
  rcases hfits with ⟨-, x, hx, htext⟩ | ⟨-, hreq⟩
  · obtain ⟨hcall, hstatus⟩ := transactMsg_call (c := c) (s := w.server) (hown q.client).arg hx
    have hmove := transferIn_transactMsg (hown q.client).arg hx
    rw [← htext] at hcall hstatus hmove
    rw [hcall] at htable
    rw [hstatus] at hhandled
    have hexec := holding_exec (c := .transaction (own q.client) x.2 (x.1 : ℤ))
      (t := w.server.table) ⟨x.1, rfl⟩ rfl
    have hmoves : (Call.transaction (own q.client) x.2 (x.1 : ℤ)).moves w.server.table =
        if some ((Call.transaction (own q.client) x.2 (x.1 : ℤ)).status w.server.table) =
          some Status.transferOk then (transferIn (cStr q.text)).toList else [] := by
      rw [hmove]
      simp [Call.moves]
    refine ⟨fun u => ?_, fun y hy hok => ?_⟩
    · have hu := hexec u
      rw [hmoves] at hu
      rw [htable, hhandled, carriedOut_cons]
      show (holding ((Call.transaction (own q.client) x.2 (x.1 : ℤ)).prog.run w.server.table).2 u :
        ℚ) = _
      rw [hu, h.holdings u]
      simp only [received, paid, List.map_append, List.sum_append]
      ring
    · rw [hhandled] at hy
      rcases List.mem_cons.1 hy with rfl | hy
      · have hpos := pos_of_transferOk (Option.some.inj hok)
        exact ⟨x.1, x.2, by exact_mod_cast hpos, htext, hmove⟩
      · exact h.payments y hy hok
  · have hother := hreq.not_transaction (hown q.client).arg (hown q.client).ne
    rw [transferStatus_other hother] at hhandled
    refine ⟨fun u => ?_, fun y hy hok => ?_⟩
    · rw [htable, hhandled, carriedOut_cons, holding_other hother, if_neg (by simp)]
      exact h.holdings u
    · rw [hhandled] at hy
      rcases List.mem_cons.1 hy with rfl | hy
      · cases hok
      · exact h.payments y hy hok

theorem booked_step (hown : ∀ i, LoginName (own i)) (hw : Wired w) (ho : Orderly own w)
    (h : Booked own w) {e : Happening ι} (hs : w.step e = some w') : Booked own w' := by
  cases World.step_cases hs with
  | serve hconn hq _ => exact h.serve ho hw hown hconn hq _ _
  | @connect i a b c d port server hmain hserver =>
    refine h.quiet (fun u => ?_) rfl
    dsimp only
    rw [Server.step_accept hserver]
    rfl
  | @hangup i c hconn _ _ =>
    refine h.quiet (fun u => ?_) rfl
    exact holding_quiet (x := .logout c.clientip c.clientport) trivial rfl u
  | @reply i r q mixed _ _ =>
    obtain ⟨hserver, hhandled⟩ := World.resume_frame (w.take (.toClient i)) i q.text
      (mixed.getD (parseListInfo q.text)) r
    exact h.quiet (fun u => by rw [hserver]; rfl) hhandled
  | register | login | list | transaction | notFound | pay | exit | accept | forward | announce
  | exits =>
    exact h.quiet (fun u => rfl) rfl

end

section
variable {ι : Type} [DecidableEq ι] {own : ι → Str} {w : World ι}

theorem booked_run (hown : ∀ i, LoginName (own i)) {es : List (Happening ι)}
    (h : Run World.step (Proper own) (World.init Keyed.empty) es w) : Booked own w := by
  have hinv : (Wired w ∧ Orderly own w) ∧ Booked own w := by
    refine h.inv (I := fun w => (Wired w ∧ Orderly own w) ∧ Booked own w)
      (fun _ _ _ hi hg hs => ?_) ⟨orderly_init fun r hr => absurd hr List.not_mem_nil, ?_⟩
    · exact ⟨orderly_step hown hi.1.1 hi.1.2 hg hs, booked_step hown hi.1.1 hi.1.2 hi.2 hs⟩
    · refine ⟨fun u => ?_, fun x hx => absurd hx List.not_mem_nil⟩
      simp [holding, World.init, Server.init, carriedOut, received, paid, initialBalance,
        Keyed.find?, Keyed.empty]
  exact hinv.2

/-- What has been carried out and what is on its way was paid for in the run. -/
theorem transfers_run (hown : ∀ i, LoginName (own i)) {t : Table}
    (ht : ∀ r ∈ t.rows, '\x00' ∉ r.username ∧ '\x00' ∉ r.ip) {es : List (Happening ι)}
    (h : Run World.step (Proper own) (World.init t) es w) :
    (carriedOut w.handled ++ w.underWay).Subperm (es.flatMap (Happening.payment own)) := by
  have hall := h.collect_le (I := fun w => Wired w ∧ Orderly own w)
    (fun w => ↑(carriedOut w.handled ++ w.underWay)) (Happening.payment own)
    (fun _ _ _ hi hg hs => orderly_step hown hi.1 hi.2 hg hs)
    (fun _ _ _ hi hg hs => Multiset.coe_le.2 (transfers_step hown hi.1 hi.2 hg hs))
    (orderly_init ht)
  exact Multiset.coe_le.1 (hall.trans (add_zero _).le)

end

end Micropayment
