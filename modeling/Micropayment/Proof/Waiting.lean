import Micropayment.Lib.Tally
import Micropayment.Proof.Delivery

/-!
# Nobody waits for ever

Without its users the system comes to rest after boundedly many steps (`World.effort_lt`). Every
client that waits then has an answer, and all requests have been handled (`requests_answered`), if
clients leave only when no payment is at them (`Patient`): the request or reply of a client that
waits is somewhere (`Awaited`), and whoever it is at takes it (`Attended`). `payer_stranded` is a
run in which the payee leaves.
-/

set_option autoImplicit false

namespace Micropayment

section
variable {ι : Type} [DecidableEq ι]

/-- Nobody leaves with a payment at its port or in its `buffer`, and nobody pays a client that is
leaving. No reply to a List ends a client by an exception, and the server has room for its
replies. -/
def Patient (w : World ι) : Happening ι → Prop
  | .exit i => ∀ q ∈ w.packets, q.place ≠ .port i ∧ q.place ≠ .buffer i
  | .pay _ _ _ peer _ => (w.programs peer).main ≠ .waiting .exit
  | .reply i _ => ∀ q ∈ w.next (.toClient i), ∀ pay, (w.programs i).main = .waiting (.list pay) →
      cStr q.text = "Please login first\n".toList ∨ (parseListInfo q.text).isOk = true
  | .serve i resume stray => Roomy w (.serve i resume stray)
  | _ => True

instance (w : World ι) (e : Happening ι) : Decidable (Patient w e) :=
  match e with
  | .exit i =>
    inferInstanceAs (Decidable (∀ q ∈ w.packets, q.place ≠ .port i ∧ q.place ≠ .buffer i))
  | .pay _ _ _ peer _ => inferInstanceAs (Decidable ((w.programs peer).main ≠ .waiting .exit))
  | .reply i _ =>
    inferInstanceAs (Decidable (∀ q ∈ w.next (.toClient i), ∀ pay,
      (w.programs i).main = .waiting (.list pay) →
        cStr q.text = "Please login first\n".toList ∨ (parseListInfo q.text).isOk = true))
  | .serve i resume stray => inferInstanceAs (Decidable (Roomy w (.serve i resume stray)))
  | .connect .. | .register .. | .login .. | .list _ | .transaction _ | .notFound ..
  | .accept _ | .forward .. | .announce _ | .hangup _ => .isTrue trivial

/-- What happens without a user: a `request_list` of the menu itself is one too. -/
def World.Own (w : World ι) : Happening ι → Prop
  | .list i => (w.programs i).main = .renewing
  | .reply .. | .accept _ | .forward .. | .announce _ | .serve .. | .hangup _ => True
  | _ => False

/-- The system waits for its users. -/
def World.Settled (w : World ι) : Prop := ∀ e, w.Own e → w.step e = none

end

/-! ## Coming to rest -/

section
variable {ι : Type} {w : World ι} {q : Packet ι}

/-- The steps that a message at the place can still lead to. -/
def Place.effort : Place ι → Nat
  | .toClient _ => 1
  | .toServer _ => 2
  | .buffer _ => 4
  | .port _ => 5

/-- A List follows a successful LOGIN, and a payment. -/
def Main.effort : Main → Nat
  | .waiting .login | .waiting .transfer | .renewing => 3
  | _ => 0

def Program.effort (p : Program ι) : Nat := p.announcing.toList.length + p.main.effort

namespace World

def effort [Fintype ι] (w : World ι) : Nat :=
  (w.packets.map fun q => q.place.effort).sum + tally Program.effort w.programs +
    w.server.conns.rows.length + if w.exited then 0 else 1

theorem sum_post (ps : List (Packet ι)) :
    ((w.post ps).packets.map fun q => q.place.effort).sum =
      (w.packets.map fun q => q.place.effort).sum + (ps.map fun q => q.place.effort).sum := by
  unfold post
  rw [List.map_append, List.sum_append]

theorem effort_post [Fintype ι] (ps : List (Packet ι)) :
    (w.post ps).effort = w.effort + (ps.map fun q => q.place.effort).sum := by
  have hsum := sum_post (w := w) ps
  have hprograms : (w.post ps).programs = w.programs := rfl
  have hserver : (w.post ps).server = w.server := rfl
  have hexited : (w.post ps).exited = w.exited := rfl
  unfold effort
  rw [hsum, hprograms, hserver, hexited]
  omega

/-- A message is answered by at most one frame. -/
theorem effort_replies (c : Conn) (stray : Option Nat) :
    ((w.replies c q stray).map fun q => q.place.effort).sum ≤ 1 := by
  have hdeliver : ∀ fd response,
      ((w.deliver q fd response).map fun q => q.place.effort).sum ≤ 1 := by
    intro fd response
    unfold deliver
    split
    · exact le_rfl
    · exact Nat.zero_le _
  unfold replies
  split
  · split
    · exact Nat.zero_le _
    · exact hdeliver _ _
  · exact Nat.zero_le _
  · split
    · exact hdeliver _ _
    · exact Nat.zero_le _

theorem length_iteration {s : Server} (c : Conn) (buffer : Str) (resume : Bool) :
    (s.iteration c buffer resume).conns.rows.length ≤ s.conns.rows.length := by
  have herase : (s.conns.erase c.id).rows.length ≤ s.conns.rows.length := List.length_filter_le ..
  unfold Server.iteration
  dsimp only
  split
  · exact herase
  · unfold Server.after
    dsimp only
    split
    · exact (List.length_map _).le
    · exact herase

end World

end

section
variable {ι : Type} [DecidableEq ι] {w : World ι} {i : ι} {q : Packet ι} {p : Program ι}

namespace World

theorem sum_take {l : Place ι} (hq : w.next l = some q) :
    (w.packets.map fun q => q.place.effort).sum =
      l.effort + ((w.take l).packets.map fun q => q.place.effort).sum := by
  rw [((Mail.perm_takeFirst hq).map _).sum_eq, List.map_cons, List.sum_cons, (Mail.head_place hq).2]
  rfl

variable [Fintype ι]

theorem effort_set (w : World ι) (i : ι) (p : Program ι) :
    (w.set i p).effort + (w.programs i).effort = w.effort + p.effort := by
  have htally := tally_update Program.effort w.programs i p
  unfold effort World.set
  dsimp only
  omega

theorem effort_take {l : Place ι} (hq : w.next l = some q) :
    (w.take l).effort + l.effort = w.effort := by
  have hsum := sum_take hq
  have hprograms : (w.take l).programs = w.programs := rfl
  have hserver : (w.take l).server = w.server := rfl
  have hexited : (w.take l).exited = w.exited := rfl
  unfold effort
  rw [hsum, hprograms, hserver, hexited]
  omega

/-- A main thread that goes on has at most a List to ask for. -/
theorem effort_resume {r : Request} (hmain : (w.programs i).main = .waiting r) (text : Str)
    (info : Except ListError ListInfo) : (w.resume i text info r).effort ≤ w.effort := by
  have hset : ∀ p : Program ι, p.announcing = (w.programs i).announcing →
      p.main.effort ≤ (w.programs i).main.effort → (w.set i p).effort ≤ w.effort := by
    intro p hann hle
    have hset := effort_set w i p
    unfold Program.effort at hset
    rw [hann] at hset
    omega
  rw [hmain] at hset
  cases r with
  | register | exit => exact hset _ rfl (Nat.zero_le _)
  | transfer => exact hset _ rfl le_rfl
  | login =>
    unfold resume
    dsimp only
    split
    · exact hset _ rfl (Nat.zero_le _)
    · exact hset _ rfl le_rfl
  | list pay =>
    have hafter : (afterList pay).effort = 0 := by cases pay <;> rfl
    unfold resume
    dsimp only
    split
    · exact hset _ rfl hafter.le
    · split
      · exact hset _ rfl (Nat.zero_le _)
      · exact hset _ rfl hafter.le

/-- The List costs less than its being due. -/
theorem effort_list (hmain : (w.programs i).main = .renewing) (text : Str) :
    (w.request i (w.programs i) (.list false) (.toServer i) text).effort < w.effort := by
  have hset := effort_set w i { w.programs i with
    main := .waiting (.list false), requests := (w.programs i).requests + 1 }
  have hold : (w.programs i).effort = (w.programs i).announcing.toList.length + 3 := by
    unfold Program.effort
    rw [hmain]
    rfl
  have hnew : Program.effort { w.programs i with
      main := .waiting (.list false), requests := (w.programs i).requests + 1 } =
        (w.programs i).announcing.toList.length := rfl
  rw [hold, hnew] at hset
  unfold request
  rw [effort_post]
  simp only [List.map_cons, List.map_nil, List.sum_cons, List.sum_nil, Place.effort] at hset ⊢
  omega

theorem effort_serve {c : Conn} (hq : w.next (.toServer i) = some q) (resume : Bool)
    (stray : Option Nat) : (w.serve i c q resume stray).effort < w.effort := by
  have hsum := sum_take hq
  have hreplies := effort_replies (w := w) (q := q) c stray
  have hconns := length_iteration (s := w.server) c q.text resume
  have hpackets : (w.serve i c q resume stray).packets =
      (w.take (.toServer i)).packets ++ w.replies c q stray := rfl
  have hprograms : (w.serve i c q resume stray).programs = w.programs := rfl
  have hserver : (w.serve i c q resume stray).server = w.server.iteration c q.text resume := rfl
  have hexited : (w.serve i c q resume stray).exited = w.exited := rfl
  have htwo : (Place.toServer i).effort = 2 := rfl
  unfold effort
  rw [hsum, hpackets, hprograms, hserver, hexited, List.map_append, List.sum_append]
  omega

/-- **Every step without a user takes effort.** -/
theorem effort_lt {w' : World ι} {e : Happening ι} (he : w.Own e) (hs : w.step e = some w') :
    w'.effort < w.effort := by
  cases World.step_cases hs with
  | @reply i r q mixed hmain hq =>
    have htake := effort_take hq
    have hresume := effort_resume (w := w.take (.toClient i)) hmain q.text
      (mixed.getD (parseListInfo q.text))
    simp only [Place.effort] at htake
    omega
  | accept hq =>
    have htake := effort_take hq
    rw [effort_post]
    simp only [List.map_cons, List.map_nil, List.sum_cons, List.sum_nil, Place.effort] at htake ⊢
    omega
  | @forward i q mixed hq _ _ =>
    have htake := effort_take hq
    have hset := effort_set ((w.take (.buffer i)).post [{ q with place := .toServer i }]) i
      { w.programs i with
        announcing := some ({ q with place := .toServer i }, mixed.getD (split q.text "#".toList)) }
    have hold : (((w.take (.buffer i)).post [{ q with place := .toServer i }]).programs i).effort =
        (w.programs i).announcing.toList.length + (w.programs i).main.effort := rfl
    have hnew : Program.effort { w.programs i with
        announcing :=
          some ({ q with place := .toServer i }, mixed.getD (split q.text "#".toList)) } =
            1 + (w.programs i).main.effort := rfl
    rw [effort_post, hold, hnew] at hset
    simp only [List.map_cons, List.map_nil, List.sum_cons, List.sum_nil, Place.effort]
      at htake hset ⊢
    omega
  | @announce i x hann _ =>
    have hset := effort_set w i { w.programs i with announcing := none }
    have hold : (w.programs i).effort = 1 + (w.programs i).main.effort := by
      unfold Program.effort
      rw [hann]
      rfl
    have hnew : ({ w.programs i with announcing := none } : Program ι).effort =
        0 + (w.programs i).main.effort := rfl
    rw [hold, hnew] at hset
    show (w.set i { w.programs i with announcing := none }).effort < w.effort
    omega
  | serve hconn hq _ => exact effort_serve hq _ _
  | exits hlives _ _ _ =>
    unfold effort
    rw [hlives]
    exact Nat.lt_succ_self _
  | @hangup i c hconn hq _ =>
    have hlen := Keyed.length_erase (Keyed.find?_of_mem (Wired.conn_some hconn).2)
    show (w.packets.map fun q => q.place.effort).sum + tally Program.effort w.programs +
      (w.server.conns.erase c.id).rows.length + (if w.exited then 0 else 1) < w.effort
    unfold effort
    omega
  | list => exact effort_list he _
  | connect | register | login | transaction | notFound | pay | exit => exact he.elim

end World

end

/-! ## What a waiting client waits for is on its way -/

/-- While the main thread waits, a message of its own is on its way. -/
def Awaited {ι : Type} (w : World ι) (k : ι) : Prop :=
  ∀ r, (w.programs k).main = .waiting r → ∃ q ∈ w.packets, q.client = k

theorem Awaited.same {ι : Type} {w w' : World ι} {k : ι} (h : Awaited w k)
    (hmain : (w'.programs k).main = (w.programs k).main)
    (hpackets : ∀ x ∈ w.packets, x.client = k → ∃ y ∈ w'.packets, y.client = k) :
    Awaited w' k := by
  intro r hr
  obtain ⟨x, hx, hclient⟩ := h r (hmain.symm.trans hr)
  exact hpackets x hx hclient

section
variable {ι : Type} [DecidableEq ι]

namespace Awaited

variable {w w' : World ι} {i k : ι} {p : Program ι} {q : Packet ι}

theorem set (h : Awaited w k)
    (hmain : p.main = (w.programs i).main ∨ ∀ r, p.main ≠ .waiting r) :
    Awaited (w.set i p) k := by
  by_cases hk : k = i
  · subst hk
    rcases hmain with hmain | hmain
    · refine h.same ?_ fun x hx hclient => ⟨x, hx, hclient⟩
      rw [World.programs_set_self, hmain]
    · intro r hr
      rw [World.programs_set_self] at hr
      exact absurd hr (hmain r)
  · refine h.same ?_ fun x hx hclient => ⟨x, hx, hclient⟩
    rw [World.programs_set_other w p hk]

theorem request (h : k ≠ i → Awaited w k) (r : Request) (place : Place ι) (text : Str) :
    Awaited (w.request i p r place text) k := by
  by_cases hk : k = i
  · subst hk
    exact fun _ _ => ⟨_, List.mem_append_right _ (List.mem_singleton_self _), rfl⟩
  · refine (h hk).same ?_ fun x hx hclient => ⟨x, List.mem_append_left _ hx, hclient⟩
    have hp : (w.request i p r place text).programs k =
        (w.set i { p with main := .waiting r, requests := p.requests + 1 }).programs k := rfl
    rw [hp, World.programs_set_other w _ hk]

/-- The main thread of `i` goes on with its reply. -/
theorem resume (h : k ≠ i → Awaited w k) (text : Str) (info : Except ListError ListInfo)
    (r : Request) : Awaited (w.resume i text info r) k := by
  obtain ⟨p, he, hp⟩ := w.resume_eq i text info r
  rw [he]
  by_cases hk : k = i
  · subst hk
    intro r hr
    rw [World.programs_set_self] at hr
    exact absurd hr (hp.idle r)
  · exact (h hk).set (.inr hp.idle)

/-- A message is replaced by another one of the same client. -/
theorem replaced (h : Awaited w k) {l : Place ι} (hq : w.next l = some q) {y : Packet ι}
    (hy : y.client = q.client) (hmain : (w'.programs k).main = (w.programs k).main)
    (hpackets : w'.packets = (w.take l).packets ++ [y]) : Awaited w' k := by
  refine h.same hmain fun x hx hclient => ?_
  rw [hpackets]
  rcases Mail.mem_takeFirst hq hx with rfl | hx
  · exact ⟨y, List.mem_append_right _ (List.mem_singleton_self _), hy.trans hclient⟩
  · exact ⟨x, List.mem_append_left _ hx, hclient⟩

end Awaited

theorem awaited_step {own : ι → Str} {w w' : World ι} (hown : ∀ i, LoginName (own i))
    (hw : Wired w) (ho : Orderly own w) (h : ∀ k, Awaited w k) {e : Happening ι}
    (hs : w.step e = some w') : ∀ k, Awaited w' k := by
  intro k
  have hk := h k
  cases World.step_cases hs with
  | @connect i a b c d port server hmain hserver =>
    have hset : Awaited (w.set i { w.programs i with
      main := .menu, serverFd := some w.server.accepted }) k := hk.set (.inr nofun)
    exact hset
  | register | login | list | transaction | exit | pay => exact .request (fun _ => hk) _ _ _
  | notFound _ => exact hk.set (.inr nofun)
  | @reply i r q mixed hmain hq =>
    obtain ⟨hmem, -⟩ := Mail.head_place hq
    have hi : q.client = i := by
      obtain ⟨_, -, -, hfits⟩ := ho.inFlight q hmem
      rw [(Mail.head_place hq).2] at hfits
      exact hfits.1.symm
    refine Awaited.resume (w := w.take (.toClient i)) (fun hki => ?_) q.text _ r
    refine hk.same rfl fun x hx hclient => ⟨x, ?_, hclient⟩
    refine (InTurn.mem_take hq ?_).2 hx
    rw [hclient, hi]
    exact hki
  | accept hq => exact hk.replaced hq (by rfl) rfl rfl
  | @forward i q mixed hq _ _ =>
    refine hk.replaced (y := { q with place := .toServer i }) hq rfl ?_ rfl
    by_cases hki : k = i
    · rw [hki, World.programs_set_self]
    · rw [World.programs_set_other _ _ hki]
      rfl
  | @announce i x _ _ =>
    have hset : Awaited (w.set i { w.programs i with announcing := none }) k := hk.set (.inl rfl)
    exact hset
  | serve hconn hq _ =>
    obtain ⟨response, hreplies⟩ := ho.replies_one hw hown hconn hq _
    refine hk.replaced hq ?_ rfl (congrArg (_ ++ ·) hreplies)
    rfl
  | hangup | exits => exact hk

/-! ## Whoever a message is at takes it -/

/-- The client has a receive thread, and has not asked to leave. -/
def Program.InService (p : Program ι) : Prop :=
  p.clientServerOpen = true ∧ p.main ≠ .gone ∧ p.main ≠ .waiting .exit

structure Attended (w : World ι) : Prop where
  lives : w.exited = false
  staffed : ∀ q ∈ w.packets, ∀ k, q.place = .port k ∨ q.place = .buffer k →
    (w.programs k).InService
  online : ∀ q ∈ w.packets, ∀ k, q.place = .toServer k → w.session k ≠ none
  exits : ∀ k, (Mail.queue Packet.place w.packets (.toServer k)).Pairwise fun q _ => ¬q.Leaves
  announcing : ∀ k x, (w.programs k).announcing = some x → (notification x.2).isSome = true

namespace Attended

variable {own : ι → Str} {w w' : World ι} {i k : ι} {p : Program ι} {q : Packet ι}

theorem set (h : Attended w) (hfd : p.serverFd = (w.programs i).serverFd)
    (hservice : ∀ q ∈ w.packets, q.place = .port i ∨ q.place = .buffer i → p.InService)
    (hann : ∀ x, p.announcing = some x → (notification x.2).isSome = true) :
    Attended (w.set i p) := by
  refine ⟨h.lives, fun q hq k hplace => ?_, fun q hq k hplace => ?_, h.exits, fun k a ha => ?_⟩
  · by_cases hk : k = i
    · subst hk
      rw [World.programs_set_self]
      exact hservice q hq hplace
    · rw [World.programs_set_other w p hk]
      exact h.staffed q hq k hplace
  · rw [Orderly.session_set hfd]
    exact h.online q hq k hplace
  · by_cases hk : k = i
    · subst hk
      rw [World.programs_set_self] at ha
      exact hann a ha
    · rw [World.programs_set_other w p hk] at ha
      exact h.announcing k a ha

theorem take (h : Attended w) (l : Place ι) : Attended (w.take l) :=
  ⟨h.lives, fun q hq => h.staffed q (Mail.mem_of_mem_takeFirst hq),
    fun q hq => h.online q (Mail.mem_of_mem_takeFirst hq),
    fun k => (h.exits k).sublist Mail.queue_takeFirst_sublist, h.announcing⟩

theorem post (h : Attended w)
    (hservice : ∀ k, q.place = .port k ∨ q.place = .buffer k → (w.programs k).InService)
    (honline : ∀ k, q.place = .toServer k → w.session k ≠ none ∧ NoExit w k) :
    Attended (w.post [q]) := by
  refine ⟨h.lives, fun x hx => ?_, fun x hx => ?_, fun k => ?_, h.announcing⟩
  · rcases List.mem_append.1 hx with hx | hx
    · exact h.staffed x hx
    · obtain rfl := List.mem_singleton.1 hx
      exact hservice
  · rcases List.mem_append.1 hx with hx | hx
    · exact h.online x hx
    · obtain rfl := List.mem_singleton.1 hx
      exact fun k hplace => (honline k hplace).1
  · show (Mail.queue Packet.place (w.packets ++ [q]) _).Pairwise _
    rw [Mail.queue_append, List.pairwise_append]
    by_cases hplace : q.place = .toServer k
    · rw [Mail.queue_here hplace]
      exact ⟨h.exits k, List.pairwise_singleton .., fun x hx _ _ => (honline k hplace).2 x hx⟩
    · rw [Mail.queue_elsewhere hplace]
      exact ⟨h.exits k, .nil, fun _ _ _ hy => absurd hy List.not_mem_nil⟩

/-- The main thread sends a message. -/
theorem request (h : Attended w) (hfd : p.serverFd = (w.programs i).serverFd)
    (hann : p.announcing = (w.programs i).announcing)
    (hopen : (w.programs i).clientServerOpen = true → p.clientServerOpen = true) {r : Request}
    (hexit : r = .exit → ∀ q ∈ w.packets, q.place ≠ .port i ∧ q.place ≠ .buffer i)
    {place : Place ι} (text : Str)
    (hservice : ∀ k, place = .port k ∨ place = .buffer k →
      (w.programs k).InService ∧ (k = i → r ≠ .exit))
    (honline : ∀ k, place = .toServer k → w.session k ≠ none ∧ NoExit w k) :
    Attended (w.request i p r place text) := by
  have hstill : (w.programs i).InService → r ≠ .exit →
      Program.InService { p with main := .waiting r, requests := p.requests + 1 } :=
    fun hin hr => ⟨hopen hin.1, nofun, by simpa using hr⟩
  have hset : Attended (w.set i { p with main := .waiting r, requests := p.requests + 1 }) := by
    refine h.set hfd (fun q hq hplace => ?_) fun a ha => h.announcing i a (hann ▸ ha)
    refine hstill (h.staffed q hq i hplace) ?_
    rintro rfl
    rcases hplace with hplace | hplace
    · exact (hexit rfl q hq).1 hplace
    · exact (hexit rfl q hq).2 hplace
  refine hset.post (fun k hplace => ?_) fun k hplace => ?_
  · obtain ⟨hin, hr⟩ := hservice k hplace
    by_cases hk : k = i
    · subst hk
      rw [World.programs_set_self]
      exact hstill hin (hr rfl)
    · rw [World.programs_set_other w _ hk]
      exact hin
  · rw [Orderly.session_set (p := { p with main := .waiting r, requests := p.requests + 1 }) hfd]
    exact honline k hplace

/-- A request to the server. -/
theorem ask (h : Attended w) (hfd : p.serverFd = (w.programs i).serverFd)
    (hann : p.announcing = (w.programs i).announcing)
    (hopen : (w.programs i).clientServerOpen = true → p.clientServerOpen = true) {r : Request}
    (hexit : r = .exit → ∀ q ∈ w.packets, q.place ≠ .port i ∧ q.place ≠ .buffer i) (text : Str)
    (honline : w.session i ≠ none ∧ NoExit w i) :
    Attended (w.request i p r (.toServer i) text) := by
  refine h.request hfd hann hopen hexit text (fun k hplace => ?_) fun k hplace => ?_
  · rcases hplace with hplace | hplace <;> cases hplace
  · obtain rfl := Place.toServer.inj hplace
    exact honline

/-- The main thread goes on with a reply. -/
theorem resume (h : Attended w) {r : Request} (hmain : (w.programs i).main = .waiting r)
    (text : Str) {info : Except ListError ListInfo}
    (hlist : ∀ pay, r = .list pay →
      cStr text = "Please login first\n".toList ∨ info.isOk = true) :
    Attended (w.resume i text info r) := by
  have hset : ∀ p : Program ι, p.serverFd = (w.programs i).serverFd →
      p.announcing = (w.programs i).announcing →
      ((w.programs i).clientServerOpen = true → p.clientServerOpen = true) → p.main ≠ .gone →
      p.main ≠ .waiting .exit → Attended (w.set i p) := by
    intro p hfd hann hopen hgone hexit
    refine h.set hfd (fun q hq hplace => ?_) fun a ha => h.announcing i a (hann ▸ ha)
    exact ⟨hopen (h.staffed q hq i hplace).1, hgone, hexit⟩
  cases r with
  | register | transfer => exact hset _ rfl rfl id nofun nofun
  | exit =>
    refine h.set rfl (fun q hq hplace => ?_) (h.announcing i)
    exact absurd hmain (h.staffed q hq i hplace).2.2
  | login =>
    unfold World.resume
    dsimp only
    split
    · exact hset _ rfl rfl id nofun nofun
    · exact hset _ rfl rfl (fun _ => rfl) nofun nofun
  | list pay =>
    have hafter : World.afterList pay ≠ .gone ∧ World.afterList pay ≠ .waiting .exit := by
      cases pay <;> exact ⟨nofun, nofun⟩
    unfold World.resume
    dsimp only
    split
    · exact hset _ rfl rfl id hafter.1 hafter.2
    · rename_i hlogin
      split
      · have hok := (hlist pay rfl).resolve_left hlogin
        cases hok
      · exact hset _ rfl rfl id hafter.1 hafter.2

/-- `receiving` reads a message from a peer. -/
theorem accept (h : Attended w) (hq : w.next (.port i) = some q) :
    Attended ((w.take (.port i)).post [{ q with place := .buffer i }]) := by
  obtain ⟨hmem, hplace⟩ := Mail.head_place hq
  refine (h.take _).post (fun k hk => ?_) fun k hk => ?_
  · rcases hk with hk | hk
    · cases hk
    · obtain rfl := Place.buffer.inj hk
      exact h.staffed q hmem i (.inl hplace)
  · cases hk

/-- `receiving` passes the message on. -/
theorem forward (h : Attended w) (ho : Orderly own w) (hown : ∀ i, LoginName (own i))
    (hq : w.next (.buffer i) = some q) :
    Attended (((w.take (.buffer i)).post [{ q with place := .toServer i }]).set i
      { w.programs i with
        announcing := some ({ q with place := .toServer i }, split q.text "#".toList) }) := by
  obtain ⟨hmem, hplace⟩ := Mail.head_place hq
  obtain ⟨hopen, hgone, hstays⟩ := h.staffed q hmem i (.inr hplace)
  have hsession : w.session i = some (own i) := (ho.sound i).opened hopen hgone hstays
  have hpost : Attended ((w.take (.buffer i)).post [{ q with place := .toServer i }]) := by
    refine (h.take _).post (fun k hk => ?_) fun k hk => ?_
    · rcases hk with hk | hk <;> cases hk
    · obtain rfl := Place.toServer.inj hk
      refine ⟨?_, ?_⟩
      · show w.session i ≠ none
        rw [hsession]
        nofun
      · unfold NoExit World.take
        rw [Mail.queue_takeFirst_other hq (by nofun)]
        exact ho.no_exit hown hstays
  refine hpost.set rfl (fun x hx hk => hpost.staffed x hx i hk) fun a ha => ?_
  obtain rfl := Option.some.inj ha
  obtain ⟨r, -, -, hfits⟩ := ho.inFlight q hmem
  rw [hplace] at hfits
  obtain ⟨-, x, hx, htext⟩ := hfits
  dsimp only
  rw [htext, transactMsg, split_three (hown q.client).arg (isArg_toStr x.1) hx.receiver]
  rfl

/-- The session of a client ends with its Exit, after which nothing is on its connection. -/
theorem serve (h : Attended w) (ho : Orderly own w) (hw : Wired w)
    (hown : ∀ i, LoginName (own i)) {c : Conn} (hconn : w.conn i = some c)
    (hq : w.next (.toServer i) = some q) (resume : Bool) (stray : Option Nat) :
    Attended (w.serve i c q resume stray) := by
  obtain ⟨hmem, hi⟩ := Mail.head_place hq
  obtain ⟨fd, response, r, session', hans⟩ := ho.answered hw hown hconn hq resume stray
  have hold : ∀ x ∈ (w.serve i c q resume stray).packets,
      x ∈ (w.take (.toServer i)).packets ∨ ∃ k, x.place = .toClient k := fun x hx =>
    (List.mem_append.1 hx).imp_right place_of_mem_replies
  refine ⟨h.lives, fun x hx k hplace => ?_, fun x hx k hplace => ?_, fun k => ?_, h.announcing⟩
  · rcases hold x hx with hx | ⟨m, hm⟩
    · exact h.staffed x (Mail.mem_of_mem_takeFirst hx) k hplace
    · rw [hm] at hplace
      rcases hplace with hplace | hplace <;> cases hplace
  · rcases hold x hx with hx | ⟨m, hm⟩
    · rw [hans.sessions]
      split
      · rename_i hk
        have hwait := hans.waits
        refine hans.sound.live ?_ ?_ ?_
        · rw [hwait]
          nofun
        · rw [hwait]
          nofun
        · -- `x` would be behind the Exit
          intro hexit
          obtain ⟨r', hmain', -, hfits⟩ := ho.inFlight q hmem
          obtain rfl : r' = .exit := by simpa using hmain'.symm.trans hexit
          rw [hi] at hfits
          obtain ⟨rfl, hreq⟩ := hfits.resolve_left fun ht => by cases ht.1
          have hexits := h.exits q.client
          rw [Mail.queue_takeFirst hq, List.pairwise_cons] at hexits
          refine hexits.1 x (Mail.mem_queue.2 ⟨hx, hk ▸ hplace⟩) ?_
          exact (hreq.exit_iff (hown q.client).arg (hown q.client).ne).2 rfl
      · exact h.online x (Mail.mem_of_mem_takeFirst hx) k hplace
    · rw [hm] at hplace
      cases hplace
  · show (Mail.queue Packet.place
      ((w.take (.toServer i)).packets ++ w.replies c q stray) _).Pairwise _
    have hnil : Mail.queue Packet.place (w.replies c q stray) (.toServer k) = [] := by
      rw [List.eq_nil_iff_forall_not_mem]
      intro x hx
      obtain ⟨hx, hplace⟩ := Mail.mem_queue.1 hx
      obtain ⟨m, hm⟩ := place_of_mem_replies hx
      rw [hm] at hplace
      cases hplace
    rw [Mail.queue_append, hnil, List.append_nil]
    exact (h.exits k).sublist Mail.queue_takeFirst_sublist

theorem connect (h : Attended w) (ho : Orderly own w) (hw : Wired w)
    (hmain : (w.programs i).main = .start) {a b c d : UInt8} {port : Int} {server : Server}
    (hs : w.server.step (.accept (inetNtoa a b c d) port) = some server) :
    Attended { w.set i { w.programs i with
        main := .menu, serverFd := some w.server.accepted } with
      server, accepted := w.accepted ++ [i] } := by
  have hclosed := ((ho.sound i).start hmain).2
  refine ⟨h.lives, fun q hq k hplace => ?_, fun q hq k hplace => ?_, h.exits, fun k a ha => ?_⟩
  · have hin := h.staffed q hq k hplace
    have hk : k ≠ i := by
      rintro rfl
      rw [hin.1] at hclosed
      cases hclosed
    show ((w.set i { w.programs i with
      main := .menu, serverFd := some w.server.accepted }).programs k).InService
    rw [World.programs_set_other _ _ hk]
    exact hin
  · rw [hw.session_connect hs]
    split
    · nofun
    · exact h.online q hq k hplace
  · change ((w.set i { w.programs i with
      main := .menu, serverFd := some w.server.accepted }).programs k).announcing = some a at ha
    by_cases hk : k = i
    · subst hk
      rw [World.programs_set_self] at ha
      exact h.announcing k a ha
    · rw [World.programs_set_other _ _ hk] at ha
      exact h.announcing k a ha

theorem hangup (h : Attended w) (hw : Wired w) {c : Conn} (hconn : w.conn i = some c)
    (hq : w.next (.toServer i) = none) :
    Attended { w with server := w.server.disconnect c } := by
  refine ⟨h.lives, h.staffed, fun q hmem k hplace => ?_, h.exits, h.announcing⟩
  rw [hw.session_hangup hconn, if_neg]
  · exact h.online q hmem k hplace
  · rintro rfl
    have hnil := List.head?_eq_none_iff.1 hq
    have hqueue := Mail.mem_queue.2 ⟨hmem, hplace⟩
    rw [hnil] at hqueue
    cases hqueue

end Attended

theorem World.listening_of_pay {w w' : World ι} {i peer : ι} {receiver heap : Str} {amount : Int}
    (hs : w.step (.pay i receiver amount peer heap) = some w') :
    (w.programs peer).clientServerOpen = true ∧ (w.programs peer).main ≠ .gone := by
  obtain ⟨⟨-, -, -, hlisten, -⟩, -⟩ := Option.ite_none_right_eq_some.1 hs
  simpa [World.listening] using hlisten

theorem attended_step {own : ι → Str} {w w' : World ι} (hown : ∀ i, LoginName (own i))
    (hw : Wired w) (ho : Orderly own w) (h : Attended w) {e : Happening ι} (hu : Unspoiled e)
    (hg : Patient w e) (hs : w.step e = some w') : Attended w' := by
  have hmenu : ∀ {i}, (w.programs i).main = .menu ∨ (w.programs i).main = .renewing →
      w.session i ≠ none ∧ NoExit w i := by
    intro i hmain
    refine ⟨(ho.ready (hmain.imp_right .inr)).2.1, ho.no_exit hown ?_⟩
    rcases hmain with hmain | hmain
    all_goals rw [hmain]
    all_goals nofun
  cases World.step_cases hs with
  | connect hmain hserver => exact h.connect ho hw hmain hserver
  | register hmain | login hmain _ _ _ | transaction hmain =>
    exact h.ask (by rfl) (by rfl) (by exact id) (by nofun) _ (hmenu (.inl hmain))
  | list hmain => exact h.ask (by rfl) (by rfl) id (by nofun) _ (hmenu hmain)
  | exit hmain => exact h.ask (by rfl) (by rfl) id (fun _ => hg) _ (hmenu (.inl hmain))
  | @notFound i _ hmain =>
    refine h.set rfl (fun q hq hplace => ?_) (h.announcing i)
    exact ⟨(h.staffed q hq i hplace).1, nofun, nofun⟩
  | pay hmain _ _ _ _ =>
    obtain ⟨hopen, hgone⟩ := World.listening_of_pay hs
    refine h.request (by rfl) (by rfl) id (by nofun) _ (fun k hk => ?_) (by nofun)
    rcases hk with hk | hk
    · obtain rfl := Place.port.inj hk
      exact ⟨⟨hopen, hgone, hg⟩, nofun⟩
    · cases hk
  | @reply i r q mixed hmain hq =>
    obtain rfl : mixed = none := hu
    exact (h.take (.toClient i)).resume hmain _ fun pay hr => hg q hq pay (hr ▸ hmain)
  | accept hq => exact h.accept hq
  | @forward i q mixed hq _ _ =>
    obtain rfl : mixed = none := hu
    exact h.forward ho hown hq
  | @announce i x _ _ =>
    have hset : Attended (w.set i { w.programs i with announcing := none }) :=
      h.set rfl (fun q hq hplace => h.staffed q hq i hplace) nofun
    exact ⟨hset.lives, hset.staffed, hset.online, hset.exits, hset.announcing⟩
  | serve hconn hq _ => exact h.serve ho hw hown hconn hq _ _
  | exits _ hconn hq hexits =>
    rw [ho.survives hw hown hconn hq (hg _ hconn _ hq)] at hexits
    cases hexits
  | hangup hconn hq _ => exact h.hangup hw hconn hq

end

/-! ## The system at rest -/

section
variable {ι : Type} [DecidableEq ι] {own : ι → Str} {w w' : World ι}

theorem World.next_of_mem {q : Packet ι} {l : Place ι} (hq : q ∈ w.packets) (hl : q.place = l) :
    ∃ x, w.next l = some x := by
  obtain ⟨A, B, hAB⟩ := List.append_of_mem (Mail.mem_queue.2 ⟨hq, hl⟩)
  unfold World.next
  rw [hAB]
  cases A with
  | nil => exact ⟨q, rfl⟩
  | cons a A => exact ⟨a, rfl⟩

/-- Where a message is, something can happen. -/
theorem Attended.moves (h : Attended w) (ho : Orderly own w) {q : Packet ι} (hq : q ∈ w.packets) :
    ∃ e, w.Own e ∧ w.step e ≠ none := by
  have hlisten : ∀ {k}, (w.programs k).InService → w.listening k = true := by
    intro k hin
    simp [World.listening, hin.1, hin.2.1]
  have hforward : ∀ {k x}, w.next (.buffer k) = some x →
      w.step (.forward k none) ≠ none := by
    intro k x hx
    obtain ⟨hmem, hplace⟩ := Mail.head_place hx
    simp [World.step, hx, hlisten (h.staffed x hmem k (.inr hplace))]
  cases hplace : q.place with
  | toServer k =>
    obtain ⟨x, hx⟩ := World.next_of_mem hq hplace
    obtain ⟨u, hu⟩ := Option.ne_none_iff_exists'.1 (h.online q hq k hplace)
    obtain ⟨c, hc, -⟩ := Wired.session_some hu
    exact ⟨.serve k true none, trivial, by simp [World.step, hc, hx, h.lives]⟩
  | toClient k =>
    obtain ⟨x, hx⟩ := World.next_of_mem hq hplace
    obtain ⟨hmem, hk⟩ := Mail.head_place hx
    obtain ⟨r, hmain, -, hfits⟩ := ho.inFlight x hmem
    rw [hk] at hfits
    obtain rfl : k = x.client := hfits.1
    exact ⟨.reply x.client none, trivial, by simp [World.step, hmain, hx]⟩
  | buffer k =>
    obtain ⟨x, hx⟩ := World.next_of_mem hq hplace
    exact ⟨.forward k none, trivial, hforward hx⟩
  | port k =>
    obtain ⟨x, hx⟩ := World.next_of_mem hq hplace
    have hin := hlisten (h.staffed q hq k (.inl hplace))
    cases hb : w.next (.buffer k) with
    | some y => exact ⟨.forward k none, trivial, hforward hb⟩
    | none =>
      cases ha : (w.programs k).announcing with
      | none => exact ⟨.accept k, trivial, by simp [World.step, hx, hb, ha, hin]⟩
      | some a =>
        have htokens := h.announcing k a ha
        refine ⟨.announce k, trivial, ?_⟩
        simp only [World.step, ha, hin, htokens, and_self, if_true]
        exact Option.some_ne_none _

/-- At rest nothing is on its way. -/
theorem Attended.settled (h : Attended w) (ho : Orderly own w) (hrest : w.Settled) :
    w.packets = [] := by
  rw [List.eq_nil_iff_forall_not_mem]
  intro q hq
  obtain ⟨e, he, hs⟩ := h.moves ho hq
  exact hs (hrest e he)

theorem attended_run (hown : ∀ i, LoginName (own i)) {t : Table}
    (ht : ∀ r ∈ t.rows, '\x00' ∉ r.username ∧ '\x00' ∉ r.ip) {es : List (Happening ι)}
    (h : Run World.step (fun w e => Proper own w e ∧ Patient w e) (World.init t) es w) :
    (∀ k, Awaited w k) ∧ Attended w := by
  have hinv : (Wired w ∧ Orderly own w) ∧ (∀ k, Awaited w k) ∧ Attended w := by
    refine h.inv (I := fun w => (Wired w ∧ Orderly own w) ∧ (∀ k, Awaited w k) ∧ Attended w)
      (fun _ _ _ hi hg hs => ?_) ⟨orderly_init ht, nofun, ?_⟩
    · obtain ⟨⟨hw, ho⟩, hawait, hattend⟩ := hi
      exact ⟨orderly_step hown hw ho hg.1 hs, awaited_step hown hw ho hawait hs,
        attended_step hown hw ho hattend hg.1.2.2 hg.2 hs⟩
    · exact ⟨rfl, fun _ hq => absurd hq List.not_mem_nil, fun _ hq => absurd hq List.not_mem_nil,
        fun _ => .nil, nofun⟩
  exact hinv.2

end

section
variable {ι : Type} [DecidableEq ι] {w : World ι}

/-- Nothing is on its way, nothing to be announced, no list to be asked for, and nobody has left. -/
theorem World.settled_of (hpackets : w.packets = [])
    (hann : ∀ i, (w.programs i).announcing = none)
    (hmain : ∀ i, (w.programs i).main ≠ .gone ∧ (w.programs i).main ≠ .renewing) : w.Settled := by
  have hnext : ∀ l, w.next l = none := by
    intro l
    rw [next, hpackets]
    rfl
  intro e he
  cases e with
  | announce i => simp [step, hann]
  | hangup i =>
    simp only [step, hnext, hmain, false_and, if_false]
    split <;> rfl
  | reply | accept | forward | serve => simp [step, hnext]
  | list i => exact absurd he (hmain i).2
  | connect | register | login | transaction | notFound | pay | exit => exact he.elim

end

/-- `a` has paid `b` 300, and the system is at rest. -/
theorem paid_at_rest : ∃ w, Run World.step
    (fun w e => Proper seat w e ∧ Fair seat w e ∧ Patient w e) (World.init Keyed.empty)
    (twoOnline ++ aPaysB 300) w ∧ w.server.table.rows.map Client.balance = [9700, 10300] ∧
      w.Settled ∧ ∀ i, (w.programs i).main ≠ .gone := by
  have hrun : allowed World.step (fun w e => Proper seat w e ∧ Fair seat w e ∧ Patient w e)
      (World.init Keyed.empty) (twoOnline ++ aPaysB 300) = true := by
    decide +kernel
  have hend : (runAll World.step (World.init Keyed.empty) (twoOnline ++ aPaysB 300)).map
      (fun w => (w.server.table.rows.map Client.balance, w.packets.length,
        [false, true].map fun i => ((w.programs i).main, (w.programs i).announcing.isSome))) =
        some ([9700, 10300], 0, [(.menu, false), (.menu, false)]) := by
    decide +kernel
  obtain ⟨w, hw, hr⟩ := Run.of_allowed hrun
  rw [hw] at hend
  obtain ⟨hbalances, hrest⟩ := Prod.mk.inj (Option.some.inj hend)
  obtain ⟨hpackets, hprograms⟩ := Prod.mk.inj hrest
  have hmain : ∀ i, (w.programs i).main ≠ .gone ∧ (w.programs i).main ≠ .renewing := by
    intro i
    cases i <;> simp_all
  have hann : ∀ i, (w.programs i).announcing = none := by
    intro i
    cases i <;> simp_all
  exact ⟨w, hr, hbalances,
    World.settled_of (List.length_eq_zero_iff.1 hpackets) hann hmain, fun i => (hmain i).1⟩

/-- `b` leaves with the payment at its port, where it stays: `a` waits for ever. -/
theorem payer_stranded : ∃ w, Run World.step (Proper seat) (World.init Keyed.empty)
    (twoOnline ++ (aPaysB 300).take 4 ++ [.exit true, .serve true false none, .reply true none]) w ∧
      (w.programs false).main = .waiting .transfer ∧ (w.programs true).main = .gone ∧
      w.packets.map Packet.place = [.port true] := by
  have hrun : allowed World.step (Proper seat) (World.init Keyed.empty)
      (twoOnline ++ (aPaysB 300).take 4 ++ [.exit true, .serve true false none, .reply true none]) =
        true := by
    decide +kernel
  have hend : (runAll World.step (World.init Keyed.empty)
      (twoOnline ++ (aPaysB 300).take 4 ++
        [.exit true, .serve true false none, .reply true none])).map (fun w =>
      ((w.programs false).main, (w.programs true).main, w.packets.map Packet.place)) =
        some (.waiting .transfer, .gone, [.port true]) := by
    decide +kernel
  obtain ⟨w, hw, hr⟩ := Run.of_allowed hrun
  rw [hw] at hend
  obtain ⟨hpayer, hpayee⟩ := Prod.mk.inj (Option.some.inj hend)
  exact ⟨w, hr, hpayer, (Prod.mk.inj hpayee).1, (Prod.mk.inj hpayee).2⟩

end Micropayment
