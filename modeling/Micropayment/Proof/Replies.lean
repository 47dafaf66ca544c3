import Micropayment.Proof.Answers
import Micropayment.Proof.PeerMessage
import Micropayment.Proof.ReplySize

/-!
# Replies reach the request they answer

Each client has at most one message on its way that belongs to it: its request, passed on or not,
or the reply (`Orderly`). The server keeps this because it answers a transfer on the connection
that `client_fds` has for the payer, which is live while the payer waits. `replies_reach`: so every
frame that arrives at a client is the reply to what it waits for, unless a name typed at the
REGISTER prompt makes a TRANSACTION of the message, or memory or `strtok` spoil a message
(`Proper`). `stray_reply` is a run with such a name.
-/

set_option autoImplicit false

namespace Micropayment

section
variable {ι : Type} [DecidableEq ι]

/-- At most one frame is on its way to a client; it belongs to the request that the main thread
waits for, and there is none while it does not wait. -/
structure RepliesReach (w : World ι) : Prop where
  one : ∀ i, (Mail.queue Packet.place w.packets (.toClient i)).length ≤ 1
  own : ∀ i, ∀ q ∈ Mail.queue Packet.place w.packets (.toClient i),
    (∃ r, (w.programs i).main = .waiting r) ∧ q.client = i ∧
      q.request = (w.programs i).requests

/-- Clients log in under their own names. -/
def OwnLogin (own : ι → Str) (w : World ι) : Happening ι → Prop
  | .login i typed _ => typed.getD (w.programs i).name = own i
  | _ => True

/-- No name typed at the REGISTER prompt makes a TRANSACTION of the message. -/
def PlainName : Happening ι → Prop
  | .register _ name => (parseCommand ("REGISTER#".toList ++ name)).1 ≠ .transaction
  | _ => True

/-- The memory that `new char[]` returns starts with a NUL, and the `strtok` calls of a client's two
threads do not come between each other. -/
def Unspoiled : Happening ι → Prop
  | .pay _ _ _ _ heap => heap.head? = some '\x00'
  | .reply _ mixed => mixed = none
  | .forward _ mixed => mixed = none
  | _ => True

def Proper (own : ι → Str) (w : World ι) (e : Happening ι) : Prop :=
  OwnLogin own w e ∧ PlainName e ∧ Unspoiled e

instance (own : ι → Str) (w : World ι) (e : Happening ι) : Decidable (OwnLogin own w e) :=
  match e with
  | .login i typed _ => inferInstanceAs (Decidable (typed.getD (w.programs i).name = own i))
  | .connect .. | .register .. | .list _ | .transaction _ | .notFound .. | .pay .. | .exit _
  | .reply .. | .accept _ | .forward .. | .announce _ | .serve .. | .hangup _ => .isTrue trivial

instance (e : Happening ι) : Decidable (PlainName e) :=
  match e with
  | .register _ name =>
    inferInstanceAs (Decidable ((parseCommand ("REGISTER#".toList ++ name)).1 ≠ .transaction))
  | .connect .. | .login .. | .list _ | .transaction _ | .notFound .. | .pay .. | .exit _
  | .reply .. | .accept _ | .forward .. | .announce _ | .serve .. | .hangup _ => .isTrue trivial

instance (e : Happening ι) : Decidable (Unspoiled e) :=
  match e with
  | .pay _ _ _ _ heap => inferInstanceAs (Decidable (heap.head? = some '\x00'))
  | .reply _ mixed => inferInstanceAs (Decidable (mixed = none))
  | .forward _ mixed => inferInstanceAs (Decidable (mixed = none))
  | .connect .. | .register .. | .login .. | .list _ | .transaction _ | .notFound .. | .exit _
  | .accept _ | .announce _ | .serve .. | .hangup _ => .isTrue trivial

instance (own : ι → Str) (w : World ι) (e : Happening ι) : Decidable (Proper own w e) :=
  inferInstanceAs (Decidable (_ ∧ _))

/-- There is room for the reply to the message that the server comes to. -/
def Roomy (w : World ι) : Happening ι → Prop
  | .serve i _ _ => ∀ c ∈ w.conn i, ∀ q ∈ w.next (.toServer i),
      ReplyFits w.server c (parseCommand (cStr q.text))
  | _ => True

instance (w : World ι) (e : Happening ι) : Decidable (Roomy w e) :=
  match e with
  | .serve i _ _ => inferInstanceAs (Decidable (∀ c ∈ w.conn i, ∀ q ∈ w.next (.toServer i),
      ReplyFits w.server c (parseCommand (cStr q.text))))
  | .connect .. | .register .. | .login .. | .list _ | .transaction _ | .notFound .. | .pay ..
  | .exit _ | .reply .. | .accept _ | .forward .. | .announce _ | .hangup _ => .isTrue trivial

/-- A name to log in under. -/
structure LoginName (u : Str) : Prop where
  arg : IsArg u
  ne : u ≠ "REGISTER".toList

/-! ## The invariants -/

/-- The server knows the connections of the clients. -/
structure Wired (w : World ι) : Prop where
  entries : Entries w.server
  entered : Entered w.server
  clean : Clean w.server
  count : w.accepted.length = w.server.accepted
  fd : ∀ i id, (w.programs i).serverFd = some id ↔ w.accepted[id]? = some i

/-- The client `u`, and what its connection is logged in as. -/
structure Sound (u : Str) (session : Option Str) (p : Program ι) : Prop where
  user : session = none ∨ session = some [] ∨ session = some u
  start : p.main = .start → p.serverFd = none ∧ p.clientServerOpen = false
  live : p.main ≠ .start → p.main ≠ .gone → p.main ≠ .waiting .exit → session ≠ none
  name : p.clientServerOpen = true → p.name = u
  opened : p.clientServerOpen = true → p.main ≠ .gone → p.main ≠ .waiting .exit → session = some u
  opens : session = some u → p.clientServerOpen = true ∨ p.main = .waiting .login
  login : p.main = .waiting .login → p.clientServerOpen = false ∧ p.name = u
  paying : p.main = .waiting .transfer → p.clientServerOpen = true
  peers : p.peerList ≠ [] → p.clientServerOpen = true
  parts : ∀ info ∈ p.peerList, ∀ a ∈ info, IsArg a

/-- A message that belongs to the request `r` of the client `i`, by where it is. -/
def Fits (i : ι) (u : Str) (session : Option Str) (r : Request) (text : Str) : Place ι → Prop
  | .toServer k => (r = .transfer ∧ IsTransfer u text) ∨ (k = i ∧ IsRequest u session r text)
  | .toClient k => k = i ∧ IsReply u session r text
  | .port _ | .buffer _ => r = .transfer ∧ IsTransfer u text

/-- The client of the message waits for the request it belongs to. -/
def InFlight (own : ι → Str) (w : World ι) (q : Packet ι) : Prop :=
  ∃ r, (w.programs q.client).main = .waiting r ∧ q.request = (w.programs q.client).requests ∧
    Fits q.client (own q.client) (w.session q.client) r q.text q.place

structure Orderly (own : ι → Str) (w : World ι) : Prop where
  sound : ∀ i, Sound (own i) (w.session i) (w.programs i)
  owners : (w.packets.map Packet.client).Nodup
  inFlight : ∀ q ∈ w.packets, InFlight own w q

theorem Orderly.repliesReach {own : ι → Str} {w : World ι} (h : Orderly own w) :
    RepliesReach w := by
  have hown : ∀ i, ∀ q ∈ Mail.queue Packet.place w.packets (.toClient i),
      (∃ r, (w.programs i).main = .waiting r) ∧ q.client = i ∧
        q.request = (w.programs i).requests := by
    intro i q hq
    obtain ⟨hq, hplace⟩ := Mail.mem_queue.1 hq
    obtain ⟨r, hmain, hreq, hfits⟩ := h.inFlight q hq
    rw [hplace] at hfits
    obtain rfl : i = q.client := hfits.1
    exact ⟨⟨r, hmain⟩, rfl, hreq⟩
  refine ⟨fun i => ?_, hown⟩
  -- two frames would have the same owner
  have hnd : (Mail.queue Packet.place w.packets (.toClient i)).Nodup :=
    (List.Nodup.of_map _ h.owners).sublist List.filter_sublist
  rw [← List.toFinset_card_of_nodup hnd, Finset.card_le_one]
  intro p hp q hq
  have hp := List.mem_toFinset.1 hp
  have hq := List.mem_toFinset.1 hq
  exact Mail.eq_of_owner h.owners (Mail.mem_queue.1 hp).1 (Mail.mem_queue.1 hq).1
    ((hown i p hp).2.1.trans (hown i q hq).2.1.symm)

end

/-! ## A main thread goes on -/

theorem peerLoop_parts {tmp : List Str} {n i : Nat} {l : List (List Str)}
    (h : peerLoop tmp n i = .ok l) : ∀ info ∈ l, ∀ a ∈ info, IsArg a := by
  induction n generalizing i l with
  | zero =>
    cases h
    simp
  | succ n ih =>
    unfold peerLoop at h
    split at h
    · cases h
    · split at h
      · cases hrest : peerLoop tmp n (i + 1) with
        | error e =>
          rw [hrest] at h
          cases h
        | ok rest =>
          rw [hrest] at h
          obtain rfl := Except.ok.inj h
          intro info hinfo
          rcases List.mem_cons.1 hinfo with rfl | hinfo
          · exact fun a ha => isToken_of_mem_split ha
          · exact ih hrest info hinfo
      · cases h

/-- The parts of a peer list's entries are arguments. -/
theorem parseListInfo_parts {text : Str} {info : ListInfo} (h : parseListInfo text = .ok info) :
    ∀ x ∈ info.peerList, ∀ a ∈ x, IsArg a := by
  unfold parseListInfo at h
  simp only [bind, Except.bind] at h
  split at h
  · cases h
  · split at h
    · cases h
    · split at h
      · cases h
      · rename_i l hl
        obtain rfl := Except.ok.inj h
        exact peerLoop_parts hl

section
variable {ι : Type}

namespace Sound

variable {u : Str} {session : Option Str} {p : Program ι}

/-- At the menu and at the prompts, the client and the server agree on whether it is logged in. -/
theorem agree (h : Sound u session p) (h1 : p.main ≠ .start) (h2 : p.main ≠ .gone)
    (h3 : p.main ≠ .waiting .exit) (h4 : p.main ≠ .waiting .login) :
    session ≠ none ∧ (session = some u ↔ p.clientServerOpen = true) :=
  ⟨h.live h1 h2 h3, fun hs => (h.opens hs).resolve_right h4, fun ho => h.opened ho h2 h3⟩

theorem connected (h : Sound u session p) (hmain : p.main = .start) (hu : u ≠ []) (id : Nat) :
    Sound u (some []) { p with main := .menu, serverFd := some id } := by
  have hno : ∀ {P : Prop}, p.clientServerOpen = true → P := by
    intro P ho
    rw [(h.start hmain).2] at ho
    cases ho
  exact ⟨.inr (.inl rfl), nofun, nofun, fun ho => hno ho, fun ho => hno ho,
    fun he => absurd (Option.some.inj he).symm hu, nofun, nofun, h.peers, h.parts⟩

/-- While the main thread waits for a reply other than to LOGIN and Exit, too. -/
theorem waits (h : Sound u session p) {r : Request} (hmain : p.main = .waiting r)
    (h1 : r ≠ .login) (h2 : r ≠ .exit) :
    session ≠ none ∧ (session = some u ↔ p.clientServerOpen = true) := by
  refine h.agree ?_ ?_ ?_ ?_ <;> rw [hmain]
  · nofun
  · nofun
  · simpa using h2
  · simpa using h1

theorem goOn (h : Sound u session p) (hlive : session ≠ none)
    (hopen : session = some u ↔ p.clientServerOpen = true) {m : Main} (n : Nat)
    (h1 : m ≠ .start) (h2 : m ≠ .waiting .login)
    (h3 : m = .waiting .transfer → p.clientServerOpen = true) :
    Sound u session { p with main := m, requests := n } where
  user := h.user
  start he := absurd he h1
  live _ _ _ := hlive
  name := h.name
  opened ho _ _ := hopen.2 ho
  opens hs := .inl (hopen.1 hs)
  login he := absurd he h2
  paying := h3
  peers := h.peers
  parts := h.parts

/-- The process ends. -/
theorem ended (h : Sound u session p) (hopen : session = some u → p.clientServerOpen = true) :
    Sound u session { p with main := .gone } where
  user := h.user
  start he := by cases he
  live _ hg _ := absurd rfl hg
  name := h.name
  opened _ hg _ := absurd rfl hg
  opens hs := .inl (hopen hs)
  login he := by cases he
  paying he := by cases he
  peers := h.peers
  parts := h.parts

/-- The server has changed what the connection is logged in as: on a LOGIN, or on an Exit. -/
theorem served (h : Sound u session p) {session' : Option Str}
    (huser : session' = none ∨ session' = some [] ∨ session' = some u)
    (hcase : (p.main = .waiting .login ∧ session' ≠ none) ∨
      (p.main = .waiting .exit ∧ session' = none) ∨ session' = session) : Sound u session' p := by
  rcases hcase with ⟨hmain, hlive⟩ | ⟨hmain, rfl⟩ | rfl
  · obtain ⟨hclosed, hname⟩ := h.login hmain
    refine ⟨huser, h.start, fun _ _ _ => hlive, h.name, fun ho => ?_, fun _ => .inr hmain, h.login,
      h.paying, h.peers, h.parts⟩
    rw [hclosed] at ho
    cases ho
  · exact ⟨huser, h.start, fun _ _ hne => absurd hmain hne, h.name, fun _ _ hne => absurd hmain hne,
      nofun, h.login, h.paying, h.peers, h.parts⟩
  · exact h

/-- A List has been read. -/
theorem listed (h : Sound u session p) (hopen : p.clientServerOpen = true) {l : List (List Str)}
    (hl : ∀ info ∈ l, ∀ a ∈ info, IsArg a) : Sound u session { p with peerList := l } where
  user := h.user
  start := h.start
  live := h.live
  name := h.name
  opened := h.opened
  opens := h.opens
  login := h.login
  paying := h.paying
  peers _ := hopen
  parts := hl

/-- Only a client that is logged in finds a name in its peer list. -/
theorem payee (h : Sound u session p) {receiver : Str} {ok : Int → Bool}
    (hport : (hostPort p.peerList receiver).any ok = true) :
    p.clientServerOpen = true ∧ IsArg receiver := by
  obtain ⟨port, hport, -⟩ := (Option.any_eq_true _ _).1 hport
  obtain ⟨info, hfind, -⟩ := Option.bind_eq_some_iff.1 hport
  have hmem := List.mem_of_find?_eq_some hfind
  have hhead : info.head? = some receiver := by simpa using List.find?_some hfind
  exact ⟨h.peers (List.ne_nil_of_mem hmem),
    h.parts info hmem receiver (List.mem_of_mem_head? hhead)⟩

theorem announcing (h : Sound u session p) (a : Option (Packet ι × List Str)) :
    Sound u session { p with announcing := a } :=
  ⟨h.user, h.start, h.live, h.name, h.opened, h.opens, h.login, h.paying, h.peers, h.parts⟩

end Sound

/-- A client whose main thread does not wait has no message on its way. -/
theorem Orderly.idle {own : ι → Str} {w : World ι} {i : ι} (h : Orderly own w)
    (hmain : ∀ r, (w.programs i).main ≠ .waiting r) : ∀ q ∈ w.packets, q.client ≠ i := by
  rintro q hq rfl
  obtain ⟨r, hr, -⟩ := h.inFlight q hq
  exact hmain r hr

/-- A program at the menu, at the prompts of a payment or before a `request_list`, and its
client. -/
theorem Orderly.ready {own : ι → Str} {w : World ι} {i : ι} (h : Orderly own w)
    (hmain : (w.programs i).main = .menu ∨ (w.programs i).main = .asking ∨
      (w.programs i).main = .renewing) :
    (∀ q ∈ w.packets, q.client ≠ i) ∧ w.session i ≠ none ∧
      (w.session i = some (own i) ↔ (w.programs i).clientServerOpen = true) := by
  have hready : ∀ m, (∀ r, m ≠ .waiting r) → m ≠ .start → m ≠ .gone → (w.programs i).main = m →
      (∀ q ∈ w.packets, q.client ≠ i) ∧ w.session i ≠ none ∧
        (w.session i = some (own i) ↔ (w.programs i).clientServerOpen = true) := by
    rintro m hwait hstart hgone rfl
    exact ⟨h.idle hwait, (h.sound i).agree hstart hgone (hwait _) (hwait _)⟩
  rcases hmain with hmain | hmain | hmain
  · exact hready .menu nofun nofun nofun hmain
  · exact hready .asking nofun nofun nofun hmain
  · exact hready .renewing nofun nofun nofun hmain

/-- A payment to a name of the peer list is that of a user logged in. -/
theorem Orderly.payment {own : ι → Str} {w : World ι} {i : ι} (h : Orderly own w)
    (hown : ∀ i, LoginName (own i)) {receiver heap text : Str} {amount : Int}
    (h1 : -2 ^ 31 ≤ amount) (h2 : amount < 2 ^ 31) {ok : Int → Bool}
    (hport : (hostPort (w.programs i).peerList receiver).any ok = true)
    (hheap : heap.head? = some '\x00')
    (htext : p2pMessage heap (w.programs i).name amount receiver = some text) :
    P2pCall.Valid (amount, receiver) ∧ text = transactMsg (own i) amount receiver := by
  have hs := h.sound i
  obtain ⟨ho, harg⟩ := hs.payee hport
  rw [hs.name ho] at htext
  exact ⟨⟨h1, h2, harg⟩, p2pMessage_fresh (hown i).arg.nul harg.nul h1 h2 hheap htext⟩

theorem fits_request {i : ι} {u text : Str} {session : Option Str} {r : Request}
    (h : IsRequest u session r text) : Fits i u session r text (.toServer i) := .inr ⟨rfl, h⟩

end

section
variable {ι : Type} [DecidableEq ι]

namespace Orderly

variable {own : ι → Str} {w : World ι} {i : ι} {p : Program ι}

theorem session_set (hfd : p.serverFd = (w.programs i).serverFd) (k : ι) :
    (w.set i p).session k = w.session k := by
  have hfd' : ((w.set i p).programs k).serverFd = (w.programs k).serverFd := by
    by_cases hk : k = i
    · subst hk
      rw [World.programs_set_self, hfd]
    · rw [World.programs_set_other w p hk]
  unfold World.session World.conn
  rw [hfd']
  rfl

/-- Messages of other clients do not depend on the program of `i`. -/
theorem inFlight_set (h : Orderly own w) (hfd : p.serverFd = (w.programs i).serverFd)
    {q : Packet ι} (hq : q ∈ w.packets) (hne : q.client ≠ i) : InFlight own (w.set i p) q := by
  obtain ⟨r, hmain, hreq, hfits⟩ := h.inFlight q hq
  unfold InFlight
  rw [session_set hfd, World.programs_set_other w p hne]
  exact ⟨r, hmain, hreq, hfits⟩

theorem sound_set (h : Orderly own w) (hfd : p.serverFd = (w.programs i).serverFd)
    (hsound : Sound (own i) (w.session i) p) (k : ι) :
    Sound (own k) ((w.set i p).session k) ((w.set i p).programs k) := by
  rw [session_set hfd]
  by_cases hk : k = i
  · subst hk
    rw [World.programs_set_self]
    exact hsound
  · rw [World.programs_set_other w p hk]
    exact h.sound k

/-- The main thread goes on without a message. -/
theorem set (h : Orderly own w) (hidle : ∀ q ∈ w.packets, q.client ≠ i)
    (hfd : p.serverFd = (w.programs i).serverFd) (hsound : Sound (own i) (w.session i) p) :
    Orderly own (w.set i p) :=
  ⟨h.sound_set hfd hsound, h.owners, fun q hq => h.inFlight_set hfd hq (hidle q hq)⟩

/-- The main thread goes on with a message, and waits. -/
theorem request (h : Orderly own w) (hidle : ∀ q ∈ w.packets, q.client ≠ i)
    (hfd : p.serverFd = (w.programs i).serverFd) {r : Request} {place : Place ι} {text : Str}
    (hsound : Sound (own i) (w.session i) { p with main := .waiting r, requests := p.requests + 1 })
    (hfits : Fits i (own i) (w.session i) r text place) :
    Orderly own (w.request i p r place text) := by
  have hset := h.set hidle (p := { p with main := .waiting r, requests := p.requests + 1 }) hfd
    hsound
  refine ⟨hset.sound, Mail.posted h.owners hidle, fun q hq => ?_⟩
  rcases List.mem_append.1 hq with hq | hq
  · exact hset.inFlight q hq
  · obtain rfl := List.mem_singleton.1 hq
    have hp : (w.request i p r place text).programs i =
        { p with main := .waiting r, requests := p.requests + 1 } := World.programs_set_self ..
    refine ⟨r, congrArg Program.main hp, (congrArg Program.requests hp).symm, ?_⟩
    have hs : (w.request i p r place text).session i = w.session i :=
      session_set (p := { p with main := .waiting r, requests := p.requests + 1 }) hfd i
    dsimp only
    rw [hs]
    exact hfits

/-- A message is taken from its place. -/
theorem take (h : Orderly own w) {l : Place ι} {q : Packet ι} (hq : w.next l = some q) :
    Orderly own (w.take l) ∧ ∀ x ∈ (w.take l).packets, x.client ≠ q.client := by
  obtain ⟨hnd, hne⟩ := Mail.taken h.owners hq
  exact ⟨⟨h.sound, hnd, fun x hx => h.inFlight x (Mail.mem_of_mem_takeFirst hx)⟩, hne⟩

/-- A message moves to another place that fits it. -/
theorem move (h : Orderly own w) {l : Place ι} {q : Packet ι} (hq : w.next l = some q)
    (l' : Place ι)
    (hfits : ∀ r, Fits q.client (own q.client) (w.session q.client) r q.text l →
      Fits q.client (own q.client) (w.session q.client) r q.text l') :
    Orderly own ((w.take l).post [{ q with place := l' }]) := by
  obtain ⟨ht, hne⟩ := h.take hq
  obtain ⟨hmem, hplace⟩ := Mail.head_place hq
  refine ⟨ht.sound, Mail.posted ht.owners hne, fun x hx => ?_⟩
  rcases List.mem_append.1 hx with hx | hx
  · exact ht.inFlight x hx
  · obtain rfl := List.mem_singleton.1 hx
    obtain ⟨r, hmain, hreq, hf⟩ := h.inFlight q hmem
    exact ⟨r, hmain, hreq, hfits r (hplace ▸ hf)⟩

theorem announcing (h : Orderly own w) (a : Option (Packet ι × List Str)) :
    Orderly own (w.set i { w.programs i with announcing := a }) := by
  refine ⟨h.sound_set rfl ((h.sound i).announcing a), h.owners, fun q hq => ?_⟩
  by_cases hq' : q.client = i
  · subst hq'
    obtain ⟨r, hmain, hreq, hfits⟩ := h.inFlight q hq
    have hp : (w.set q.client { w.programs q.client with announcing := a }).programs q.client =
        { w.programs q.client with announcing := a } := World.programs_set_self ..
    have hs : (w.set q.client { w.programs q.client with announcing := a }).session q.client =
        w.session q.client :=
      session_set (p := { w.programs q.client with announcing := a }) rfl _
    exact ⟨r, (congrArg Program.main hp).trans hmain,
      hreq.trans (congrArg Program.requests hp).symm, hs.symm ▸ hfits⟩
  · exact h.inFlight_set (p := { w.programs i with announcing := a }) rfl hq hq'

/-- What a reply says to the client that waits for it, and that nothing else is under way. -/
theorem received (h : Orderly own w) {r : Request} (hmain : (w.programs i).main = .waiting r)
    {q : Packet ι} (hq : w.next (.toClient i) = some q) :
    IsReply (own i) (w.session i) r q.text ∧
      ∀ x ∈ (w.take (.toClient i)).packets, x.client ≠ i := by
  obtain ⟨-, hidle⟩ := h.take hq
  obtain ⟨hmem, hplace⟩ := Mail.head_place hq
  obtain ⟨r', hmain', -, hfits⟩ := h.inFlight q hmem
  rw [hplace] at hfits
  obtain ⟨hi, hreply⟩ := hfits
  rw [← hi] at hidle hmain' hreply
  obtain rfl : r' = r := by simpa using hmain'.symm.trans hmain
  exact ⟨hreply, hidle⟩

theorem resume_login (h : Orderly own w) (hmain : (w.programs i).main = .waiting .login)
    {q : Packet ι} (hq : w.next (.toClient i) = some q) (info : Except ListError ListInfo) :
    Orderly own ((w.take (.toClient i)).resume i q.text info .login) := by
  obtain ⟨ht, -⟩ := h.take hq
  obtain ⟨hreply, hidle⟩ := h.received hmain hq
  have hs := h.sound i
  obtain ⟨hclosed, hname⟩ := hs.login hmain
  have hlive : w.session i ≠ none := by
    refine hs.live ?_ ?_ ?_ <;> rw [hmain] <;> nofun
  unfold World.resume
  dsimp only
  split
  · rename_i hlen
    have hout : w.session i ≠ some (own i) := fun he => absurd (hreply.2 he) (by omega)
    refine ht.set hidle rfl (hs.goOn hlive ⟨fun he => absurd he hout, fun ho => ?_⟩ _ nofun nofun
      nofun)
    rw [hclosed] at ho
    cases ho
  · rename_i hlen
    have hin := hreply.1 (by omega)
    refine ht.set hidle rfl ?_
    exact ⟨hs.user, nofun, fun _ _ _ => hlive, fun _ => hname, fun _ _ _ => hin,
      fun _ => .inl rfl, nofun, nofun, fun _ => rfl, hs.parts⟩

theorem resume_list (h : Orderly own w) {pay : Bool}
    (hmain : (w.programs i).main = .waiting (.list pay)) {q : Packet ι}
    (hq : w.next (.toClient i) = some q) :
    Orderly own ((w.take (.toClient i)).resume i q.text (parseListInfo q.text) (.list pay)) := by
  obtain ⟨ht, -⟩ := h.take hq
  obtain ⟨hreply, hidle⟩ := h.received hmain hq
  have hs := h.sound i
  obtain ⟨hlive, hopen⟩ := hs.waits hmain nofun nofun
  have hm1 : World.afterList pay ≠ .start := by cases pay <;> nofun
  have hm2 : World.afterList pay ≠ .waiting .login := by cases pay <;> nofun
  have hm3 : World.afterList pay ≠ .waiting .transfer := by cases pay <;> nofun
  unfold World.resume
  dsimp only
  split
  · exact ht.set hidle rfl (hs.goOn hlive hopen _ hm1 hm2 fun he => absurd he hm3)
  · rename_i hlogin
    have hin := hreply hlogin
    split
    · exact ht.set hidle rfl (hs.ended fun _ => hopen.1 hin)
    · rename_i info hinfo
      refine ht.set hidle rfl ?_
      exact (hs.listed (hopen.1 hin) (parseListInfo_parts hinfo)).goOn hlive hopen _ hm1 hm2
        fun he => absurd he hm3

/-- The main thread goes on with a reply. -/
theorem resume (h : Orderly own w) {r : Request} (hmain : (w.programs i).main = .waiting r)
    {q : Packet ι} (hq : w.next (.toClient i) = some q) :
    Orderly own ((w.take (.toClient i)).resume i q.text (parseListInfo q.text) r) := by
  obtain ⟨ht, -⟩ := h.take hq
  obtain ⟨-, hidle⟩ := h.received hmain hq
  have hs := h.sound i
  cases r with
  | register =>
    obtain ⟨hlive, hopen⟩ := hs.waits hmain nofun nofun
    exact ht.set hidle rfl (hs.goOn hlive hopen _ nofun nofun nofun)
  | login => exact h.resume_login hmain hq _
  | list pay => exact h.resume_list hmain hq
  | transfer =>
    obtain ⟨hlive, hopen⟩ := hs.waits hmain nofun nofun
    exact ht.set hidle rfl (hs.goOn hlive hopen _ nofun nofun nofun)
  | exit =>
    refine ht.set hidle rfl (hs.ended fun hin => (hs.opens hin).resolve_right ?_)
    rw [hmain]
    nofun

/-- A request of the menu that leaves the program as it is. -/
theorem menuRequest (h : Orderly own w)
    (hmain : (w.programs i).main = .menu ∨ (w.programs i).main = .renewing) {r : Request}
    {text : Str} (h1 : r ≠ .login) (h2 : r ≠ .transfer)
    (hreq : IsRequest (own i) (w.session i) r text) :
    Orderly own (w.request i (w.programs i) r (.toServer i) text) := by
  obtain ⟨hidle, hlive, hopen⟩ := h.ready (hmain.imp_right .inr)
  refine h.request hidle rfl ?_ (fits_request hreq)
  exact (h.sound i).goOn hlive hopen _ nofun (by simpa using h1) fun he =>
    absurd he (by simpa using h2)

theorem register (h : Orderly own w) (hmain : (w.programs i).main = .menu) {name : Str}
    (hname : (parseCommand ("REGISTER#".toList ++ name)).1 ≠ .transaction) :
    Orderly own (w.request i { w.programs i with
      name := if (w.programs i).clientServerOpen then (w.programs i).name else name } .register
      (.toServer i) ("REGISTER#".toList ++ name)) := by
  obtain ⟨hidle, hlive, hopen⟩ := h.ready (.inl hmain)
  have hs := h.sound i
  refine h.request (p := { w.programs i with
    name := if (w.programs i).clientServerOpen then (w.programs i).name else name }) hidle rfl ?_
    (fits_request (.register name hname))
  refine ⟨hs.user, nofun, fun _ _ _ => hlive, fun ho => ?_, fun ho _ _ => hopen.2 ho,
    fun hin => .inl (hopen.1 hin), nofun, nofun, hs.peers, hs.parts⟩
  have ho : (w.programs i).clientServerOpen = true := ho
  dsimp only
  rw [if_pos ho]
  exact hs.name ho

theorem login (h : Orderly own w) (hmain : (w.programs i).main = .menu)
    (hclosed : (w.programs i).clientServerOpen = false) {name : Str} (hname : name = own i)
    {port : Int} (h1 : -2 ^ 31 ≤ port) (h2 : port < 2 ^ 31) :
    Orderly own (w.request i { w.programs i with name, loginPort := port } .login (.toServer i)
      (name ++ "#".toList ++ toStr port)) := by
  obtain ⟨hidle, hlive, hopen⟩ := h.ready (.inl hmain)
  have hs := h.sound i
  have hno : ∀ {p : Prop}, (w.programs i).clientServerOpen = true → p := by
    intro p ho
    rw [hclosed] at ho
    cases ho
  have hout : w.session i = some [] := by
    rcases hs.user with hu | hu | hu
    · exact absurd hu hlive
    · exact hu
    · exact hno (hopen.1 hu)
  subst hname
  refine h.request (p := { w.programs i with name := own i, loginPort := port }) hidle rfl ?_
    (fits_request (.login h1 h2 hout))
  exact ⟨hs.user, nofun, fun _ _ _ => hlive, fun ho => hno ho, fun ho => hno ho,
    fun hin => .inl (hopen.1 hin), fun _ => ⟨hclosed, rfl⟩, nofun, hs.peers, hs.parts⟩

theorem notFound (h : Orderly own w) (hmain : (w.programs i).main = .asking) :
    Orderly own (w.set i { w.programs i with main := .menu }) := by
  obtain ⟨hidle, hlive, hopen⟩ := h.ready (.inr (.inl hmain))
  exact h.set hidle rfl ((h.sound i).goOn hlive hopen _ nofun nofun nofun)

/-- A payment to a name of the peer list. -/
theorem pay (h : Orderly own w) (hmain : (w.programs i).main = .asking) {receiver text : Str}
    {amount : Int} {ok : Int → Bool}
    (hport : (hostPort (w.programs i).peerList receiver).any ok = true)
    (hpay : P2pCall.Valid (amount, receiver) ∧ text = transactMsg (own i) amount receiver)
    (peer : ι) : Orderly own (w.request i (w.programs i) .transfer (.port peer) text) := by
  have hs := h.sound i
  obtain ⟨ho, -⟩ := hs.payee hport
  obtain ⟨hidle, hlive, hopen⟩ := h.ready (.inr (.inl hmain))
  exact h.request hidle rfl (hs.goOn hlive hopen _ nofun nofun fun _ => ho)
    ⟨rfl, (amount, receiver), hpay⟩

end Orderly

end

/-! ## The server -/

section
variable {s : Server} {c : Conn}

theorem Server.iteration_of {text : Str} {fd : Nat} {response : Str}
    (h : Answer s c text fd response) (resume : Bool) :
    s.iteration c text resume =
      s.after c (s.handle c (cStr text)) (decide ((parseCommand (cStr text)).1 ≠ .exit)) := by
  unfold Server.iteration
  dsimp only
  rw [if_neg h.ne, h.sent]
  simp [Server.survives]

end

namespace Wired

section
variable {ι : Type} {w : World ι} {k : ι} {c : Conn}

theorem conn_some (hconn : w.conn k = some c) :
    (w.programs k).serverFd = some c.id ∧ c ∈ w.server.conns.rows := by
  obtain ⟨id, hid, hc⟩ := Option.bind_eq_some_iff.1 hconn
  obtain rfl := Keyed.find?_key hc
  exact ⟨hid, Keyed.find?_mem hc⟩

theorem session_some {u : Str} (h : w.session k = some u) :
    ∃ c, w.conn k = some c ∧ c.username = u := Option.map_eq_some_iff.1 h

theorem post (h : Wired w) (ps : List (Packet ι)) : Wired (w.post ps) :=
  ⟨h.entries, h.entered, h.clean, h.count, h.fd⟩

theorem accepted_conn (h : Wired w) (hconn : w.conn k = some c) : w.accepted[c.id]? = some k :=
  (h.fd k c.id).1 (conn_some hconn).1

theorem hangup (h : Wired w) (hconn : w.conn k = some c) :
    Wired { w with server := w.server.disconnect c } := by
  have hc := (conn_some hconn).2
  have hstep : w.server.step (.hangup c.id) = some (w.server.disconnect c) := by
    simp [Server.step, Keyed.find?_of_mem hc]
  exact ⟨h.entries.step (a := .hangup c.id) trivial hstep, h.entered.step h.entries.sessions hstep,
    h.clean.step (fun ip port he => by cases he) hstep, h.count, h.fd⟩

end

section
variable {ι : Type} [DecidableEq ι] {w : World ι} {k : ι} {c : Conn}

/-- The server has done something to one connection. -/
theorem session_of (h : Wired w) (hconn : w.conn k = some c) (w' : World ι)
    (hp : w'.programs = w.programs) {x : Option Conn}
    (hfind : ∀ id, w'.server.conns.find? id = if c.id = id then x else w.server.conns.find? id)
    (i : ι) : w'.session i = if i = k then x.map Conn.username else w.session i := by
  unfold World.session World.conn
  rw [hp]
  split
  · rename_i hi
    rw [hi, (conn_some hconn).1, Option.bind_some, hfind, if_pos rfl]
  · rename_i hi
    cases hid : (w.programs i).serverFd with
    | none => rfl
    | some id =>
      rw [Option.bind_some, Option.bind_some, hfind, if_neg]
      rintro rfl
      have := (h.fd i c.id).1 hid
      rw [h.accepted_conn hconn] at this
      exact hi (Option.some.inj this).symm

/-- The server has accepted a connection. -/
theorem session_connect (h : Wired w) {a b c d : UInt8} {port : Int} {server : Server}
    (hs : w.server.step (.accept (inetNtoa a b c d) port) = some server) (i : ι) :
    World.session { w.set k { w.programs k with
        main := .menu, serverFd := some w.server.accepted } with
      server, accepted := w.accepted ++ [k] } i = if i = k then some [] else w.session i := by
  have hfind : ∀ id, server.conns.find? id =
      if w.server.accepted = id then some ⟨w.server.accepted, inetNtoa a b c d, port, []⟩
      else w.server.conns.find? id := by
    intro id
    rw [Server.step_accept hs]
    exact Keyed.find?_replace ..
  unfold World.session World.conn World.set
  dsimp only
  split
  · rename_i hi
    rw [hi, Function.update_self]
    dsimp only
    rw [Option.bind_some, hfind, if_pos rfl]
    rfl
  · rename_i hi
    rw [Function.update_of_ne hi]
    cases hid : (w.programs i).serverFd with
    | none => rfl
    | some id =>
      have hlt := (List.getElem?_eq_some_iff.1 ((h.fd i id).1 hid)).1
      rw [h.count] at hlt
      rw [Option.bind_some, Option.bind_some, hfind, if_neg hlt.ne']

/-- The server has ended a connection. -/
theorem session_hangup (h : Wired w) (hconn : w.conn k = some c) (i : ι) :
    World.session { w with server := w.server.disconnect c } i =
      if i = k then none else w.session i := by
  have hfind : ∀ id, (w.server.disconnect c).conns.find? id =
      if c.id = id then none else w.server.conns.find? id :=
    fun id => Keyed.find?_erase w.server.conns c.id id
  exact h.session_of hconn { w with server := w.server.disconnect c } rfl hfind i

/-- The server has answered a message. -/
theorem session_serve (h : Wired w) (hconn : w.conn k = some c) {q : Packet ι} {fd : Nat}
    {response : Str} (hans : Answer w.server c q.text fd response) (resume : Bool)
    (stray : Option Nat) (i : ι) :
    (w.serve k c q resume stray).session i =
      if i = k then (if (parseCommand (cStr q.text)).1 = .exit then none else
        some (w.server.handle c (cStr q.text)).username) else w.session i := by
  have hfind := h.session_of hconn (w.serve k c q resume stray) rfl fun id => by
    show (w.server.iteration c q.text resume).conns.find? id = _
    rw [Server.iteration_of hans, Server.find?_after (conn_some hconn).2]
  rw [hfind]
  by_cases hx : (parseCommand (cStr q.text)).1 = .exit
  · simp [hx]
  · simp [hx]

theorem connect (h : Wired w) (hnone : (w.programs k).serverFd = none) {a b c d : UInt8}
    {port : Int} {server : Server}
    (hs : w.server.step (.accept (inetNtoa a b c d) port) = some server) :
    Wired { w.set k { w.programs k with main := .menu, serverFd := some w.server.accepted } with
      server, accepted := w.accepted ++ [k] } := by
  refine ⟨h.entries.step (a := .accept _ _) trivial hs, h.entered.step h.entries.sessions hs,
    h.clean.step (fun ip p he => ?_) hs, ?_, fun i id => ?_⟩
  · obtain ⟨rfl, -⟩ := Action.accept.inj he
    have htoken : IsToken [] (inetNtoa a b c d) := isToken_inetNtoa a b c d (by simp)
    exact htoken.nul
  · rw [Server.step_accept hs, List.length_append, h.count]
    rfl
  · show ((w.set k _).programs i).serverFd = some id ↔ _
    by_cases hi : i = k
    · subst hi
      rw [World.programs_set_self, List.getElem?_append, h.count]
      dsimp only
      split
      · rename_i hlt
        rw [← h.fd, hnone]
        exact ⟨fun he => absurd (Option.some.inj he) (by omega), nofun⟩
      · rename_i hge
        rw [List.getElem?_singleton]
        split
        · exact ⟨fun _ => rfl, fun _ => congrArg some (by omega)⟩
        · exact ⟨fun he => absurd (Option.some.inj he) (by omega), nofun⟩
    · rw [World.programs_set_other _ _ hi, List.getElem?_append, h.count, h.fd]
      split
      · exact Iff.rfl
      · rename_i hge
        rw [List.getElem?_eq_none (by rw [h.count]; omega), List.getElem?_singleton]
        split
        · exact ⟨nofun, fun he => absurd (Option.some.inj he).symm hi⟩
        · exact Iff.rfl

theorem serve (h : Wired w) (hconn : w.conn k = some c) {q : Packet ι} {resume : Bool}
    (hkeeps : w.server.KeepsSession (.message c.id q.text resume)) (stray : Option Nat) :
    Wired (w.serve k c q resume stray) := by
  have hc := (conn_some hconn).2
  have hstep : w.server.step (.message c.id q.text resume) =
      some (w.server.iteration c q.text resume) := by
    simp [Server.step, Keyed.find?_of_mem hc]
  refine ⟨h.entries.step hkeeps hstep, h.entered.step h.entries.sessions hstep,
    h.clean.step (fun ip port he => by cases he) hstep, ?_, h.fd⟩
  have hacc : (w.server.iteration c q.text resume).accepted = w.server.accepted := by
    unfold Server.iteration
    dsimp only
    split
    · rfl
    · rfl
  exact h.count.trans hacc.symm

end

end Wired

namespace Orderly

section
variable {ι : Type} {own : ι → Str} {w : World ι}

/-- The payer of a transfer is logged in while the transfer is on its way. -/
theorem payer (h : Orderly own w) {i : ι} (hmain : (w.programs i).main = .waiting .transfer) :
    ∃ c, w.conn i = some c ∧ c.username = own i := by
  have hs := h.sound i
  refine Wired.session_some (hs.opened (hs.paying hmain) ?_ ?_) <;> rw [hmain] <;> nofun

end

section
variable {ι : Type} [DecidableEq ι] {own : ι → Str} {w : World ι} {k : ι} {c : Conn}
  {q : Packet ι}

/-- The answer to the message `q` goes to its client, whose session is then `session`. -/
structure AnsweredTo (own : ι → Str) (w w' : World ι) (c : Conn) (q : Packet ι) (fd : Nat)
    (response : Str) (r : Request) (session : Option Str) : Prop where
  answer : Answer w.server c q.text fd response
  back : w.accepted[fd]? = some q.client
  waits : (w.programs q.client).main = .waiting r
  sessions : ∀ i, w'.session i = if i = q.client then session else w.session i
  sound : Sound (own q.client) session (w.programs q.client)
  reply : IsReply (own q.client) session r response

/-- A transfer is answered to its payer, who is logged in on a connection of its own. -/
theorem answered_transfer (h : Orderly own w) (hw : Wired w) (hown : ∀ i, LoginName (own i))
    (hconn : w.conn k = some c) (hmain : (w.programs q.client).main = .waiting .transfer)
    (htransfer : IsTransfer (own q.client) q.text) (resume : Bool) (stray : Option Nat) :
    ∃ fd response, AnsweredTo own w (w.serve k c q resume stray) c q fd response .transfer
      (w.session q.client) := by
  obtain ⟨payer, hpayer, hname⟩ := h.payer hmain
  have hparse := htransfer.parse (hown q.client).arg
  obtain ⟨x, hx, htext⟩ := htransfer
  obtain ⟨hans, hsame⟩ := answer_transfer (c := c) hw.entries hw.entered (Wired.conn_some hpayer).2
    (hname ▸ (hown q.client).arg) hx
  rw [hname, ← htext] at hans hsame
  have hstays : ∀ i, (w.serve k c q resume stray).session i = w.session i := by
    intro i
    rw [hw.session_serve hconn hans]
    split
    · rename_i hi
      rw [hi, if_neg (by rw [hparse]; nofun), hsame]
      exact (congrArg (Option.map Conn.username) hconn).symm
    · rfl
  refine ⟨payer.id, _, hans, hw.accepted_conn hpayer, hmain, fun i => ?_, h.sound q.client, trivial⟩
  rw [hstays]
  split
  · rename_i hi
    rw [hi]
  · rfl

/-- A request is answered on the connection that it came in on. -/
theorem answered_request (h : Orderly own w) (hw : Wired w) (hown : ∀ i, LoginName (own i))
    (hconn : w.conn q.client = some c) {r : Request}
    (hmain : (w.programs q.client).main = .waiting r)
    (hreq : IsRequest (own q.client) (w.session q.client) r q.text) (resume : Bool)
    (stray : Option Nat) :
    ∃ fd response session',
      AnsweredTo own w (w.serve q.client c q resume stray) c q fd response r session' := by
  have hs := h.sound q.client
  have hsession : w.session q.client = some c.username := congrArg (Option.map Conn.username) hconn
  rw [hsession] at hreq
  have hname : c.username = [] ∨ c.username = own q.client := by
    rcases hs.user with hu | hu | hu <;> rw [hsession] at hu
    · cases hu
    · exact .inl (Option.some.inj hu)
    · exact .inr (Option.some.inj hu)
  obtain ⟨response, hans, hexit, hsame, huser, hreply⟩ := answer_request hw.entries hw.clean
    (Wired.conn_some hconn).2 (hown q.client).arg (hown q.client).ne hname hreq
  refine ⟨c.id, response, _, hans, hw.accepted_conn hconn, hmain,
    hw.session_serve hconn hans resume stray, ?_, ?_⟩
  · by_cases hx : r = .exit
    · rw [if_pos (hexit.2 hx)]
      exact hs.served (.inl rfl) (.inr (.inl ⟨hx ▸ hmain, rfl⟩))
    · rw [if_neg fun he => hx (hexit.1 he)]
      refine hs.served (.inr (huser.imp (congrArg some) (congrArg some))) ?_
      by_cases hl : r = .login
      · exact .inl ⟨hl ▸ hmain, nofun⟩
      · exact .inr (.inr (by rw [hsame hl hx, hsession]))
  · by_cases hx : r = .exit
    · rw [hx]
      trivial
    · rw [if_neg fun he => hx (hexit.1 he)]
      exact hreply hx

/-- **A message is answered** to the client it belongs to, whatever connection it comes in on. -/
theorem answered (h : Orderly own w) (hw : Wired w) (hown : ∀ i, LoginName (own i))
    (hconn : w.conn k = some c) (hq : w.next (.toServer k) = some q) (resume : Bool)
    (stray : Option Nat) : ∃ fd response r session',
      AnsweredTo own w (w.serve k c q resume stray) c q fd response r session' := by
  obtain ⟨hmem, hplace⟩ := Mail.head_place hq
  obtain ⟨r, hmain, -, hfits⟩ := h.inFlight q hmem
  rw [hplace] at hfits
  rcases hfits with ⟨rfl, htransfer⟩ | ⟨rfl, hreq⟩
  · obtain ⟨fd, response, hans⟩ := h.answered_transfer hw hown hconn hmain htransfer resume stray
    exact ⟨fd, response, _, _, hans⟩
  · obtain ⟨fd, response, session', hans⟩ :=
      h.answered_request hw hown hconn hmain hreq resume stray
    exact ⟨fd, response, _, session', hans⟩

/-- The server survives the message if there is room for the reply. -/
theorem survives (h : Orderly own w) (hw : Wired w) (hown : ∀ i, LoginName (own i))
    (hconn : w.conn k = some c) (hq : w.next (.toServer k) = some q)
    (hfits : ReplyFits w.server c (parseCommand (cStr q.text))) :
    w.server.exits c (cStr q.text) = false := by
  obtain ⟨fd, response, r, session', hans⟩ := h.answered hw hown hconn hq false none
  have hsends := (sends_iff hw.entries.sessions (Wired.conn_some hconn).2 _).2 hfits
  rw [hans.answer.sent, sends_sent] at hsends
  have hcrash : w.server.crashes c (cStr q.text) = false :=
    Server.not_crashes (by rw [hans.answer.sent]; simp)
  simp only [Server.exits, hcrash, hans.answer.sent, Bool.false_or, decide_eq_false_iff_not]
  omega

theorem serve (h : Orderly own w) (hw : Wired w) (hown : ∀ i, LoginName (own i))
    (hconn : w.conn k = some c) (hq : w.next (.toServer k) = some q) (resume : Bool)
    (stray : Option Nat) :
    Wired (w.serve k c q resume stray) ∧ Orderly own (w.serve k c q resume stray) := by
  obtain ⟨fd, response, r, session', hans⟩ := h.answered hw hown hconn hq resume stray
  refine ⟨hw.serve hconn (hans.answer.keeps resume) stray, ?_⟩
  obtain ⟨ht, hne⟩ := h.take hq
  obtain ⟨r', hmain', hreq, -⟩ := h.inFlight q (Mail.head_place hq).1
  have hreplies : w.replies c q stray = [⟨.toClient q.client, q.client, q.request, response⟩] := by
    unfold World.replies World.deliver
    rw [hans.answer.sent]
    dsimp only
    rw [if_neg hans.answer.ne, hans.back]
  refine ⟨fun i => ?_, ?_, fun x hx => ?_⟩
  · rw [hans.sessions]
    split
    · rename_i hi
      rw [hi]
      exact hans.sound
    · exact h.sound i
  · show (((w.take (.toServer k)).packets ++ w.replies c q stray).map Packet.client).Nodup
    rw [hreplies]
    exact Mail.posted ht.owners hne
  · change x ∈ (w.take (.toServer k)).packets ++ w.replies c q stray at hx
    rw [hreplies] at hx
    unfold InFlight
    rcases List.mem_append.1 hx with hx | hx
    · rw [hans.sessions, if_neg (hne x hx)]
      exact ht.inFlight x hx
    · obtain rfl := List.mem_singleton.1 hx
      rw [hans.sessions]
      dsimp only
      rw [if_pos rfl]
      exact ⟨r, hans.waits, hreq, rfl, hans.reply⟩

theorem hangup (h : Orderly own w) (hw : Wired w) (hconn : w.conn k = some c)
    (hmain : (w.programs k).main = .gone) :
    Orderly own { w with server := w.server.disconnect c } := by
  have hsession := hw.session_hangup hconn
  have hidle : ∀ q ∈ w.packets, q.client ≠ k := by
    apply h.idle
    rw [hmain]
    nofun
  refine ⟨fun i => ?_, h.owners, fun q hq => ?_⟩
  · rw [hsession]
    split
    · rename_i hi
      subst hi
      have hs := h.sound i
      exact ⟨.inl rfl, hs.start, fun _ hg _ => absurd hmain hg, hs.name,
        fun _ hg _ => absurd hmain hg, nofun, hs.login, hs.paying, hs.peers, hs.parts⟩
    · exact h.sound i
  · unfold InFlight
    rw [hsession, if_neg (hidle q hq)]
    exact h.inFlight q hq

/-- A client connects, and is at the menu. -/
theorem connect (h : Orderly own w) (hw : Wired w) (hu : own k ≠ [])
    (hmain : (w.programs k).main = .start) {a b c d : UInt8} {port : Int} {server : Server}
    (hs : w.server.step (.accept (inetNtoa a b c d) port) = some server) :
    Orderly own { w.set k { w.programs k with
        main := .menu, serverFd := some w.server.accepted } with
      server, accepted := w.accepted ++ [k] } := by
  have hidle : ∀ q ∈ w.packets, q.client ≠ k := by
    apply h.idle
    rw [hmain]
    nofun
  have hsession := hw.session_connect (k := k) hs
  have hother : ∀ i, i ≠ k → (w.set k { w.programs k with
      main := .menu, serverFd := some w.server.accepted }).programs i = w.programs i :=
    fun i hi => World.programs_set_other w _ hi
  refine ⟨fun i => ?_, h.owners, fun q hq => ?_⟩
  · rw [hsession]
    by_cases hi : i = k
    · subst hi
      rw [if_pos rfl]
      show Sound _ _ ((w.set i _).programs i)
      rw [World.programs_set_self]
      exact (h.sound i).connected hmain hu _
    · rw [if_neg hi]
      show Sound _ _ ((w.set k _).programs i)
      rw [hother i hi]
      exact h.sound i
  · obtain ⟨r, hwait, hreq, hfits⟩ := h.inFlight q hq
    have hne := hidle q hq
    have hprog := hother q.client hne
    refine ⟨r, (congrArg Program.main hprog).trans hwait,
      hreq.trans (congrArg Program.requests hprog).symm, ?_⟩
    rw [hsession, if_neg hne]
    exact hfits

end

end Orderly

/-! ## Every step -/

section
variable {ι : Type} [DecidableEq ι] {own : ι → Str} {w w' : World ι} {i : ι}

namespace Wired

theorem set (h : Wired w) {p : Program ι} (hfd : p.serverFd = (w.programs i).serverFd) :
    Wired (w.set i p) := by
  refine ⟨h.entries, h.entered, h.clean, h.count, fun k id => (Iff.trans ?_ (h.fd k id))⟩
  by_cases hk : k = i
  · subst hk
    rw [World.programs_set_self, hfd]
  · rw [World.programs_set_other w p hk]

theorem take (h : Wired w) (l : Place ι) : Wired (w.take l) :=
  ⟨h.entries, h.entered, h.clean, h.count, h.fd⟩

theorem request (h : Wired w) {p : Program ι} (hfd : p.serverFd = (w.programs i).serverFd)
    (r : Request) (place : Place ι) (text : Str) : Wired (w.request i p r place text) :=
  (h.set (p := { p with main := .waiting r, requests := p.requests + 1 }) hfd).post _

theorem resume (h : Wired w) (text : Str) (info : Except ListError ListInfo) (r : Request) :
    Wired (w.resume i text info r) := by
  obtain ⟨p, he, hp⟩ := w.resume_eq i text info r
  rw [he]
  exact h.set hp.serverFd

end Wired

theorem orderly_step (hown : ∀ i, LoginName (own i)) (hw : Wired w) (h : Orderly own w)
    {e : Happening ι} (hg : Proper own w e) (hs : w.step e = some w') :
    Wired w' ∧ Orderly own w' := by
  cases World.step_cases hs with
  | connect hmain hserver =>
    exact ⟨hw.connect ((h.sound _).start hmain).1 hserver,
      h.connect hw (hown _).arg.ne hmain hserver⟩
  | register hmain => exact ⟨hw.request (by rfl) _ _ _, h.register hmain hg.2.1⟩
  | login hmain hclosed h1 h2 =>
    exact ⟨hw.request (by rfl) _ _ _, h.login hmain hclosed hg.1 h1 h2⟩
  | list hmain =>
    exact ⟨hw.request (by rfl) _ _ _, h.menuRequest hmain nofun nofun (.list false)⟩
  | transaction hmain =>
    exact ⟨hw.request (by rfl) _ _ _, h.menuRequest (.inl hmain) nofun nofun (.list true)⟩
  | notFound hmain => exact ⟨hw.set rfl, h.notFound hmain⟩
  | pay hmain h1 h2 hport htext =>
    have hpay := h.payment hown h1 h2 hport hg.2.2 htext
    exact ⟨hw.request (by rfl) _ _ _, h.pay hmain hport hpay _⟩
  | exit hmain =>
    exact ⟨hw.request (by rfl) _ _ _, h.menuRequest (.inl hmain) nofun nofun .exit⟩
  | @reply i r q mixed hmain hq =>
    obtain rfl : mixed = none := hg.2.2
    exact ⟨(hw.take _).resume _ _ _, h.resume hmain hq⟩
  | accept hq => exact ⟨(hw.take _).post _, h.move hq _ fun _ hf => hf⟩
  | @forward i q mixed hq _ _ =>
    have hmoved := h.move hq (.toServer i) fun _ hf => .inl hf
    exact ⟨((hw.take _).post _).set rfl, hmoved.announcing _⟩
  | @announce i x _ _ =>
    have hset := hw.set (i := i) (p := { w.programs i with announcing := none }) rfl
    have hann := h.announcing (i := i) none
    exact ⟨⟨hset.entries, hset.entered, hset.clean, hset.count, hset.fd⟩,
      ⟨hann.sound, hann.owners, hann.inFlight⟩⟩
  | serve hconn hq _ => exact h.serve hw hown hconn hq _ _
  | exits =>
    exact ⟨⟨hw.entries, hw.entered, hw.clean, hw.count, hw.fd⟩, h.sound, h.owners, h.inFlight⟩
  | hangup hconn _ hmain => exact ⟨hw.hangup hconn, h.hangup hw hconn hmain⟩

end

section
variable {ι : Type} {own : ι → Str}

theorem orderly_init {t : Table} (ht : ∀ r ∈ t.rows, '\x00' ∉ r.username ∧ '\x00' ∉ r.ip) :
    Wired (World.init t : World ι) ∧ Orderly own (World.init t) := by
  refine ⟨⟨.init t, fun c hc => absurd hc List.not_mem_nil, .init ht, rfl, fun i id => ?_⟩,
    ⟨fun i => ?_, List.nodup_nil, fun q hq => absurd hq List.not_mem_nil⟩⟩
  · exact ⟨nofun, nofun⟩
  · exact ⟨.inl rfl, fun _ => ⟨rfl, rfl⟩, fun hne => absurd rfl hne, nofun, nofun, nofun, nofun,
      nofun, fun hne => absurd rfl hne, nofun⟩

end

section
variable {ι : Type} [DecidableEq ι] {own : ι → Str} {w : World ι}

/-- **Replies reach the request they answer**, in every run of menu-driven clients and the server in
which no name typed at the REGISTER prompt makes a TRANSACTION of the message, fresh memory starts
with a NUL, and no client's threads meet in `strtok`. -/
theorem replies_reach (hown : ∀ i, LoginName (own i)) {t : Table}
    (ht : ∀ r ∈ t.rows, '\x00' ∉ r.username ∧ '\x00' ∉ r.ip) {es : List (Happening ι)}
    (h : Run World.step (Proper own) (World.init t) es w) : RepliesReach w := by
  have hinv : Wired w ∧ Orderly own w :=
    h.inv (fun _ _ _ hi hg hs => orderly_step hown hi.1 hi.2 hg hs) (orderly_init ht)
  exact hinv.2.repliesReach

end

/-! ## Two clients -/

/-- The clients `a` and `b`. -/
def seat (i : Bool) : Str := if i then "b".toList else "a".toList

theorem loginName_seat (i : Bool) : LoginName (seat i) := by
  cases i
  · exact ⟨⟨by simp [seat], by simp [seat], by simp [seat]⟩, by simp [seat]⟩
  · exact ⟨⟨by simp [seat], by simp [seat], by simp [seat]⟩, by simp [seat]⟩

/-- Both register and log in. -/
def twoOnline : List (Happening Bool) :=
  [.connect false 127 0 0 1 5000, .connect true 127 0 0 1 5001,
    .register false "a".toList, .serve false false none, .reply false none,
    .register true "b".toList, .serve true false none, .reply true none,
    .login false none 6000, .serve false false none, .reply false none,
    .list false, .serve false false none, .reply false none,
    .login true none 6001, .serve true false none, .reply true none,
    .list true, .serve true false none, .reply true none]

/-- `a` pays `b`, whose client passes the message on. -/
def aPaysB (amount : Int) : List (Happening Bool) :=
  [.transaction false, .serve false false none, .reply false none,
    .pay false "b".toList amount true (List.replicate 2048 '\x00'),
    .accept true, .forward true none, .announce true, .serve true false none, .reply false none,
    .list false, .serve false false none, .reply false none]

theorem replies_reach_two : ∃ w, Run World.step (Proper seat) (World.init Keyed.empty)
    (twoOnline ++ aPaysB 300) w ∧ RepliesReach w := by
  have hrun : allowed World.step (Proper seat) (World.init Keyed.empty)
      (twoOnline ++ aPaysB 300) = true := by
    decide +kernel
  obtain ⟨w, -, hr⟩ := Run.of_allowed hrun
  exact ⟨w, hr, replies_reach loginName_seat (fun r hr => absurd hr List.not_mem_nil) hr⟩

/-- `b` registers the name REGISTER too, and once it has been paid, its user types `5#a` at the
REGISTER prompt. -/
def strayRun : List (Happening Bool) :=
  twoOnline ++ [.register true "REGISTER".toList, .serve true false none, .reply true none] ++
    aPaysB 300 ++ [.register true "5#a".toList, .serve true false (some 0)]

/-- `REGISTER#5#a` is a TRANSACTION of REGISTER, who has a row and no entry in `client_fds`.
`sender_fd` has what the transfer has left there, and `a` at the menu gets the reply to `b`. -/
theorem stray_reply : ∃ w, Run World.step (fun w e => OwnLogin seat w e ∧ Unspoiled e)
    (World.init Keyed.empty) strayRun w ∧ w.exited = false ∧
      (w.programs false).main = .menu ∧ (w.programs true).main = .waiting .register ∧
      (Mail.queue Packet.place w.packets (.toClient false)).map Packet.client = [true] ∧
      ¬RepliesReach w := by
  have hrun : allowed World.step (fun w e => OwnLogin seat w e ∧ Unspoiled e)
      (World.init Keyed.empty) strayRun = true := by
    decide +kernel
  have hend : (runAll World.step (World.init Keyed.empty) strayRun).map
      (fun w => (w.exited, (w.programs false).main, (w.programs true).main,
        (Mail.queue Packet.place w.packets (.toClient false)).map Packet.client)) =
        some (false, .menu, .waiting .register, [true]) := by
    decide +kernel
  obtain ⟨w, hw, hr⟩ := Run.of_allowed hrun
  rw [hw] at hend
  obtain ⟨hlives, hmenu, hwaits, hqueue⟩ : w.exited = false ∧ (w.programs false).main = .menu ∧
      (w.programs true).main = .waiting .register ∧
      (Mail.queue Packet.place w.packets (.toClient false)).map Packet.client = [true] := by
    simpa using hend
  refine ⟨w, hr, hlives, hmenu, hwaits, hqueue, fun h => ?_⟩
  obtain ⟨q, hq⟩ : ∃ q, q ∈ Mail.queue Packet.place w.packets (.toClient false) := by
    apply List.exists_mem_of_ne_nil
    rintro hnil
    rw [hnil] at hqueue
    cases hqueue
  obtain ⟨⟨r, hwait⟩, -⟩ := h.own false q hq
  rw [hmenu] at hwait
  cases hwait

end Micropayment
