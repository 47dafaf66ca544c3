import Micropayment.Proof.Session
import Micropayment.Wire

/-!
# What the bytes of one connection can end

Before the `switch`, an iteration either has a plaintext or ends its own connection, and leaves
everything of the others as it is (`disconnect_isolated`). The exception is in `recv_P3`, which
exits when the block does not decrypt, also when `recv` has failed and there is no block:
`receive_isolated_iff`.
-/

set_option autoImplicit false

namespace Micropayment

/-- The connection `c` has ended with a logout; the rows, `client_fds` entries and loops of all
other connections are as before. -/
structure EndsAlone (s : Server) (c : Conn) (s' : Server) : Prop where
  branch : s' = s.disconnect c
  ended : c ∉ s'.conns.rows
  rows : ∀ r ∈ s.table.rows, r.endpoint ≠ c.endpoint ∨ r.online = false →
    s'.table.find? r.username = some r
  live : ∀ c' ∈ s.conns.rows, c' ≠ c → c' ∈ s'.conns.rows
  liveRows : ∀ c' ∈ s.conns.rows, c' ≠ c → c'.username ≠ [] →
    s'.table.find? c'.username = s.table.find? c'.username
  liveFds : ∀ c' ∈ s.conns.rows, c' ≠ c →
    (s'.clientFds.filter fun fd => fd.2 = c'.id) = s.clientFds.filter fun fd => fd.2 = c'.id

/-- The iteration has a plaintext to dispatch, or ends its own connection only. -/
def Isolated (s : Server) (c : Conn) : Receipt → Prop
  | .exited => False
  | .ended s' => EndsAlone s c s'
  | .plaintext raw => raw ≠ []

theorem filter_eraseP {α : Type} {l : List α} {p q : α → Bool}
    (h : ∀ x ∈ l, q x = true → p x = false) : (l.eraseP p).filter q = l.filter q := by
  induction l with
  | nil => rfl
  | cons x l ih =>
    have ih := ih fun y hy => h y (.tail _ hy)
    by_cases hp : p x = true
    · have hq : ¬ q x = true := fun hq => by
        rw [h x List.mem_cons_self hq] at hp
        cases hp
      rw [List.eraseP_cons_of_pos hp, List.filter_cons_of_neg hq]
    · rw [List.eraseP_cons_of_neg hp, List.filter_cons, List.filter_cons, ih]

section
variable {s : Server} {c : Conn}

theorem disconnect_isolated (h : Sessions s) (hc : c ∈ s.conns.rows) :
    EndsAlone s c (s.disconnect c) := by
  have hid : ∀ {c'}, c' ∈ s.conns.rows → c' ≠ c → c'.id ≠ c.id :=
    fun hc' hne he => hne (Keyed.eq_of_key hc' hc he)
  refine ⟨rfl, fun hm => (Keyed.mem_erase.1 hm).2 rfl, fun r hr hne => ?_,
    fun c' hc' hne => Keyed.mem_erase.2 ⟨hc', hid hc' hne⟩, fun c' hc' hne hu => ?_,
    fun c' hc' hne => filter_eraseP fun fd hfd hq => ?_⟩
  · exact OnlineAt.find?_logout (Keyed.find?_of_mem hr) hne
  · obtain ⟨r, hr, -, hep⟩ := h.backed c' hc' hu
    rw [hr]
    exact OnlineAt.find?_logout hr (.inl (hep ▸ h.other_endpoint hc hc' (hid hc' hne)))
  · -- an entry of `c'` names a row at the endpoint of `c'`, and so not the name of `c`
    rw [decide_eq_false_iff_not]
    intro hname
    obtain ⟨r, hr, -, hep⟩ := h.fdBacked fd hfd c' hc' (by simpa using Eq.symm (by simpa using hq))
    obtain ⟨r', hr', -, hep'⟩ := h.backed c hc (hname ▸ h.fdNames fd hfd)
    rw [← hname, hr] at hr'
    cases hr'
    exact h.other_endpoint hc hc' (hid hc' hne) (hep.symm.trans hep')

/-- **A client's bytes end only its own connection**, in every reachable state, exactly when
`private_decrypt` accepts the received block. -/
theorem receive_isolated_iff {t : Table} {actions : List Action}
    (h : Run Server.step Any (Server.init t) actions s) (hc : c ∈ s.conns.rows)
    (decrypt : Str → Option Str) (recv : Option Str) (stale : Str) :
    Isolated s c (s.receive c decrypt recv stale) ↔
      decrypt ((encrypted recv stale).take 256) ≠ none := by
  have hs := Sessions.run h
  unfold Server.receive recvP3
  cases decrypt ((encrypted recv stale).take 256) with
  | none => simp [Isolated]
  | some decrypted =>
    dsimp only
    split
    · exact ⟨fun _ => by simp, fun _ => disconnect_isolated hs hc⟩
    · rename_i hraw
      exact ⟨fun _ => by simp, fun _ he => hraw (.inr he)⟩

/-- The first of two connections: a message from its peer, and what is received when the peer has
closed it. -/
theorem receive_isolated_iff_closed :
    ∃ s c block,
      Run Server.step Any (Server.init Keyed.empty) [.accept ['x'] 1, .accept ['y'] 2] s ∧
      c ∈ s.conns.rows ∧ pad "List".toList = some block ∧
      Isolated s c (s.receive c unpad (some block) []) ∧
      ¬Isolated s c (s.receive c unpad (some []) []) := by
  have hconns : (runAll Server.step (Server.init Keyed.empty)
      [.accept ['x'] 1, .accept ['y'] 2]).map (fun s => s.conns.rows) =
        some [⟨0, ['x'], 1, []⟩, ⟨1, ['y'], 2, []⟩] := by decide +kernel
  obtain ⟨s, hs, hrows⟩ := Option.map_eq_some_iff.1 hconns
  have hc : (⟨0, ['x'], 1, []⟩ : Conn) ∈ s.conns.rows := by
    rw [hrows]
    exact List.mem_cons_self
  obtain ⟨block, hblock⟩ := Option.isSome_iff_exists.1
    (by decide +kernel : (pad "List".toList).isSome = true)
  have hmessage : unpad ((encrypted (some block) []).take 256) ≠ none := by
    have hlen : block.length = 256 := paddingOnly.length 0 "List".toList block hblock
    rw [encrypted, Option.getD_some, List.drop_nil, List.append_nil, ← hlen, List.take_length,
      unpad_pad hblock]
    exact Option.some_ne_none _
  refine ⟨s, _, block, Run.of_runAll hs, hc, hblock,
    (receive_isolated_iff (Run.of_runAll hs) hc unpad (some block) []).2 hmessage, fun h => ?_⟩
  exact (receive_isolated_iff (Run.of_runAll hs) hc unpad (some []) []).1 h (by decide +kernel)

/-- A peer closes its socket before it has sent anything, and the receive buffer holds zeros: the
server process exits. -/
theorem closed_exits :
    ((Server.init Keyed.empty).accepting ['x'] 1).conns.rows = [⟨0, ['x'], 1, []⟩] ∧
    ¬ Isolated ((Server.init Keyed.empty).accepting ['x'] 1) ⟨0, ['x'], 1, []⟩
      (((Server.init Keyed.empty).accepting ['x'] 1).receive ⟨0, ['x'], 1, []⟩ unpad (some [])
        (List.replicate 4096 '\x00')) := by
  have hblock : unpad ((encrypted (some []) (List.replicate 4096 '\x00')).take 256) = none := by
    decide +kernel
  refine ⟨rfl, ?_⟩
  unfold Server.receive recvP3
  rw [hblock]
  exact id

end

end Micropayment
