import Micropayment.Wire

/-!
# Framing on a stream

`recv_P3` takes what one `recv` returns for a whole frame. `recvAll_iff`: the messages of a
connection arrive, in order and each once, exactly when the transport keeps every frame in one
piece. If it does, each frame decrypts to its message (`recvP3_frame`); if it does not, there are
more pieces than frames.
-/

set_option autoImplicit false

namespace Micropayment

/-- A non-empty C string that fits the RSA block. -/
structure Sendable (plaintext : Str) : Prop where
  ne : plaintext ≠ []
  nul : '\x00' ∉ plaintext
  fits : plaintext.length ≤ 245

section
variable {rsa : Rsa}

theorem sendP3_some (rsa : Rsa) (seed : Nat) {plaintext : Str} (h : plaintext.length ≤ 245) :
    ∃ block, rsa.encrypt seed plaintext = some block ∧ block.length = 256 ∧
      sendP3 (rsa.encrypt seed) plaintext = some (block ++ List.replicate 3840 '\x00') := by
  obtain ⟨block, hb⟩ := Option.isSome_iff_exists.1 ((rsa.encrypt_isSome seed plaintext).2 h)
  have hlen := rsa.length _ _ _ hb
  exact ⟨block, hb, hlen, by simp only [sendP3, hb, hlen]⟩

/-- A frame received in one piece decrypts to its message. -/
theorem recvP3_frame {seed : Nat} {plaintext frame : Str} (h : Sendable plaintext)
    (hs : sendP3 (rsa.encrypt seed) plaintext = some frame) (stale : Str) :
    frame.length = 4096 ∧ recvP3 rsa.decrypt (some frame) stale = some (4096, plaintext) := by
  obtain ⟨block, hb, hlen, hframe⟩ := sendP3_some rsa seed h.fits
  rw [hs] at hframe
  obtain rfl := Option.some.inj hframe
  have htake : (encrypted (some (block ++ List.replicate 3840 '\x00')) stale).take 256 = block := by
    rw [encrypted, Option.getD_some, List.append_assoc, ← hlen, List.take_left']
    rfl
  have hframe : (block ++ List.replicate 3840 '\x00').length = 4096 := by
    rw [List.length_append, List.length_replicate, hlen]
  refine ⟨hframe, ?_⟩
  rw [recvP3, htake, rsa.decrypt_encrypt _ _ _ hb]
  dsimp only [rcvByte]
  rw [hframe, cStr_eq h.nul]
  rfl

theorem sendAll_some (rsa : Rsa) {sends : List (Nat × Str)} (h : ∀ m ∈ sends, Sendable m.2) :
    ∃ frames, sendAll rsa sends = some frames ∧ frames.length = sends.length ∧
      (∀ frame ∈ frames, frame.length = 4096) ∧
      ∀ recvs : List (Str × Str), recvs.map Prod.fst = frames →
        recvAll rsa recvs = some (sends.map Prod.snd) := by
  induction sends with
  | nil =>
    refine ⟨[], rfl, rfl, by simp, fun recvs hr => ?_⟩
    obtain rfl := List.map_eq_nil_iff.1 hr
    rfl
  | cons m sends ih =>
    obtain ⟨seed, plaintext⟩ := m
    have hm : Sendable plaintext := h _ List.mem_cons_self
    obtain ⟨frames, hsend, hcount, hlen, hrecv⟩ := ih fun m hm => h m (.tail _ hm)
    obtain ⟨block, -, -, hframe⟩ := sendP3_some rsa seed hm.fits
    refine ⟨_, by rw [sendAll, hframe, hsend], congrArg (· + 1) hcount, fun frame hf => ?_,
      fun recvs hr => ?_⟩
    · rcases List.mem_cons.1 hf with rfl | hf
      · exact (recvP3_frame hm hframe []).1
      · exact hlen frame hf
    · obtain ⟨⟨received, stale⟩, rest, rfl, hfst, hrest⟩ := List.map_eq_cons_iff.1 hr
      obtain rfl : received = _ := hfst
      rw [recvAll, (recvP3_frame hm hframe stale).2, hrecv rest hrest]
      rfl

theorem recvAll_length {recvs : List (Str × Str)} {plaintexts : List Str}
    (h : recvAll rsa recvs = some plaintexts) : plaintexts.length = recvs.length := by
  induction recvs generalizing plaintexts with
  | nil =>
    cases h
    rfl
  | cons r recvs ih =>
    obtain ⟨received, stale⟩ := r
    unfold recvAll at h
    split at h
    · rename_i hrest
      obtain rfl := Option.some.inj h
      simp [ih hrest]
    · cases h

/-- **Framing survives the transport** exactly when every `recv` returns a whole frame. -/
theorem recvAll_iff (rsa : Rsa) {sends : List (Nat × Str)} (h : ∀ m ∈ sends, Sendable m.2) :
    ∃ frames, sendAll rsa sends = some frames ∧
      ∀ recvs : List (Str × Str), Cuts frames (recvs.map Prod.fst) →
        (recvAll rsa recvs = some (sends.map Prod.snd) ↔ ∀ r ∈ recvs, r.1.length = 4096) := by
  obtain ⟨frames, hsend, hcount, hlen, hrecv⟩ := sendAll_some rsa h
  refine ⟨frames, hsend, fun recvs hcut => ⟨fun hall r hr => ?_, fun hfull => ?_⟩⟩
  · -- as many pieces as frames, none longer than a frame
    have hcalls := recvAll_length hall
    have hbytes : (recvs.map Prod.fst).flatten.length = 4096 * (recvs.map Prod.fst).length := by
      rw [hcut.bytes, (full_iff fun f hf => (hlen f hf).le).2 hlen, hcount]
      simpa using hcalls
    exact (full_iff hcut.buffer).1 hbytes r.1 (List.mem_map_of_mem hr)
  · apply hrecv
    refine full_unique (by decide : 0 < 4096) (fun x hx => ?_) hlen hcut.bytes
    obtain ⟨r, hr, rfl⟩ := List.mem_map.1 hx
    exact hfull r hr

end

section
theorem sendable_list : ∀ m ∈ [(0, "List".toList)], Sendable m.2 := by
  intro m hm
  obtain rfl := List.mem_singleton.1 hm
  exact ⟨by decide, by decide, by decide⟩

theorem sendable_two :
    ∀ m ∈ [(0, "REGISTER#a".toList), (1, "List".toList)], Sendable m.2 := by
  intro m hm
  rcases List.mem_cons.1 hm with rfl | hm
  · exact ⟨by decide, by decide, by decide⟩
  · obtain rfl := List.mem_singleton.1 hm
    exact ⟨by decide, by decide, by decide⟩

theorem recvAll_iff_list :
    ∃ frames, sendAll paddingOnly [(0, "REGISTER#a".toList), (1, "List".toList)] = some frames ∧
      ∀ recvs : List (Str × Str), Cuts frames (recvs.map Prod.fst) →
        (recvAll paddingOnly recvs = some ["REGISTER#a".toList, "List".toList] ↔
          ∀ r ∈ recvs, r.1.length = 4096) :=
  recvAll_iff paddingOnly sendable_two

/-- The frame of one message in two pieces, of 100 and 3996 bytes, is two messages. -/
theorem split_frame_lost :
    ∃ frames, sendAll paddingOnly [(0, "List".toList)] = some frames ∧
      ∃ recvs : List (Str × Str), Cuts frames (recvs.map Prod.fst) ∧
        recvs.map (fun r => r.1.length) = [100, 3996] ∧
        recvAll paddingOnly recvs ≠ some ["List".toList] := by
  obtain ⟨frames, hsend, hcount, hlen, -⟩ := sendAll_some paddingOnly sendable_list
  obtain ⟨frame, rfl⟩ := List.length_eq_one_iff.1 hcount
  have h := hlen frame List.mem_cons_self
  have htake : (frame.take 100).length = 100 := by rw [List.length_take, h]; rfl
  have hdrop : (frame.drop 100).length = 3996 := by rw [List.length_drop, h]
  have hpieces : ∀ piece ∈ [frame.take 100, frame.drop 100],
      piece.length = 100 ∨ piece.length = 3996 := by
    intro piece hp
    rcases List.mem_cons.1 hp with rfl | hp
    · exact .inl htake
    · exact .inr (List.mem_singleton.1 hp ▸ hdrop)
  refine ⟨_, hsend, [(frame.take 100, []), (frame.drop 100, [])],
    ⟨by simp, fun piece hp he => ?_, fun piece hp => ?_⟩, ?_, fun hall => ?_⟩
  · rcases hpieces piece hp with hp | hp
    · rw [he] at hp; cases hp
    · rw [he] at hp; cases hp
  · rcases hpieces piece hp with hp | hp <;> omega
  · simp only [List.map_cons, List.map_nil, htake, hdrop]
  · have := recvAll_length hall
    cases this

end

end Micropayment
