import Micropayment.Server

/-!
# Frames on the wire (`send_P3` and `recv_P3` of `util.hpp`)

A frame is 4096 bytes: a 256-byte RSA block and zeros. RSA itself is OpenSSL's, so the functions
take it as a parameter; `Rsa` is what they rely on. `paddingOnly` has RSA's padding and no keys:
it satisfies the laws, and concrete runs use it. `Server.receive` is the part of an iteration of
`process_request` before the `switch`.
-/

set_option autoImplicit false

namespace Micropayment

/-- The result of `recv`: `none` is -1. -/
def rcvByte : Option Str → Int
  | some bytes => bytes.length
  | none => -1

/-- The receive buffer after `recv`: what it held before is left behind the received bytes. -/
def encrypted (recv : Option Str) (stale : Str) : Str :=
  recv.getD [] ++ stale.drop (recv.getD []).length

/-- `rcv_byte` and the plaintext of `recv_P3`; `none` is `exit(0)`. -/
def recvP3 (decrypt : Str → Option Str) (recv : Option Str) (stale : Str) : Option (Int × Str) :=
  match decrypt ((encrypted recv stale).take 256) with
  | none => none
  | some decrypted => some (rcvByte recv, cStr decrypted)

/-- The frame that `send_P3` sends; `none` is `exit(0)`. -/
def sendP3 (encrypt : Str → Option Str) (plaintext : Str) : Option Str :=
  match encrypt plaintext with
  | none => none
  | some encrypted => some (encrypted ++ List.replicate (4096 - encrypted.length) '\x00')

/-- RSA-2048 with PKCS#1 padding under matching keys, in either direction (`public_encrypt` and
`private_decrypt`, or `private_encrypt` and `public_decrypt`); `seed` is the random padding. -/
structure Rsa where
  encrypt : Nat → Str → Option Str
  decrypt : Str → Option Str
  encrypt_isSome : ∀ seed plain, (encrypt seed plain).isSome = true ↔ plain.length ≤ 245
  length : ∀ seed plain block, encrypt seed plain = some block → block.length = 256
  decrypt_encrypt : ∀ seed plain block, encrypt seed plain = some block → decrypt block = some plain
  rejects : ∀ block plain, decrypt block = some plain → ∃ seed, encrypt seed plain = some block

/-! ## Connections -/

/-- The frames of successive `send_P3` calls, each with its padding seed. -/
def sendAll (rsa : Rsa) : List (Nat × Str) → Option (List Str)
  | [] => some []
  | (seed, plaintext) :: sends =>
    match sendP3 (rsa.encrypt seed) plaintext, sendAll rsa sends with
    | some frame, some frames => some (frame :: frames)
    | _, _ => none

/-- The plaintexts of successive `recv_P3` calls, each with what `recv` returns and the stale
buffer. -/
def recvAll (rsa : Rsa) : List (Str × Str) → Option (List Str)
  | [] => some []
  | (received, stale) :: recvs =>
    match recvP3 rsa.decrypt (some received) stale, recvAll rsa recvs with
    | some (_, plaintext), some plaintexts => some (plaintext :: plaintexts)
    | _, _ => none

/-- The transport delivers the bytes of the frames in order, in non-empty pieces of at most the
size of the receive buffer. -/
structure Cuts (frames pieces : List Str) : Prop where
  bytes : pieces.flatten = frames.flatten
  nonempty : ∀ piece ∈ pieces, piece ≠ []
  buffer : ∀ piece ∈ pieces, piece.length ≤ 4096

/-! ## Receiving in the server -/

/-- What comes of an iteration before the `switch`: the process has exited, the connection has
ended, or there is a plaintext. -/
inductive Receipt where
  | exited
  | ended (s : Server)
  | plaintext (raw : Str)

def Server.receive (s : Server) (c : Conn) (decrypt : Str → Option Str) (recv : Option Str)
    (stale : Str) : Receipt :=
  match recvP3 decrypt recv stale with
  | none => .exited
  | some (tmpByteRead, buffer) =>
    let raw := cStr buffer
    if tmpByteRead = -1 ∨ raw = [] then .ended (s.disconnect c) else .plaintext raw

/-- The server process ends in this iteration: at an empty vector's `[0]`, or in `send_P3`, which
exits on a reply that does not fit an RSA block. -/
def Server.exits (s : Server) (c : Conn) (raw : Str) : Bool :=
  s.crashes c raw || match (s.handle c raw).outcome with
    | .sent _ response => 245 < response.length
    | _ => false

/-! ## Padding without keys -/

/-- PKCS#1 padding: filler bytes up to a zero byte, then the plaintext. -/
def pad (plain : Str) : Option Str :=
  if plain.length ≤ 245 then
    some (List.replicate (255 - plain.length) '\x01' ++ '\x00' :: plain)
  else none

def unpad (block : Str) : Option Str :=
  match block.dropWhile (· = '\x01') with
  | '\x00' :: plain => if block.length = 256 ∧ plain.length ≤ 245 then some plain else none
  | _ => none

theorem unpad_pad {plain block : Str} (h : pad plain = some block) : unpad block = some plain := by
  unfold pad at h
  split at h
  · rename_i hlen
    obtain rfl := Option.some.inj h
    have hdrop : (List.replicate (255 - plain.length) '\x01' ++ '\x00' :: plain).dropWhile
        (· = '\x01') = '\x00' :: plain := by
      rw [List.dropWhile_append_of_pos (by simp), List.dropWhile_cons_of_neg (by decide)]
    unfold unpad
    rw [hdrop]
    simp only [List.length_append, List.length_replicate, List.length_cons]
    rw [if_pos (by omega)]
  · cases h

theorem pad_unpad {plain block : Str} (h : unpad block = some plain) : pad plain = some block := by
  unfold unpad at h
  split at h
  · rename_i plain' hdrop
    split at h
    · rename_i hlen
      obtain rfl := Option.some.inj h
      have hsplit := List.takeWhile_append_dropWhile (p := fun c => decide (c = '\x01'))
        (l := block)
      rw [hdrop] at hsplit
      generalize hfill : block.takeWhile (fun c => decide (c = '\x01')) = fill at hsplit
      have hrep : fill = List.replicate fill.length '\x01' := by
        refine List.eq_replicate_of_mem fun c hc => ?_
        rw [← hfill] at hc
        simpa using List.mem_takeWhile_imp hc
      have hlength := congrArg List.length hsplit
      simp only [List.length_append, List.length_cons] at hlength
      unfold pad
      rw [if_pos hlen.2, (by omega : 255 - plain'.length = fill.length), ← hrep, hsplit]
    · cases h
  · cases h

/-- A cipher with RSA's padding and lengths, whose key operations are the identity. -/
def paddingOnly : Rsa where
  encrypt _ plain := pad plain
  decrypt := unpad
  encrypt_isSome _ plain := by
    unfold pad
    split
    · simpa
    · simpa using Nat.lt_of_not_le ‹_›
  length _ plain block h := by
    unfold pad at h
    split at h
    · obtain rfl := Option.some.inj h
      simp only [List.length_append, List.length_replicate, List.length_cons]
      omega
    · cases h
  decrypt_encrypt _ _ _ h := unpad_pad h
  rejects _ _ h := ⟨0, pad_unpad h⟩

end Micropayment
