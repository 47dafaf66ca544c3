import Micropayment.Proof.Authorise
import Micropayment.Proof.Relay

/-!
# The peer message in memory

`p2p_transaction` builds its message with `strcat` in memory that it has not cleared, so what was
there before the first NUL comes in front of the payer's name (`p2pPlaintext_eq`). The message is
right exactly if the first byte is a NUL (`namesPayer_iff`).
-/

set_option autoImplicit false

namespace Micropayment

/-- `strcat` with room for the result. -/
theorem strcat_some (dest src : Str) (h0 : '\x00' ∉ src)
    (hfit : (cStr dest ++ src).length < dest.length) :
    ∃ dest', strcat dest src = some dest' ∧ dest'.length = dest.length ∧
      cStr dest' = cStr dest ++ src := by
  have hnul : '\x00' ∉ cStr dest ++ src := by
    simpa using ⟨nul_notMem_cStr dest, h0⟩
  refine ⟨_, by rw [strcat, cStr_eq h0, if_pos hfit], ?_, cStr_append_nul hnul _⟩
  simp only [List.length_append, List.length_cons, List.length_drop] at hfit ⊢
  omega

section
variable {heap sender receiver : Str} {amount : Int}

theorem length_toStr_le (hlo : -2 ^ 31 ≤ amount) (hhi : amount < 2 ^ 31) :
    (toStr amount).length ≤ 11 := by
  have hdigits : (Nat.toDigits 10 amount.natAbs).length ≤ 10 :=
    (Nat.length_toDigits_le_iff (by decide) (by decide)).2 (by omega)
  unfold toStr
  split
  · rw [List.length_cons]
    omega
  · omega

/-- What the memory held before its first NUL is in front of the message. -/
theorem p2pPlaintext_eq (hs : '\x00' ∉ sender) (hr : '\x00' ∉ receiver) (hlen : heap.length = 2048)
    (hfit : (cStr heap ++ transactMsg sender amount receiver).length < 2048) :
    p2pPlaintext heap sender amount receiver =
      some (cStr heap ++ transactMsg sender amount receiver) := by
  have ha : '\x00' ∉ toStr amount := (isArg_toStr amount).nul
  simp only [transactMsg, List.length_append] at hfit
  obtain ⟨m₁, h₁, l₁, c₁⟩ := strcat_some heap sender hs (by simp only [List.length_append]; omega)
  obtain ⟨m₂, h₂, l₂, c₂⟩ := strcat_some m₁ "#".toList (by simp)
    (by simp only [c₁, List.length_append]; omega)
  obtain ⟨m₃, h₃, l₃, c₃⟩ := strcat_some m₂ (toStr amount) ha
    (by simp only [c₁, c₂, List.length_append]; omega)
  obtain ⟨m₄, h₄, l₄, c₄⟩ := strcat_some m₃ "#".toList (by simp)
    (by simp only [c₁, c₂, c₃, List.length_append]; omega)
  obtain ⟨m₅, h₅, l₅, c₅⟩ := strcat_some m₄ receiver hr
    (by simp only [c₁, c₂, c₃, c₄, List.length_append]; omega)
  have hmsg : cStr m₅ = cStr heap ++ transactMsg sender amount receiver := by
    simp only [c₁, c₂, c₃, c₄, c₅, transactMsg, List.append_assoc]
  have hcopy : (cStr m₅).length < (List.replicate 2048 '\x00').length := by
    rw [hmsg, transactMsg]
    simp only [List.length_append, List.length_replicate]
    omega
  simp only [p2pPlaintext, buildTransactMsg, h₁, h₂, h₃, h₄, h₅, Option.bind_eq_bind,
    Option.bind_some, strcpy, if_pos hcopy]
  rw [← hmsg]
  exact congrArg some (cStr_append_nul (nul_notMem_cStr m₅) _)

theorem cStr_fresh (h : heap.head? = some '\x00') : cStr heap = [] := by
  cases heap with
  | nil => cases h
  | cons c l =>
    cases h
    rfl

/-- In memory that starts with a NUL, the message is the one that is meant. -/
theorem p2pMessage_fresh {text : Str} (hs : '\x00' ∉ sender) (hr : '\x00' ∉ receiver)
    (hlo : -2 ^ 31 ≤ amount) (hhi : amount < 2 ^ 31) (hheap : heap.head? = some '\x00')
    (h : p2pMessage heap sender amount receiver = some text) :
    text = transactMsg sender amount receiver := by
  obtain ⟨⟨hlen, hslen, hrlen⟩, h⟩ := Option.ite_none_right_eq_some.1 h
  obtain ⟨h, -⟩ := Option.filter_eq_some_iff.1 h
  have hdigits := length_toStr_le hlo hhi
  rw [p2pPlaintext_eq hs hr hlen ?_, cStr_fresh hheap, List.nil_append] at h
  · exact (Option.some.inj h).symm
  · simp only [cStr_fresh hheap, transactMsg, List.nil_append, List.length_append]
    simp
    omega

end

/-- `plaintext`, sent to a peer and forwarded by it, is at the server a TRANSACTION with the
`sender`, the `amount` and the `receiver`. -/
def Delivers (plaintext sender : Str) (amount : Int) (receiver : Str) : Prop :=
  ∀ (peerKey serverKey : Rsa) (seed seed' : Nat), ∃ frame forwarded raw,
    sendP3 (peerKey.encrypt seed) plaintext = some frame ∧
    (∀ stale, receiving peerKey.decrypt (serverKey.encrypt seed') (some frame) stale =
      some forwarded) ∧
    (∀ s c stale, Server.receive s c serverKey.decrypt (some forwarded) stale = .plaintext raw) ∧
    parseCommand raw = (.transaction, [sender, toStr amount, receiver]) ∧
    stod (toStr amount) = .ok (amount : ℚ)

/-- The message that is sent names the payer: it is exactly `sender#amount#receiver`, and is parsed
as that if the names are non-empty and have no `#`. -/
structure NamesPayer (heap sender : Str) (amount : Int) (receiver : Str) : Prop where
  exact : p2pPlaintext heap sender amount receiver = some (transactMsg sender amount receiver)
  parsed : IsArg sender → IsArg receiver → ∃ plaintext,
    p2pPlaintext heap sender amount receiver = some plaintext ∧
    Delivers plaintext sender amount receiver

theorem delivers_transactMsg {sender receiver : Str} {amount : Int} (hs : IsArg sender)
    (hr : IsArg receiver) (hlo : -2 ^ 31 ≤ amount) (hhi : amount < 2 ^ 31)
    (hlen : (transactMsg sender amount receiver).length ≤ 245) :
    Delivers (transactMsg sender amount receiver) sender amount receiver := by
  intro peerKey serverKey seed seed'
  have hsend : Sendable (transactMsg sender amount receiver) := by
    refine ⟨by simp [transactMsg], ?_, hlen⟩
    simp [transactMsg, hs.nul, hr.nul, (isArg_toStr amount).nul]
  obtain ⟨block, -, -, hframe⟩ := sendP3_some peerKey seed hlen
  obtain ⟨forwarded, hforward, hrecv⟩ := receiving_frame hsend hframe
  have hparse := parseCommand_transactMsg (x := (amount, receiver)) hs ⟨hlo, hhi, hr⟩
  exact ⟨_, forwarded, _, hframe, hforward, hrecv, hparse, stod_toStr hlo hhi⟩

/-- **The peer message names the payer exactly** if and only if the memory from `new char[]` starts
with a NUL. -/
theorem namesPayer_iff {heap sender receiver : Str} {amount : Int} (hs : '\x00' ∉ sender)
    (hr : '\x00' ∉ receiver) (hslen : sender.length < 20) (hrlen : receiver.length < 20)
    (hlo : -2 ^ 31 ≤ amount) (hhi : amount < 2 ^ 31) (hlen : heap.length = 2048)
    (hfit : (cStr heap ++ transactMsg sender amount receiver).length < 2048) :
    NamesPayer heap sender amount receiver ↔ heap.head? = some '\x00' := by
  have heq := p2pPlaintext_eq hs hr hlen hfit
  have hdigits := length_toStr_le hlo hhi
  have hhead : cStr heap = [] ↔ heap.head? = some '\x00' := by
    cases heap with
    | nil => cases hlen
    | cons c l => simp [cStr, List.takeWhile_cons]
  rw [← hhead]
  constructor
  · intro h
    have hexact := h.exact
    rw [heq, Option.some.injEq] at hexact
    simpa using hexact
  · intro h
    rw [h, List.nil_append] at heq
    refine ⟨heq, fun hs hr => ⟨_, heq, delivers_transactMsg hs hr hlo hhi ?_⟩⟩
    simp only [transactMsg, List.length_append]
    simp
    omega

/-- On a fresh page. -/
theorem namesPayer_fresh : NamesPayer (List.replicate 2048 '\x00') ['a'] 300 ['b'] := by
  have hc : cStr (List.replicate 2048 '\x00') = [] := rfl
  refine (namesPayer_iff (by decide) (by decide) (by decide) (by decide) (by decide) (by decide)
    List.length_replicate ?_).2 rfl
  rw [hc]
  decide +kernel

/-- The memory holds an `x` of an earlier use: the message names the payer `xa`. -/
theorem stale_payer :
    ¬ NamesPayer ('x' :: List.replicate 2047 '\x00') ['a'] 300 ['b'] ∧
    p2pPlaintext ('x' :: List.replicate 2047 '\x00') ['a'] 300 ['b'] =
      some "xa#300#b".toList ∧
    parseCommand "xa#300#b".toList =
      (.transaction, ["xa".toList, "300".toList, "b".toList]) := by
  have h : p2pPlaintext ('x' :: List.replicate 2047 '\x00') ['a'] 300 ['b'] =
      some "xa#300#b".toList := by
    decide +kernel
  refine ⟨fun hn => ?_, h, by decide +kernel⟩
  have hexact := hn.exact
  rw [h] at hexact
  revert hexact
  decide +kernel

end Micropayment
