import Micropayment.Peer

/-!
# Names in messages

A name that can be registered is any token of a message (`registered_iff`). `usable_iff`: it can be
used in every message and list line unless it is `REGISTER`, which makes its LOGIN a REGISTER, or
has a newline, which breaks its line of the list.
-/

set_option autoImplicit false

namespace Micropayment

/-- The server has answered a REGISTER message for `u` with `REGISTER_OK`. -/
def Registered (u : Str) : Prop :=
  ∃ s c raw, (parseCommand raw).1 = .register ∧ arg (parseCommand raw).2 1 = u ∧
    (Server.handle s c raw).outcome =
      .sent c.id (toStr Status.registerOk.code ++ " OK\n".toList)

/-- Every message and list line with the name is understood. -/
structure Usable (u : Str) : Prop where
  login : ∀ port : Nat, port ≤ 65535 →
    parseCommand (u ++ "#".toList ++ toStr port) = (.login, [u, toStr port])
  transaction : ∀ v, Registered v → v ≠ u → ∀ amount : Int, -2 ^ 31 ≤ amount → amount < 2 ^ 31 →
    parseCommand (u ++ "#".toList ++ toStr amount ++ "#".toList ++ v) =
      (.transaction, [u, toStr amount, v])
  line : ∀ (a b c d : UInt8) (port : Int), splitLines (listLine u (inetNtoa a b c d) port) =
    [[u, inetNtoa a b c d, toStr port]]

theorem userListInfo_eq (t : Table) : userListInfo t =
    (list t true).flatMap fun user => listLine user.username user.ip user.privatePort := rfl

theorem registered_iff {u : Str} : Registered u ↔ IsArg u := by
  constructor
  · rintro ⟨s, c, raw, hcmd, rfl, -⟩
    obtain ⟨hargs, hcases⟩ := parseCommand_cases raw
    rcases hcases with hp | hp | ⟨u, hp⟩ | ⟨u, p, hp, -⟩ | ⟨u, n, v, hp, -⟩ | ⟨args, hp⟩
    all_goals rw [hp] at hcmd hargs ⊢
    · cases hcmd
    · cases hcmd
    · exact hargs u (by simp)
    · cases hcmd
    · cases hcmd
    · cases hcmd
  · intro hu
    have hr : IsArg "REGISTER".toList := ⟨by simp, by simp, by simp⟩
    have hp := parseCommand_two hr hu
    rw [cmdType_two, if_pos rfl] at hp
    refine ⟨Server.init Keyed.empty, ⟨0, [], 0, []⟩, _, congrArg Prod.fst hp, ?_, ?_⟩
    · rw [hp]
      rfl
    · unfold Server.handle
      rw [hp]
      simp only [Server.registerCase, userRegister_run, arg, List.getD_cons_succ,
        List.getD_cons_zero]
      rfl

theorem mem_inetNtoa {a b c d : UInt8} {x : Char} (h : x ∈ inetNtoa a b c d) :
    x = '.' ∨ x = '-' ∨ x.isDigit = true := by
  simp only [inetNtoa, List.mem_append] at h
  have hdot : x ∈ ".".toList → x = '.' := by simp
  rcases h with (((((h | h) | h) | h) | h) | h) | h
  · exact .inr (mem_toStr h)
  · exact .inl (hdot h)
  · exact .inr (mem_toStr h)
  · exact .inl (hdot h)
  · exact .inr (mem_toStr h)
  · exact .inl (hdot h)
  · exact .inr (mem_toStr h)

theorem isToken_inetNtoa {sep : Str} (a b c d : UInt8)
    (h : ∀ x ∈ sep, x ≠ '.' ∧ x ≠ '-' ∧ x.isDigit = false) : IsToken sep (inetNtoa a b c d) := by
  refine ⟨fun he => ?_, fun x hx hs => ?_, fun h0 => ?_⟩
  · simp [inetNtoa] at he
  · obtain ⟨h1, h2, h3⟩ := h x hs
    rcases mem_inetNtoa hx with hx | hx | hx
    · exact h1 hx
    · exact h2 hx
    · rw [h3] at hx
      cases hx
  · rcases mem_inetNtoa h0 with h0 | h0 | h0
    all_goals exact absurd h0 (by decide)

/-- The line of a name without newlines. -/
theorem splitLines_listLine {u : Str} (hu : IsArg u) (hn : '\n' ∉ u) (a b c d : UInt8)
    (port : Int) :
    splitLines (listLine u (inetNtoa a b c d) port) = [[u, inetNtoa a b c d, toStr port]] := by
  have hsep : ∀ x ∈ "\n".toList, x ≠ '.' ∧ x ≠ '-' ∧ x.isDigit = false := by
    intro x hx
    obtain rfl : x = '\n' := by simpa using hx
    decide
  have hash : IsToken "\n".toList "#".toList := ⟨by simp, by simp, by simp⟩
  have hname : IsToken "\n".toList u :=
    ⟨hu.ne, fun x hx he => hn ((by simpa using he : x = '\n') ▸ hx), hu.nul⟩
  have hport : IsToken "\n".toList (toStr port) := isToken_toStr port fun x hx => (hsep x hx).2
  have hline := (((hname.append hash).append (isToken_inetNtoa a b c d hsep)).append hash).append
    hport
  have hip : IsArg (inetNtoa a b c d) := by
    refine isToken_inetNtoa a b c d fun x hx => ?_
    obtain rfl : x = '#' := by simpa using hx
    decide
  have hsplit := hline.split_first [] (c := '\n') (by simp) (by decide)
  unfold splitLines listLine
  rw [show split (_ ++ "\n".toList) _ = _ from hsplit]
  simp only [List.map_cons, split_three hu hip (isArg_toStr port)]
  rfl

/-- The name of a line that is understood has no newline. -/
theorem newline_notMem {u line : Str} {info : List Str} (h : info ∈ splitLines line)
    (hu : u ∈ info) : '\n' ∉ u := by
  obtain ⟨tok, htok, rfl⟩ := List.mem_map.1 h
  intro hn
  exact (isToken_of_mem_split htok).notSep _ (mem_of_mem_split hu hn) (by simp)

/-- **A registered name is usable** exactly if it is not `REGISTER` and has no newline. -/
theorem usable_iff {u : Str} (h : Registered u) :
    Usable u ↔ u ≠ "REGISTER".toList ∧ '\n' ∉ u := by
  have hu := registered_iff.1 h
  constructor
  · intro hus
    refine ⟨fun he => ?_, ?_⟩
    · have hl := hus.login 0 (by omega)
      rw [parseCommand_two hu (isArg_toStr _), cmdType_two, if_pos he] at hl
      cases hl
    · have hl := hus.line 0 0 0 0 0
      exact newline_notMem (hl ▸ List.mem_cons_self) List.mem_cons_self
  · intro ⟨hr, hn⟩
    refine ⟨fun port hport => ?_, fun v hv _ amount _ _ => ?_, fun a b c d port =>
      splitLines_listLine hu hn a b c d port⟩
    · have hnum : isNumber (toStr port) false = true := by
        refine isNumber_digits fun x hx => ?_
        rw [toStr_natCast] at hx
        exact Nat.isDigit_of_mem_toDigits (by decide) (by decide) hx
      rw [parseCommand_two hu (isArg_toStr _), cmdType_two, if_neg hr, if_pos hnum]
    · rw [parseCommand_three hu (isArg_toStr _) (registered_iff.1 hv), cmdType_three,
        if_pos (isNumber_toStr amount)]

theorem isArg_alice : IsArg "alice".toList := ⟨by simp, by simp, by simp⟩

theorem usable_iff_alice : Registered "alice".toList ∧ (Usable "alice".toList ↔
    "alice".toList ≠ "REGISTER".toList ∧ '\n' ∉ "alice".toList) :=
  ⟨registered_iff.2 isArg_alice, usable_iff (registered_iff.2 isArg_alice)⟩

/-- The LOGIN of a user `REGISTER` is a REGISTER message. -/
theorem register_not_usable : Registered "REGISTER".toList ∧
    parseCommand "REGISTER#80".toList = (.register, ["REGISTER".toList, "80".toList]) ∧
    ¬ Usable "REGISTER".toList := by
  have hparse : parseCommand "REGISTER#80".toList =
      (.register, ["REGISTER".toList, "80".toList]) := by decide +kernel
  refine ⟨registered_iff.2 ⟨by simp, by simp, by simp⟩, hparse, fun h => ?_⟩
  have hl := h.login 80 (by decide)
  rw [show "REGISTER".toList ++ "#".toList ++ toStr (80 : Nat) = "REGISTER#80".toList by
    decide +kernel, hparse] at hl
  cases hl

end Micropayment
