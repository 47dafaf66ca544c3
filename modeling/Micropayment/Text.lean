import Micropayment.Lib.Fields

/-!
# Messages as text

`std::string` and C strings are lists of characters, one `Char` for each `char`. This module has
the C and C++ library functions the program uses on them (`strtok`, `strspn`, `to_string`, `stoi`,
`stod`) and the program's own `split`, `is_number` and `parse_command`. `split_eq_fields` says what
the `strtok` loop computes, `parseCommand_cases` what `parse_command` can return.
-/

set_option autoImplicit false

namespace Micropayment

abbrev Str := List Char

/-- What `c_str()` users see of a string: everything before the first NUL. -/
def cStr (s : Str) : Str := s.takeWhile (· ≠ '\x00')

theorem cStr_eq {s : Str} (h : '\x00' ∉ s) : cStr s = s := by
  rw [cStr, List.takeWhile_eq_self_iff]
  intro c hc
  simpa using fun he : c = '\x00' => h (he ▸ hc)

theorem nul_notMem_cStr (s : Str) : '\x00' ∉ cStr s := by
  intro h
  simpa using List.mem_takeWhile_imp h

/-- `strcat` in a buffer of `dest.length` bytes: the source goes to the first NUL. `none` is a write
past the end. -/
def strcat (dest src : Str) : Option Str :=
  let s := cStr dest ++ cStr src
  if s.length < dest.length then some (s ++ '\x00' :: dest.drop (s.length + 1)) else none

def strcpy (dest src : Str) : Option Str :=
  let s := cStr src
  if s.length < dest.length then some (s ++ '\x00' :: dest.drop (s.length + 1)) else none

theorem cStr_append_nul {s : Str} (h : '\x00' ∉ s) (rest : Str) :
    cStr (s ++ '\x00' :: rest) = s := by
  unfold cStr
  have hs : ∀ c ∈ s, decide (c ≠ '\x00') = true := by
    intro c hc
    simpa using fun he : c = '\x00' => h (he ▸ hc)
  rw [List.takeWhile_append_of_pos hs, List.takeWhile_cons_of_neg (by simp), List.append_nil]

/-! ## Tokens -/

/-- One `strtok` call on the saved position: the token (`none` for `NULL`) and the new saved
position. -/
def strtok (sep saved : Str) : Option Str × Str :=
  match saved.dropWhile (· ∈ sep) with
  | [] => (none, [])
  | c :: rest => (some (c :: rest.takeWhile (· ∉ sep)), (rest.dropWhile (· ∉ sep)).drop 1)

/-- The `while (current != NULL)` loop of `split`; every turn consumes the text, so the length
bounds the turns. -/
def splitLoop (sep : Str) : Nat → Option Str × Str → List Str
  | n + 1, (some current, saved) => current :: splitLoop sep n (strtok sep saved)
  | _, _ => []

def split (str sep : Str) : List Str := splitLoop sep (str.length + 1) (strtok sep (cStr str))

theorem strtok_spec (sep saved : Str) :
    (fields (· ∈ sep) saved = [] ∧ strtok sep saved = (none, [])) ∨
    ∃ tok rest, strtok sep saved = (some tok, rest) ∧ rest.length < saved.length ∧
      fields (· ∈ sep) saved = tok :: fields (· ∈ sep) rest := by
  rw [← fields_dropWhile saved]
  have hlen := (List.dropWhile_sublist (fun c => decide (c ∈ sep)) (l := saved)).length_le
  unfold strtok
  cases h : saved.dropWhile (· ∈ sep) with
  | nil => exact .inl ⟨rfl, rfl⟩
  | cons c rest =>
    right
    rw [h] at hlen
    have hc : c ∉ sep := by simpa using head_dropWhile_eq h
    have htok : IsPiece (· ∈ sep) (c :: rest.takeWhile (· ∉ sep)) := by
      refine ⟨by simp, fun a ha => ?_⟩
      rcases List.mem_cons.1 ha with rfl | ha
      · simpa using hc
      · simpa using List.mem_takeWhile_imp ha
    refine ⟨_, _, rfl, ?_, ?_⟩
    · have := (List.dropWhile_sublist (fun c => decide (c ∉ sep)) (l := rest)).length_le
      simp only [List.length_cons, List.length_drop] at *
      omega
    · have hsplit : c :: rest = (c :: rest.takeWhile (· ∉ sep)) ++ rest.dropWhile (· ∉ sep) := by
        simp [List.takeWhile_append_dropWhile]
      cases hd : rest.dropWhile (· ∉ sep) with
      | nil =>
        rw [hsplit, hd, List.append_nil, fields_last htok]
        rfl
      | cons d m =>
        have hd' : (decide (d ∈ sep)) = true := by simpa using head_dropWhile_eq hd
        rw [hsplit, hd, fields_first htok m hd']
        rfl

theorem splitLoop_eq (sep : Str) (n : Nat) (saved : Str) (h : saved.length < n) :
    splitLoop sep n (strtok sep saved) = fields (· ∈ sep) saved := by
  induction n generalizing saved with
  | zero => omega
  | succ n ih =>
    rcases strtok_spec sep saved with ⟨hf, hs⟩ | ⟨tok, rest, hs, hlen, hf⟩
    · rw [hs, hf]
      rfl
    · rw [hs, hf, splitLoop, ih rest (by omega)]

/-- **The `strtok` loop** returns the non-empty fields of the C string. -/
theorem split_eq_fields (str sep : Str) : split str sep = fields (· ∈ sep) (cStr str) := by
  apply splitLoop_eq
  have := (List.takeWhile_sublist (fun c => decide (c ≠ '\x00')) (l := str)).length_le
  simp only [cStr]
  omega

/-- A text that `split` returns as one token. -/
structure IsToken (sep s : Str) : Prop where
  ne : s ≠ []
  notSep : ∀ c ∈ s, c ∉ sep
  nul : '\x00' ∉ s

theorem IsToken.isPiece {sep s : Str} (h : IsToken sep s) : IsPiece (· ∈ sep) s :=
  ⟨h.ne, fun c hc => by simpa using h.notSep c hc⟩

theorem isToken_of_mem_split {str sep tok : Str} (h : tok ∈ split str sep) : IsToken sep tok := by
  rw [split_eq_fields] at h
  obtain ⟨⟨hne, hsep⟩, hmem⟩ := mem_fields h
  refine ⟨hne, fun c hc => by simpa using hsep c hc, fun h0 => ?_⟩
  exact nul_notMem_cStr str (hmem _ h0)

theorem IsToken.append {sep s t : Str} (hs : IsToken sep s) (ht : IsToken sep t) :
    IsToken sep (s ++ t) := by
  refine ⟨by simp [hs.ne], fun c hc => ?_, fun h0 => ?_⟩
  · rcases List.mem_append.1 hc with hc | hc
    · exact hs.notSep c hc
    · exact ht.notSep c hc
  · rcases List.mem_append.1 h0 with h0 | h0
    · exact hs.nul h0
    · exact ht.nul h0

theorem mem_of_mem_split {str sep tok : Str} (h : tok ∈ split str sep) {c : Char} (hc : c ∈ tok) :
    c ∈ str := by
  rw [split_eq_fields] at h
  exact (List.takeWhile_sublist _).mem ((mem_fields h).2 c hc)

theorem IsToken.split_last {sep s : Str} (h : IsToken sep s) : split s sep = [s] := by
  rw [split_eq_fields, cStr_eq h.nul, fields_last h.isPiece]

theorem IsToken.split_first {sep s : Str} (h : IsToken sep s) (rest : Str) {c : Char}
    (hc : c ∈ sep) (h0 : c ≠ '\x00') : split (s ++ c :: rest) sep = s :: split rest sep := by
  have hs : cStr (s ++ c :: rest) = s ++ c :: cStr rest := by
    unfold cStr
    have hu : ∀ a ∈ s, decide (a ≠ '\x00') = true := by
      intro a ha
      simpa using fun he : a = '\x00' => h.nul (he ▸ ha)
    rw [List.takeWhile_append_of_pos hu, List.takeWhile_cons_of_pos (by simpa using h0)]
  rw [split_eq_fields, hs, fields_first h.isPiece _ (by simpa using hc), split_eq_fields]

theorem split_cStr (str sep : Str) : split (cStr str) sep = split str sep := by
  rw [split_eq_fields, split_eq_fields, cStr_eq (nul_notMem_cStr str)]

/-- A text with a character that is no separator has tokens. -/
theorem split_ne_nil {s sep : Str} {c : Char} (h0 : '\x00' ∉ s) (hc : c ∈ s) (hs : c ∉ sep) :
    split s sep ≠ [] := by
  rw [split_eq_fields, cStr_eq h0]
  rcases strtok_spec sep s with ⟨-, htok⟩ | ⟨tok, rest, -, -, hf⟩
  · unfold strtok at htok
    split at htok
    · rename_i hdrop
      have := List.dropWhile_eq_nil_iff.1 hdrop c hc
      exact absurd (by simpa using this) hs
    · cases htok
  · rw [hf]
    exact List.cons_ne_nil _ _

/-! ## Numbers -/

def decimalDigits : Str := "0123456789".toList

/-- `strspn`: the length of the longest prefix over `accept`. -/
def strspn (s accept : Str) : Nat := (s.takeWhile (· ∈ accept)).length

def isNumber (s : Str) (doubleFlag : Bool) : Bool :=
  if !doubleFlag then strspn (cStr s) decimalDigits == s.length
  else strspn (cStr s) ("-.".toList ++ decimalDigits) == s.length

/-- `to_string` of an `int`. -/
def toStr (n : Int) : Str :=
  if n < 0 then '-' :: Nat.toDigits 10 n.natAbs else Nat.toDigits 10 n.natAbs

/-- The exceptions of `stoi` and `stod`. -/
inductive NumError where
  | invalidArgument
  | outOfRange
  deriving DecidableEq, Repr

def isSpace (c : Char) : Bool := c ∈ " \t\n\x0b\x0c\r".toList

/-- The sign `strtol` and `strtod` read, and what follows it. -/
def readSign (s : Str) : Bool × Str :=
  match s.dropWhile isSpace with
  | '-' :: r => (true, r)
  | '+' :: r => (false, r)
  | r => (false, r)

def stoi (s : Str) : Except NumError Int :=
  let digits := (readSign s).2.takeWhile Char.isDigit
  let n : Int := Nat.ofDigitChars 10 digits 0
  let v := if (readSign s).1 then -n else n
  if digits = [] then .error .invalidArgument
  else if v < -2 ^ 31 ∨ 2 ^ 31 ≤ v then .error .outOfRange
  else .ok v

/-- The value `strtod` reads, and the unread rest. The exponent, hexadecimal, `inf` and `nan` forms
are left out: no text that passes `is_number` has their letters. -/
def strtod (s : Str) : Option (ℚ × Str) :=
  let body := (readSign s).2
  let whole := body.takeWhile Char.isDigit
  let frac := match body.dropWhile Char.isDigit with
    | '.' :: r => r.takeWhile Char.isDigit
    | _ => []
  let rest := match body.dropWhile Char.isDigit with
    | '.' :: r => r.dropWhile Char.isDigit
    | r => r
  let v : ℚ := Nat.ofDigitChars 10 (whole ++ frac) 0 / 10 ^ frac.length
  if whole = [] ∧ frac = [] then none
  else some (if (readSign s).1 then -v else v, rest)

/-- `stod` throws `out_of_range` where `strtod` sets `ERANGE`: the nearest `double` would be
infinite, or the value is too small for a normal `double` (even when rounded) and no multiple of the
least `double` `2 ^ -1074`. -/
def inDoubleRange (v : ℚ) : Bool :=
  |v| < 2 ^ 1024 - 2 ^ 970 ∧ (2 ^ 54 - 1 ≤ 2 ^ 1076 * |v| ∨ (2 ^ 1074 * v).den = 1)

/-- `stod`. Its result is the exact value of the text: rounding to the nearest `double` is left
out. -/
def stod (s : Str) : Except NumError ℚ :=
  match strtod s with
  | none => .error .invalidArgument
  | some (v, _) => if inDoubleRange v then .ok v else .error .outOfRange

theorem mem_toStr {n : Int} {c : Char} (h : c ∈ toStr n) : c = '-' ∨ c.isDigit = true := by
  unfold toStr at h
  split at h
  · rcases List.mem_cons.1 h with rfl | h
    · exact .inl rfl
    · exact .inr (Nat.isDigit_of_mem_toDigits (by decide) (by decide) h)
  · exact .inr (Nat.isDigit_of_mem_toDigits (by decide) (by decide) h)

theorem toStr_ne_nil (n : Int) : toStr n ≠ [] := by
  unfold toStr
  split
  · exact List.cons_ne_nil _ _
  · exact Nat.toDigits_ne_nil

theorem toStr_natCast (n : Nat) : toStr n = Nat.toDigits 10 n := by
  rw [toStr, if_neg (by omega), Int.natAbs_natCast]

/-- A number is a token between separators that occur in no number. -/
theorem isToken_toStr {sep : Str} (n : Int) (h : ∀ c ∈ sep, c ≠ '-' ∧ c.isDigit = false) :
    IsToken sep (toStr n) := by
  refine ⟨toStr_ne_nil n, fun c hc hs => ?_, fun h0 => ?_⟩
  · obtain ⟨h1, h2⟩ := h c hs
    rcases mem_toStr hc with hc | hc
    · exact h1 hc
    · rw [h2] at hc; cases hc
  · rcases mem_toStr h0 with h0 | h0
    · exact absurd h0 (by decide)
    · exact absurd h0 (by decide)

theorem mem_decimalDigits {c : Char} (h : c.isDigit = true) : c ∈ decimalDigits := by
  rw [Char.isDigit_iff_toNat] at h
  obtain ⟨n, hn⟩ : ∃ n, n = c.toNat := ⟨_, rfl⟩
  rw [← hn] at h
  have hc : c = Char.ofNat n := by rw [hn, Char.ofNat_toNat]
  obtain ⟨h1, h2⟩ := h
  change 48 ≤ n at h1
  change n ≤ 57 at h2
  subst hc
  interval_cases n <;> decide

/-- `strspn` reaches the end exactly when all characters are accepted. -/
theorem strspn_eq_length {s accept : Str} : strspn s accept = s.length ↔ ∀ c ∈ s, c ∈ accept := by
  unfold strspn
  constructor
  · intro h
    have he := (List.takeWhile_sublist (fun c => decide (c ∈ accept)) (l := s)).eq_of_length h
    intro c hc
    rw [← he] at hc
    simpa using List.mem_takeWhile_imp hc
  · intro h
    rw [List.takeWhile_eq_self_iff.2 fun c hc => by simpa using h c hc]

theorem isNumber_digits {s : Str} (h : ∀ c ∈ s, c.isDigit = true) : isNumber s false = true := by
  have h0 : '\x00' ∉ s := fun h0 => absurd (h _ h0) (by decide)
  simp only [isNumber, cStr_eq h0, Bool.not_false, if_true, beq_iff_eq]
  exact strspn_eq_length.2 fun c hc => mem_decimalDigits (h c hc)

theorem isNumber_toStr (n : Int) : isNumber (toStr n) true = true := by
  have htok : IsToken [] (toStr n) := isToken_toStr n (by simp)
  have h0 := htok.nul
  simp only [isNumber, cStr_eq h0, Bool.not_true, Bool.false_eq_true, if_false, beq_iff_eq]
  refine strspn_eq_length.2 fun c hc => ?_
  rcases mem_toStr hc with rfl | hc
  · decide
  · exact List.mem_append_right _ (mem_decimalDigits hc)

theorem takeWhile_isDigit_toDigits (n : Nat) :
    (Nat.toDigits 10 n).takeWhile Char.isDigit = Nat.toDigits 10 n := by
  rw [List.takeWhile_eq_self_iff]
  exact fun c hc => Nat.isDigit_of_mem_toDigits (by decide) (by decide) hc

theorem dropWhile_isDigit_toDigits (n : Nat) :
    (Nat.toDigits 10 n).dropWhile Char.isDigit = [] := by
  rw [List.dropWhile_eq_nil_iff]
  exact fun c hc => Nat.isDigit_of_mem_toDigits (by decide) (by decide) hc

/-- A digit or a point is neither a blank nor a sign. -/
theorem readSign_unsigned {c : Char} (hc : c.isDigit = true ∨ c = '.') (l : Str) :
    readSign (c :: l) = (false, c :: l) := by
  have hother : ∀ x : Char, x.isDigit = false → x ≠ '.' → c ≠ x := by
    rintro x hx hp rfl
    rcases hc with hc | hc
    · rw [hx] at hc
      cases hc
    · exact hp hc
  have hspace : ¬ isSpace c = true := by
    intro h
    simp only [isSpace, decide_eq_true_eq] at h
    fin_cases h <;> exact hother _ (by decide) (by decide) rfl
  have hminus : c ≠ '-' := hother _ (by decide) (by decide)
  have hplus : c ≠ '+' := hother _ (by decide) (by decide)
  rw [readSign, List.dropWhile_cons_of_neg hspace]
  simp [hminus, hplus]

theorem readSign_minus (l : Str) : readSign ('-' :: l) = (true, l) := by
  rw [readSign, List.dropWhile_cons_of_neg (by decide)]
  rfl

theorem readSign_toStr (n : Int) :
    readSign (toStr n) = (decide (n < 0), Nat.toDigits 10 n.natAbs) := by
  unfold toStr
  by_cases hn : n < 0
  · rw [if_pos hn, readSign_minus, decide_eq_true hn]
  · obtain ⟨c, l, hcl⟩ := List.exists_cons_of_ne_nil (Nat.toDigits_ne_nil (n := n.natAbs) (b := 10))
    have hc : c.isDigit = true :=
      Nat.isDigit_of_mem_toDigits (by decide) (by decide) (hcl ▸ List.mem_cons_self)
    rw [if_neg hn, hcl, readSign_unsigned (.inl hc), decide_eq_false hn]

theorem inDoubleRange_intCast {n : Int} (h1 : -2 ^ 31 ≤ n) (h2 : n < 2 ^ 31) :
    inDoubleRange n = true := by
  unfold inDoubleRange
  rw [decide_eq_true_eq]
  have hle : |(n : ℚ)| ≤ 2 ^ 31 := by
    rw [abs_le]
    exact ⟨by exact_mod_cast h1, by exact_mod_cast h2.le⟩
  have hmax : (2 ^ 31 : ℚ) < 2 ^ 1024 - 2 ^ 970 := by decide +kernel
  have hint (k : ℕ) : (2 ^ k : ℚ) * n = ((2 ^ k * n : ℤ) : ℚ) := by push_cast; rfl
  refine ⟨hle.trans_lt hmax, .inr ?_⟩
  rw [hint]
  exact Rat.den_intCast _

/-- `stod` reads back what `to_string` writes. -/
theorem stod_toStr {n : Int} (h1 : -2 ^ 31 ≤ n) (h2 : n < 2 ^ 31) : stod (toStr n) = .ok n := by
  have hv : strtod (toStr n) = some ((n : ℚ), []) := by
    unfold strtod
    simp only [readSign_toStr, takeWhile_isDigit_toDigits, dropWhile_isDigit_toDigits,
      List.append_nil, List.length_nil, pow_zero, div_one, Nat.ofDigitChars_ten_toDigits]
    rw [if_neg fun h => Nat.toDigits_ne_nil h.1]
    by_cases hn : n < 0
    · have hcast : -((n.natAbs : ℤ) : ℚ) = n := by exact_mod_cast (by omega : -(n.natAbs : ℤ) = n)
      simpa [hn] using hcast
    · have hcast : ((n.natAbs : ℤ) : ℚ) = n := by exact_mod_cast (by omega : (n.natAbs : ℤ) = n)
      simpa [hn] using hcast
  unfold stod
  rw [hv]
  exact if_pos (inDoubleRange_intCast h1 h2)

theorem stoi_toStr_eq (n : Int) :
    stoi (toStr n) = if n < -2 ^ 31 ∨ 2 ^ 31 ≤ n then .error .outOfRange else .ok n := by
  have hv : (if n < 0 then -(n.natAbs : Int) else n.natAbs) = n := by
    split
    · omega
    · omega
  unfold stoi
  simp only [readSign_toStr, takeWhile_isDigit_toDigits, Nat.ofDigitChars_ten_toDigits,
    decide_eq_true_eq, hv]
  rw [if_neg Nat.toDigits_ne_nil]

/-- `stoi` reads back what `to_string` writes. -/
theorem stoi_toStr {n : Int} (h1 : -2 ^ 31 ≤ n) (h2 : n < 2 ^ 31) : stoi (toStr n) = .ok n := by
  rw [stoi_toStr_eq, if_neg (by omega)]

/-! ## Commands -/

/-- The command types of `parse_command` (`REGISTER 1` to `EXIT 5`, `ERR -1`). -/
inductive Cmd where
  | register
  | login
  | list
  | transaction
  | exit
  | err
  deriving DecidableEq, Repr

def arg (args : List Str) (i : Nat) : Str := args.getD i []

/-- The `if` chain of `parse_command`. -/
def cmdType (args : List Str) : Cmd :=
  if args.length = 1 ∧ arg args 0 = "Exit".toList then .exit
  else if args.length = 1 ∧ arg args 0 = "List".toList then .list
  else if args.length = 2 ∧ arg args 0 = "REGISTER".toList then .register
  else if args.length = 2 ∧ isNumber (arg args 1) false then .login
  else if args.length = 3 ∧ isNumber (arg args 1) true then .transaction
  else .err

def parseCommand (cmd : Str) : Cmd × List Str :=
  let args := split cmd "#".toList
  (cmdType args, args)

theorem parseCommand_cStr (cmd : Str) : parseCommand (cStr cmd) = parseCommand cmd := by
  rw [parseCommand, split_cStr]
  rfl

/-- A text without separators, as an argument of a message. -/
abbrev IsArg (s : Str) : Prop := IsToken "#".toList s

theorem isArg_toStr (n : Int) : IsArg (toStr n) := by
  refine isToken_toStr n fun c hc => ?_
  obtain rfl : c = '#' := by simpa using hc
  exact ⟨by decide, by decide⟩

section
variable {u p v : Str}

theorem split_two (hu : IsArg u) (hp : IsArg p) :
    split (u ++ "#".toList ++ p) "#".toList = [u, p] := by
  have h : u ++ "#".toList ++ p = u ++ '#' :: p := List.append_assoc u ['#'] p
  rw [h, hu.split_first p (by decide) (by decide), hp.split_last]

theorem split_three (hu : IsArg u) (hp : IsArg p) (hv : IsArg v) :
    split (u ++ "#".toList ++ p ++ "#".toList ++ v) "#".toList = [u, p, v] := by
  have h : u ++ "#".toList ++ p ++ "#".toList ++ v = u ++ '#' :: (p ++ "#".toList ++ v) := by
    rw [List.append_assoc, List.append_assoc, List.append_assoc, List.append_assoc]
    rfl
  rw [h, hu.split_first _ (by decide) (by decide), split_two hp hv]

theorem cmdType_one (a : Str) : cmdType [a] =
    if a = "Exit".toList then .exit else if a = "List".toList then .list else .err := by
  simp only [cmdType, arg, List.length_cons, List.length_nil, List.getD_cons_zero, zero_add,
    true_and, (by decide : ¬ 1 = 2), (by decide : ¬ 1 = 3), false_and, if_false]

theorem cmdType_two (u p : Str) : cmdType [u, p] =
    if u = "REGISTER".toList then .register else if isNumber p false then .login else .err := by
  simp only [cmdType, arg, List.length_cons, List.length_nil, List.getD_cons_zero,
    List.getD_cons_succ, zero_add, Nat.reduceAdd, true_and, (by decide : ¬ 2 = 1),
    (by decide : ¬ 2 = 3), false_and, if_false]

theorem cmdType_three (u n v : Str) : cmdType [u, n, v] =
    if isNumber n true then .transaction else .err := by
  simp only [cmdType, arg, List.length_cons, List.length_nil, List.getD_cons_zero,
    List.getD_cons_succ, zero_add, Nat.reduceAdd, true_and, (by decide : ¬ 3 = 1),
    (by decide : ¬ 3 = 2), false_and, if_false]

theorem parseCommand_two (hu : IsArg u) (hp : IsArg p) :
    parseCommand (u ++ "#".toList ++ p) = (cmdType [u, p], [u, p]) := by
  rw [parseCommand, split_two hu hp]

theorem parseCommand_three (hu : IsArg u) (hp : IsArg p) (hv : IsArg v) :
    parseCommand (u ++ "#".toList ++ p ++ "#".toList ++ v) = (cmdType [u, p, v], [u, p, v]) := by
  rw [parseCommand, split_three hu hp hv]

/-- **What `parse_command` can return**: a command with as many arguments as it needs. -/
theorem parseCommand_cases (cmd : Str) :
    (∀ a ∈ (parseCommand cmd).2, IsArg a) ∧
    (parseCommand cmd = (.exit, ["Exit".toList]) ∨
      parseCommand cmd = (.list, ["List".toList]) ∨
      (∃ u, parseCommand cmd = (.register, ["REGISTER".toList, u])) ∨
      (∃ u p, parseCommand cmd = (.login, [u, p]) ∧ isNumber p false = true) ∨
      (∃ u n v, parseCommand cmd = (.transaction, [u, n, v]) ∧ isNumber n true = true) ∨
      ∃ args, parseCommand cmd = (.err, args)) := by
  refine ⟨fun a ha => isToken_of_mem_split ha, ?_⟩
  simp only [parseCommand]
  rcases split cmd "#".toList with _ | ⟨a, _ | ⟨b, _ | ⟨c, _ | ⟨d, l⟩⟩⟩⟩
  · exact .inr (.inr (.inr (.inr (.inr ⟨_, rfl⟩))))
  · rw [cmdType_one]
    by_cases hx : a = "Exit".toList
    · exact .inl (by rw [if_pos hx, hx])
    rw [if_neg hx]
    by_cases hl : a = "List".toList
    · exact .inr (.inl (by rw [if_pos hl, hl]))
    · exact .inr (.inr (.inr (.inr (.inr ⟨_, by rw [if_neg hl]⟩))))
  · rw [cmdType_two]
    by_cases hr : a = "REGISTER".toList
    · exact .inr (.inr (.inl ⟨b, by rw [if_pos hr, hr]⟩))
    rw [if_neg hr]
    by_cases hb : isNumber b false = true
    · exact .inr (.inr (.inr (.inl ⟨a, b, by rw [if_pos hb], hb⟩)))
    · exact .inr (.inr (.inr (.inr (.inr ⟨_, by rw [if_neg hb]⟩))))
  · rw [cmdType_three]
    by_cases hb : isNumber b true = true
    · exact .inr (.inr (.inr (.inr (.inl ⟨a, b, c, by rw [if_pos hb], hb⟩))))
    · exact .inr (.inr (.inr (.inr (.inr ⟨_, by rw [if_neg hb]⟩))))
  · have herr : cmdType (a :: b :: c :: d :: l) = .err := by
      simp only [cmdType, List.length_cons]
      rw [if_neg (by omega), if_neg (by omega), if_neg (by omega), if_neg (by omega),
        if_neg (by omega)]
    exact .inr (.inr (.inr (.inr (.inr ⟨_, by rw [herr]⟩))))

theorem parseCommand_login {cmd : Str} (h : (parseCommand cmd).1 = .login) :
    ∃ u p, parseCommand cmd = (.login, [u, p]) ∧ IsArg p ∧ isNumber p false = true := by
  obtain ⟨hargs, hcases⟩ := parseCommand_cases cmd
  rcases hcases with hp | hp | ⟨u, hp⟩ | ⟨u, p, hp, hnum⟩ | ⟨u, n, v, hp, -⟩ | ⟨args, hp⟩
  case inr.inr.inr.inl =>
    rw [hp] at hargs
    exact ⟨u, p, hp, hargs p (by simp), hnum⟩
  all_goals
    rw [hp] at h
    cases h

theorem parseCommand_transaction {cmd : Str} (h : (parseCommand cmd).1 = .transaction) :
    ∃ snd n rcv, parseCommand cmd = (.transaction, [snd, n, rcv]) ∧ IsArg n ∧
      isNumber n true = true := by
  obtain ⟨hargs, hcases⟩ := parseCommand_cases cmd
  rcases hcases with hp | hp | ⟨u, hp⟩ | ⟨u, p, hp, -⟩ | ⟨u, n, v, hp, hnum⟩ | ⟨args, hp⟩
  case inr.inr.inr.inr.inl =>
    rw [hp] at hargs
    exact ⟨u, n, v, hp, hargs n (by simp), hnum⟩
  all_goals
    rw [hp] at h
    cases h

end

end Micropayment
