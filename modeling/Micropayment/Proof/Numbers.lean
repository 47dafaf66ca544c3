import Micropayment.Proof.Session

/-!
# The numbers that `parse_command` accepts

`is_number` looks at the characters of a token only, `stoi` and `stod` have their own grammar and
range. They agree exactly on the port numbers up to `INT_MAX` and on the decimal numerals
(`Decimal`) within the range of a `double` (`converts_iff`), up to the rounding of such a numeral to
the nearest `double`. Anything else that is accepted (`-`, `1-2`, `1.2.3`, a long run of digits) is
converted in part or ends the connection's call.
-/

set_option autoImplicit false

namespace Micropayment

/-! ## Decimal numerals -/

/-- A minus sign or none, then digits with at most one point among them. -/
structure Decimal where
  neg : Bool
  whole : Str
  frac : Option Str
  digits : ∀ c ∈ whole ++ frac.getD [], c.isDigit = true
  ne : whole ++ frac.getD [] ≠ []

namespace Decimal

def point (d : Decimal) : Str :=
  match d.frac with
  | some f => '.' :: f
  | none => []

def text (d : Decimal) : Str := (if d.neg then "-".toList else []) ++ (d.whole ++ d.point)

def value (d : Decimal) : ℚ :=
  let v : ℚ := Nat.ofDigitChars 10 d.whole 0 +
    Nat.ofDigitChars 10 (d.frac.getD []) 0 / 10 ^ (d.frac.getD []).length
  if d.neg then -v else v

variable (d : Decimal)

theorem whole_digits : ∀ c ∈ d.whole, c.isDigit = true :=
  fun c hc => d.digits c (List.mem_append_left _ hc)

theorem frac_digits : ∀ c ∈ d.frac.getD [], c.isDigit = true :=
  fun c hc => d.digits c (List.mem_append_right _ hc)

/-- The digits before the point end at the point. -/
theorem takeWhile_body : (d.whole ++ d.point).takeWhile Char.isDigit = d.whole := by
  rw [List.takeWhile_append_of_pos d.whole_digits, point]
  split
  · rw [List.takeWhile_cons_of_neg (by decide), List.append_nil]
  · rw [List.takeWhile_nil, List.append_nil]

theorem dropWhile_body : (d.whole ++ d.point).dropWhile Char.isDigit = d.point := by
  rw [List.dropWhile_append_of_pos d.whole_digits, point]
  split
  · rw [List.dropWhile_cons_of_neg (by decide)]
  · rfl

theorem point_head {c : Char} {l : Str} (h : d.point = c :: l) : c = '.' := by
  unfold point at h
  split at h
  · exact (List.cons.inj h).1.symm
  · cases h

theorem body_head : ∃ c l, d.whole ++ d.point = c :: l ∧ (c.isDigit = true ∨ c = '.') := by
  cases hw : d.whole with
  | cons c l =>
    have hc := d.whole_digits c (hw ▸ List.mem_cons_self)
    exact ⟨c, l ++ d.point, rfl, .inl hc⟩
  | nil =>
    cases hp : d.point with
    | cons c l => exact ⟨c, l, rfl, .inr (d.point_head hp)⟩
    | nil =>
      have hf : d.frac = none := by
        unfold point at hp
        split at hp
        · cases hp
        · assumption
      exact absurd (by rw [hw, hf]; rfl) d.ne

theorem readSign_text : readSign d.text = (d.neg, d.whole ++ d.point) := by
  unfold text
  cases d.neg with
  | true => exact readSign_minus _
  | false =>
    obtain ⟨c, l, hbody, hc⟩ := d.body_head
    rw [hbody]
    exact readSign_unsigned hc l

/-- The value of all digits, shifted by the number of those after the point. -/
theorem value_eq (f : Str) (hf : d.frac.getD [] = f) :
    d.value = if d.neg then -((Nat.ofDigitChars 10 (d.whole ++ f) 0 : ℚ) / 10 ^ f.length)
      else (Nat.ofDigitChars 10 (d.whole ++ f) 0 : ℚ) / 10 ^ f.length := by
  have hv : (Nat.ofDigitChars 10 (d.whole ++ f) 0 : ℚ) / 10 ^ f.length =
      Nat.ofDigitChars 10 d.whole 0 + Nat.ofDigitChars 10 f 0 / 10 ^ f.length := by
    rw [Nat.ofDigitChars_append, Nat.ofDigitChars_eq_ofDigitChars_zero]
    push_cast
    field_simp
  rw [value, hf, hv]

/-- `strtod` reads a numeral to its end. -/
theorem strtod_text : strtod d.text = some (d.value, []) := by
  have hne := d.ne
  unfold strtod
  simp only [d.readSign_text, d.takeWhile_body, d.dropWhile_body]
  cases hf : d.frac with
  | none =>
    have hpoint : d.point = [] := by rw [point, hf]
    rw [hf, Option.getD_none, List.append_nil] at hne
    simp only [hpoint, d.value_eq [] (by rw [hf]; rfl)]
    rw [if_neg fun h => hne h.1]
  | some f =>
    have hpoint : d.point = '.' :: f := by rw [point, hf]
    have hdigits : ∀ c ∈ f, c.isDigit = true := by
      have := d.frac_digits
      rwa [hf] at this
    rw [hf, Option.getD_some] at hne
    simp only [hpoint, List.takeWhile_eq_self_iff.2 hdigits, List.dropWhile_eq_nil_iff.2 hdigits,
      d.value_eq f (by rw [hf]; rfl)]
    rw [if_neg fun h => hne (by rw [h.1, h.2]; rfl)]

end Decimal

/-! ## Tokens -/

section
variable {tok : Str}

/-- The characters that `is_number` lets through. -/
theorem mem_of_isNumber {flag : Bool} (h0 : '\x00' ∉ tok) (h : isNumber tok flag = true) :
    ∀ c ∈ tok, c.isDigit = true ∨ flag = true ∧ (c = '-' ∨ c = '.') := by
  have hdigit : ∀ c ∈ decimalDigits, c.isDigit = true := List.all_eq_true.1 rfl
  rw [isNumber, cStr_eq h0] at h
  intro c hc
  cases flag with
  | false =>
    simp only [Bool.not_false, if_true, beq_iff_eq] at h
    exact .inl (hdigit c (strspn_eq_length.1 h c hc))
  | true =>
    simp only [Bool.not_true, Bool.false_eq_true, if_false, beq_iff_eq] at h
    rcases List.mem_append.1 (strspn_eq_length.1 h c hc) with hc | hc
    · exact .inr ⟨rfl, by simpa using hc⟩
    · exact .inl (hdigit c hc)

/-- On the characters of `is_number`, the sign is a first minus. -/
theorem readSign_cases (h0 : '\x00' ∉ tok) (h : isNumber tok true = true) :
    ∃ neg body, readSign tok = (neg, body) ∧ tok = (if neg then "-".toList else []) ++ body := by
  cases tok with
  | nil => exact ⟨false, [], rfl, rfl⟩
  | cons c l =>
    rcases mem_of_isNumber h0 h c List.mem_cons_self with hc | ⟨-, rfl | rfl⟩
    · exact ⟨false, c :: l, readSign_unsigned (.inl hc) l, rfl⟩
    · exact ⟨true, l, readSign_minus l, rfl⟩
    · exact ⟨false, '.' :: l, readSign_unsigned (.inr rfl) l, rfl⟩

/-- What `strtod` reads to the end is a numeral. -/
theorem exists_decimal (h0 : '\x00' ∉ tok) (h : isNumber tok true = true) {v : ℚ}
    (hv : strtod tok = some (v, [])) : ∃ d : Decimal, d.text = tok := by
  obtain ⟨neg, body, hsign, htok⟩ := readSign_cases h0 h
  have hwhole : ∀ c ∈ body.takeWhile Char.isDigit, c.isDigit = true :=
    fun c hc => List.mem_takeWhile_imp hc
  have hbody := List.takeWhile_append_dropWhile (p := Char.isDigit) (l := body)
  unfold strtod at hv
  simp only [hsign] at hv
  cases hrest : body.dropWhile Char.isDigit with
  | nil =>
    rw [hrest, List.append_nil] at hbody
    simp only [hrest, and_true] at hv
    have hne : body ≠ [] := by
      intro he
      rw [he] at hv
      cases hv
    refine ⟨⟨neg, body, none, by simpa [hbody] using hwhole, by simpa using hne⟩, ?_⟩
    rw [htok]
    simp [Decimal.text, Decimal.point]
  | cons c r =>
    by_cases hc : c = '.'
    · subst hc
      simp only [hrest] at hv
      split at hv
      · cases hv
      · rename_i hne
        rw [Option.some.injEq, Prod.mk.injEq] at hv
        have hfrac := List.dropWhile_eq_nil_iff.1 hv.2
        rw [List.takeWhile_eq_self_iff.2 hfrac] at hne
        refine ⟨⟨neg, body.takeWhile Char.isDigit, some r, fun x hx => ?_, fun he => hne ?_⟩, ?_⟩
        · rcases List.mem_append.1 hx with hx | hx
          · exact hwhole x hx
          · exact hfrac x hx
        · exact List.append_eq_nil_iff.1 he
        · rw [htok]
          conv => rhs; rw [← hbody, hrest]
          rfl
    · -- no digit and no point: the rest starts here
      rw [hrest] at hv
      simp [hc] at hv

end

/-! ## The converters on accepted messages -/

/-- What the handlers rely on: each number converts as a whole, to the value it denotes, and in no
state does the message end the call by an exception. -/
structure Converts (cmd : Str) : Prop where
  port : (parseCommand cmd).1 = .login →
    stoi (arg (parseCommand cmd).2 1) = .ok (Nat.ofDigitChars 10 (arg (parseCommand cmd).2 1) 0)
  amount : (parseCommand cmd).1 = .transaction → ∃ v,
    stod (arg (parseCommand cmd).2 1) = .ok v ∧
    strtod (arg (parseCommand cmd).2 1) = some (v, []) ∧
    ∀ d : Decimal, d.text = arg (parseCommand cmd).2 1 → d.value = v
  caught : ∀ (s : Server) (c : Conn), (s.handle c cmd).outcome ≠ .throws

/-- The port number is an `int`, and the amount a decimal numeral in the range of a `double`. -/
structure Convertible (cmd : Str) : Prop where
  port : (parseCommand cmd).1 = .login →
    Nat.ofDigitChars 10 (arg (parseCommand cmd).2 1) 0 ≤ 2 ^ 31 - 1
  amount : (parseCommand cmd).1 = .transaction →
    ∃ d : Decimal, d.text = arg (parseCommand cmd).2 1 ∧ inDoubleRange d.value = true

theorem stoi_digits {p : Str} (hne : p ≠ []) (h : ∀ c ∈ p, c.isDigit = true) :
    stoi p = if 2 ^ 31 - 1 < Nat.ofDigitChars 10 p 0 then .error .outOfRange
      else .ok (Nat.ofDigitChars 10 p 0) := by
  obtain ⟨c, l, rfl⟩ := List.exists_cons_of_ne_nil hne
  have hsign := readSign_unsigned (.inl (h c List.mem_cons_self)) l
  have htake := List.takeWhile_eq_self_iff.2 h
  unfold stoi
  simp only [hsign, htake, hne, if_false, Bool.false_eq_true]
  congr 1
  rw [eq_iff_iff]
  omega

theorem stod_decimal (d : Decimal) : stod d.text =
    if inDoubleRange d.value = true then .ok d.value else .error .outOfRange := by
  rw [stod, d.strtod_text]

section
variable {cmd u p snd n rcv : Str}

/-- The port of a LOGIN is a run of digits. -/
theorem stoi_port (hp : parseCommand cmd = (.login, [u, p])) :
    stoi p = if 2 ^ 31 - 1 < Nat.ofDigitChars 10 p 0 then .error .outOfRange
      else .ok (Nat.ofDigitChars 10 p 0) := by
  obtain ⟨u', p', hp', harg, hnum⟩ := parseCommand_login (congrArg Prod.fst hp)
  cases hp.symm.trans hp'
  apply stoi_digits harg.ne
  intro c hc
  exact (mem_of_isNumber harg.nul hnum c hc).resolve_right (by simp)

/-- An amount that `stod` reads to its end is a numeral in range. -/
theorem exists_numeral (hp : parseCommand cmd = (.transaction, [snd, n, rcv])) {v : ℚ}
    (hok : stod n = .ok v) (hread : strtod n = some (v, [])) :
    ∃ d : Decimal, d.text = n ∧ inDoubleRange d.value = true := by
  obtain ⟨snd', n', rcv', hp', harg, hnum⟩ := parseCommand_transaction (congrArg Prod.fst hp)
  cases hp.symm.trans hp'
  obtain ⟨d, rfl⟩ := exists_decimal harg.nul hnum hread
  refine ⟨d, rfl, ?_⟩
  rw [stod_decimal] at hok
  split at hok
  · assumption
  · cases hok

/-- A text denotes one number. -/
theorem Decimal.value_unique {d d' : Decimal} (h : d'.text = d.text) : d'.value = d.value := by
  have hread := d'.strtod_text
  rw [h, d.strtod_text, Option.some.injEq, Prod.mk.injEq] at hread
  exact hread.1.symm

theorem Converts.convertible (h : Converts cmd) : Convertible cmd := by
  refine ⟨fun hcmd => ?_, fun hcmd => ?_⟩
  · obtain ⟨u, p, hp, -, -⟩ := parseCommand_login hcmd
    have hport := h.port hcmd
    rw [hp] at hport ⊢
    have hport : stoi p = .ok (Nat.ofDigitChars 10 p 0) := hport
    rw [stoi_port hp] at hport
    split at hport
    · cases hport
    · rename_i hle
      exact not_lt.1 hle
  · obtain ⟨snd, n, rcv, hp, -, -⟩ := parseCommand_transaction hcmd
    obtain ⟨v, hok, hread, -⟩ := h.amount hcmd
    rw [hp] at hok hread ⊢
    exact exists_numeral hp hok hread

theorem Convertible.stoi_eq (h : Convertible cmd) (hp : parseCommand cmd = (.login, [u, p])) :
    stoi p = .ok (Nat.ofDigitChars 10 p 0) := by
  have hle := h.port (congrArg Prod.fst hp)
  rw [hp] at hle
  rw [stoi_port hp]
  exact if_neg (not_lt.2 hle)

theorem Convertible.stod_eq (h : Convertible cmd)
    (hp : parseCommand cmd = (.transaction, [snd, n, rcv])) :
    ∃ d : Decimal, d.text = n ∧ stod n = .ok d.value := by
  obtain ⟨d, hd, hrange⟩ := h.amount (congrArg Prod.fst hp)
  rw [hp] at hd
  have hd : d.text = n := hd
  refine ⟨d, hd, ?_⟩
  rw [← hd, stod_decimal, if_pos hrange]

theorem Convertible.not_throws (h : Convertible cmd) :
    Server.throws (parseCommand cmd) = false := by
  obtain ⟨-, hcases⟩ := parseCommand_cases cmd
  rcases hcases with hp | hp | ⟨u, hp⟩ | ⟨u, p, hp, -⟩ | ⟨u, n, v, hp, -⟩ | ⟨args, hp⟩
  · rw [hp]
    rfl
  · rw [hp]
    rfl
  · rw [hp]
    rfl
  · rw [hp, Server.throws_login, h.stoi_eq hp]
    rfl
  · obtain ⟨d, -, hok⟩ := h.stod_eq hp
    rw [hp, Server.throws_transaction, hok]
    rfl
  · rw [hp]
    rfl

theorem Convertible.converts (h : Convertible cmd) : Converts cmd := by
  refine ⟨fun hcmd => ?_, fun hcmd => ?_, fun s c hthrows => ?_⟩
  · obtain ⟨u, p, hp, -, -⟩ := parseCommand_login hcmd
    rw [hp]
    exact h.stoi_eq hp
  · obtain ⟨snd, n, rcv, hp, -, -⟩ := parseCommand_transaction hcmd
    obtain ⟨d, rfl, hok⟩ := h.stod_eq hp
    rw [hp]
    exact ⟨d.value, hok, d.strtod_text, fun d' hd' => Decimal.value_unique hd'⟩
  · rw [Server.handle_throws_iff, h.not_throws] at hthrows
    cases hthrows

end

/-- **The classifier accepts only numbers the handlers can convert** exactly where the port is an
`int` and the amount a decimal numeral in range. -/
theorem converts_iff (cmd : Str) : Converts cmd ↔ Convertible cmd :=
  ⟨Converts.convertible, Convertible.converts⟩

/-- `stoi` throws `out_of_range` and `stod` throws `invalid_argument` on accepted tokens, and `stod`
stops in the middle of others. -/
theorem accepted_not_converted :
    ¬ Converts "a#99999999999".toList ∧ ¬ Converts "a#-#b".toList ∧ ¬ Converts "a#1-2#b".toList ∧
      ¬ Converts "a#1.2.3#b".toList := by
  refine ⟨fun h => ?_, fun h => ?_, fun h => ?_, fun h => ?_⟩
  · have herr : stoi (arg (parseCommand "a#99999999999".toList).2 1) = .error .outOfRange := by
      decide +kernel
    have hok := h.port (by decide +kernel)
    rw [herr] at hok
    cases hok
  · have herr : stod (arg (parseCommand "a#-#b".toList).2 1) = .error .invalidArgument := by
      decide +kernel
    obtain ⟨v, hok, -⟩ := h.amount (by decide +kernel)
    rw [herr] at hok
    cases hok
  · have hread : strtod (arg (parseCommand "a#1-2#b".toList).2 1) = some (1, "-2".toList) := by
      decide +kernel
    obtain ⟨v, -, hall, -⟩ := h.amount (by decide +kernel)
    rw [hread] at hall
    cases hall
  · have hread : strtod (arg (parseCommand "a#1.2.3#b".toList).2 1) =
        some (12 / 10, ".3".toList) := by
      decide +kernel
    obtain ⟨v, -, hall, -⟩ := h.amount (by decide +kernel)
    rw [hread] at hall
    cases hall

end Micropayment
