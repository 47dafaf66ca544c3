import Micropayment.Proof.Accounts
import Micropayment.Proof.Rows

/-!
# Balances fit an `int`

The code compares the amount with the payer's balance only. What bounds the payee's new balance is
the total of the whole table, which no call raises but by 10000 for a new user
(`balances_bounded`).
-/

set_option autoImplicit false

namespace Micropayment

/-- A registration raises the total by the initial balance, and nothing else raises it. -/
theorem total_exec {t : Table} (h : Funded t) (c : Call) :
    (c.status t = .registerOk →
      (c.prog.run t).2.total Client.balance = t.total Client.balance + 10000) ∧
    (c.status t ≠ .registerOk →
      (c.prog.run t).2.total Client.balance ≤ t.total Client.balance) := by
  obtain ⟨new, hnames, hnew⟩ := c.usernames t
  have hlen := congrArg List.length hnames
  simp only [List.length_append, List.length_map] at hlen
  have hle := (shortfall_exec h (c := c) rfl).1
  simp only [shortfall_eq] at hle
  refine ⟨fun hst => ?_, fun hst => ?_⟩
  · rcases c.outcome t with ⟨hcode, -⟩ | ⟨u, ip, -, hu, -, hrun⟩ |
      ⟨_, _, _, _, _, -, -, -, hst', -⟩ | ⟨_, _, _, -, -, hst', -⟩ |
      ⟨_, _, _, _, _, -, -, hst', -⟩
    · rw [hst] at hcode
      simp [Status.code] at hcode
    · rw [hrun, Keyed.total_replace_new _ hu]
      rfl
    all_goals
      rw [hst] at hst'
      cases hst'
  · rw [if_neg hst] at hnew
    omega

section
variable {t : Table} {snd rcv : Str} {pay : ℚ} {s r : Client}

/-- The two parties' balances are two different rows' entries. -/
theorem Transfers.pair_le_total (h : Transfers t snd rcv pay s r) (hf : Funded t) :
    s.balance + r.balance ≤ t.total Client.balance := by
  -- without the sender's coins the table still has the receiver's
  have hs : t.find? s.username = some s := by
    rw [Keyed.find?_key h.sender]
    exact h.sender
  have hr : r ∈ (t.update { s with balance := 0 }).rows := by
    refine Keyed.mem_update_other (Keyed.find?_mem h.receiver) fun he => h.ne ?_
    rw [← Keyed.find?_key h.sender, ← Keyed.find?_key h.receiver]
    exact he.symm
  have hle := (hf.update (r := { s with balance := 0 }) le_rfl).le_total hr
  have htot := Keyed.total_update Client.balance (r := { s with balance := 0 }) hs
  simp only at htot
  omega

/-- Both values that the call converts to `int` are in range. -/
theorem Transfers.in_range (h : Transfers t snd rcv pay s r) (hf : Funded t)
    (hN : t.total Client.balance ≤ 2 ^ 31 - 1) :
    (0 ≤ (s.balance : ℚ) - pay ∧ (s.balance : ℚ) - pay ≤ 2 ^ 31 - 1) ∧
    (0 ≤ (r.balance : ℚ) + pay ∧ (r.balance : ℚ) + pay ≤ 2 ^ 31 - 1) := by
  have hpair : (s.balance : ℚ) + r.balance ≤ 2 ^ 31 - 1 := by
    exact_mod_cast (h.pair_le_total hf).trans hN
  have hs : (0 : ℚ) ≤ s.balance := by exact_mod_cast hf s (Keyed.find?_mem h.sender)
  have hr : (0 : ℚ) ≤ r.balance := by exact_mod_cast hf r (Keyed.find?_mem h.receiver)
  have hpos := h.pos
  have hfunds := h.funds
  refine ⟨⟨?_, ?_⟩, ?_, ?_⟩ <;> linarith

end

/-- **Balances never go negative and never overflow**, at any point of a sequence of calls that
registers at most 214748 users. -/
theorem balances_bounded {calls : List Call}
    (hN : 10000 * ((tableAfter calls).rows.length : ℤ) ≤ 2 ^ 31 - 1) (A B : List Call)
    (hsplit : calls = A ++ B) :
    (∀ r ∈ (tableAfter A).rows,
      0 ≤ r.balance ∧ r.balance ≤ 10000 * (tableAfter A).rows.length) ∧
    ∀ c B', B = c :: B' →
      (c.status (tableAfter A) = .registerOk → (tableAfter (A ++ [c])).total Client.balance =
        (tableAfter A).total Client.balance + 10000) ∧
      (c.status (tableAfter A) ≠ .registerOk → (tableAfter (A ++ [c])).total Client.balance ≤
        (tableAfter A).total Client.balance) ∧
      ∀ snd rcv pay s r, c = .transaction snd rcv pay →
        Transfers (tableAfter A) snd rcv pay s r →
          (0 ≤ (s.balance : ℚ) - pay ∧ (s.balance : ℚ) - pay ≤ 2 ^ 31 - 1) ∧
          (0 ≤ (r.balance : ℚ) + pay ∧ (r.balance : ℚ) + pay ≤ 2 ^ 31 - 1) := by
  subst hsplit
  obtain ⟨hf, h0⟩ := solvent A
  refine ⟨fun r hr => balance_le_total A hr, fun c B' _ => ?_⟩
  have hrun := tableAfter_append A c
  obtain ⟨hreg, hother⟩ := total_exec hf c
  rw [hrun]
  refine ⟨hreg, hother, fun snd rcv pay s r _ ht => ht.in_range hf ?_⟩
  have hlen := (usernames_kept A B).length_le
  simp only [List.length_map] at hlen
  rw [shortfall_eq] at h0
  omega

/-- Two and a half coins from `a` to `b`. -/
theorem balances_bounded_paid :
    ∃ A c s r, c = Call.transaction ['a'] ['b'] (5 / 2) ∧
      Transfers (tableAfter A) ['a'] ['b'] (5 / 2) s r ∧
      (0 ≤ (r.balance : ℚ) + 5 / 2 ∧ (r.balance : ℚ) + 5 / 2 ≤ 2 ^ 31 - 1) := by
  let A : List Call := [.register ['a'] [], .register ['b'] [], .login ['a'] ['x'] 1 11,
    .login ['b'] ['x'] 2 12]
  have ht : Transfers (tableAfter A) ['a'] ['b'] (5 / 2) ⟨['a'], ['x'], 1, 11, 1, 10000⟩
      ⟨['b'], ['x'], 2, 12, 1, 10000⟩ :=
    ⟨by decide, by norm_num, by decide +kernel, rfl, by decide +kernel, rfl, by norm_num⟩
  have hN : 10000 * ((tableAfter (A ++ [.transaction ['a'] ['b'] (5 / 2)])).rows.length : ℤ) ≤
      2 ^ 31 - 1 := by
    decide +kernel
  exact ⟨A, _, _, _, rfl, ht,
    (((balances_bounded hN A _ rfl).2 _ _ rfl).2.2 _ _ _ _ _ rfl ht).2⟩

end Micropayment
