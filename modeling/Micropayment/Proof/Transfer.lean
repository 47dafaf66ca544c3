import Micropayment.Proof.Ledger

/-!
# One transfer

What `user_transaction` returns and what it leaves, on any table (`userTransaction_spec`), and what
it leaves when one of its four SQL statements throws (`failAt_eq_iff`): nothing makes one unit of
the two `UPDATE`s, so when the second one fails the debit stays without the credit.
-/

set_option autoImplicit false

namespace Micropayment

section
variable {t : Table} {snd rcv : Str} {pay : ℚ} {s r : Client}

/-- Row by row: the two `UPDATE`s change the balances of the two parties and nothing else, although
each writes a whole row from a copy. -/
theorem Transfers.rows_after (h : Transfers t snd rcv pay s r) :
    ((t.update (s.debit pay)).update (r.credit pay)).rows = t.rows.map fun c =>
      if c.username = snd then c.debit pay else if c.username = rcv then c.credit pay else c := by
  have hs := Keyed.rows_update (Keyed.find?_mem h.sender) (fun c => c.debit pay) rfl
  have hr := Keyed.rows_update (Keyed.find?_mem h.find?_rcv) (fun c => c.credit pay) rfl
  rw [hr, hs, List.map_map, Keyed.find?_key h.sender, Keyed.find?_key h.receiver]
  refine List.map_congr_left fun c _ => ?_
  by_cases hc : c.username = snd
  · simp [hc, h.ne]
  · simp [hc]

/-- The debit is no `UPDATE` with the row's old values. -/
theorem Transfers.debit_ne (h : Transfers t snd rcv pay s r) : t.update (s.debit pay) ≠ t := by
  intro he
  have hm : s.debit pay ∈ t.rows := by
    rw [← he]
    exact Keyed.mem_update_self (Keyed.find?_mem h.sender) rfl
  have hb := congrArg Client.balance (Keyed.eq_of_key hm (Keyed.find?_mem h.sender) rfl)
  rw [debit_balance h.funds] at hb
  have := Int.ceil_pos.2 h.pos
  omega

end

/-! ## The status and the frame -/

/-- **The complete specification of a transfer**: the precedence of its failures, and what it
leaves alone. -/
theorem userTransaction_spec (t : Table) (snd rcv : Str) (pay : ℚ) :
    let st := ((userTransaction snd rcv pay).run t).1
    let t' := ((userTransaction snd rcv pay).run t).2
    (st = .transferSelfFail ↔ snd = rcv) ∧
    (st = .transferFail ↔
      snd ≠ rcv ∧ (pay ≤ 0 ∨ ¬ HasSession t snd ∨ ¬ HasSession t rcv)) ∧
    (st = .transferSenderBankrupt ↔
      snd ≠ rcv ∧ ¬ (pay ≤ 0 ∨ ¬ HasSession t snd ∨ ¬ HasSession t rcv) ∧
        ∃ s ∈ t.rows, s.username = snd ∧ (s.balance : ℚ) < pay) ∧
    (st = .transferOk ↔
      snd ≠ rcv ∧ ¬ (pay ≤ 0 ∨ ¬ HasSession t snd ∨ ¬ HasSession t rcv) ∧
        ¬ ∃ s ∈ t.rows, s.username = snd ∧ (s.balance : ℚ) < pay) ∧
    (st ≠ .transferOk → t' = t) ∧
    (st = .transferOk → t'.rows = t.rows.map fun c =>
      if c.username = snd then { c with balance := truncToInt (c.balance - pay) }
      else if c.username = rcv then { c with balance := truncToInt (c.balance + pay) }
      else c) := by
  have hfunds : ∀ {s : Client}, t.find? snd = some s →
      ((∃ s ∈ t.rows, s.username = snd ∧ (s.balance : ℚ) < pay) ↔ (s.balance : ℚ) < pay) := by
    intro s hs
    obtain ⟨hm, hk⟩ := Keyed.find?_eq_some.1 hs
    refine ⟨fun ⟨s', hm', hk', hlt⟩ => ?_, fun hlt => ⟨s, hm, hk, hlt⟩⟩
    rwa [← Keyed.eq_of_key hm' hm (hk'.trans hk.symm)]
  rcases userTransaction_cases t snd rcv pay with ⟨heq, hrun⟩ | ⟨hne, hfail, hrun⟩ |
    ⟨s, hne, hpos, hs, hon, hon', hlt, hrun⟩ | ⟨s, r, h, hrun⟩
  · subst heq
    simp [hrun]
  · simp [hrun, hne, hfail]
  · simp [hrun, hne, not_le.2 hpos, hon, hon', (hfunds hs).2 hlt]
  · obtain ⟨hon, hon'⟩ := h.hasSession
    have hge : ¬ ∃ s ∈ t.rows, s.username = snd ∧ (s.balance : ℚ) < pay :=
      fun hlt => absurd h.funds (not_le.2 ((hfunds h.sender).1 hlt))
    simp only [hrun, h.rows_after]
    simp [h.ne, not_le.2 h.pos, hon, hon', hge, Client.debit, Client.credit]

/-! ## A failing statement -/

/-- The statements of the call: two reads, and two writes if the transfer goes through. -/
theorem failAt_cases {t t' : Table} {snd rcv : Str} {pay : ℚ} {n : ℕ}
    (h : (userTransaction snd rcv pay).failAt n t = some t') :
    (n ≤ 2 ∧ t' = t) ∨
    (n = 3 ∧ ∃ s r, Transfers t snd rcv pay s r ∧ t' = t.update (s.debit pay)) := by
  unfold userTransaction at h
  by_cases h0 : pay ≤ 0 ∨ snd = rcv
  · rw [if_pos h0] at h
    split at h <;> cases h
  rw [if_neg h0] at h
  simp only [not_or, not_le] at h0
  rcases n with _ | _ | n
  · exact .inl ⟨by omega, (Option.some.inj h).symm⟩
  · exact .inl ⟨by omega, (Option.some.inj h).symm⟩
  simp only [Prog.failAt, Keyed.getAll_key] at h
  cases hs : (t.find? snd).filter Client.online with
  | none =>
    rw [hs] at h
    cases h
  | some s =>
    cases hr : (t.find? rcv).filter Client.online with
    | none =>
      rw [hs, hr] at h
      cases h
    | some r =>
      simp only [hs, hr, Option.toList_some] at h
      split at h
      · cases h
      rename_i hf
      obtain ⟨hs, hso⟩ := Option.filter_eq_some_iff.1 hs
      obtain ⟨hr, hro⟩ := Option.filter_eq_some_iff.1 hr
      have ht : Transfers t snd rcv pay s r :=
        ⟨h0.2, h0.1, hs, hso, hr, hro, sub_nonneg.1 (not_lt.1 hf)⟩
      -- the two writes
      rcases n with _ | _ | n
      · exact .inl ⟨le_rfl, (Option.some.inj h).symm⟩
      · exact .inr ⟨rfl, s, r, ht, (Option.some.inj h).symm⟩
      · cases h

/-- **A transfer is all or nothing** except when the storage fails at the receiver's `UPDATE`, the
statement number 3. -/
theorem failAt_eq_iff {t t' : Table} {snd rcv : Str} {pay : ℚ} {n : ℕ}
    (h : (userTransaction snd rcv pay).failAt n t = some t') : t' = t ↔ n ≠ 3 := by
  rcases failAt_cases h with ⟨hn, rfl⟩ | ⟨rfl, s, r, ht, rfl⟩
  · exact ⟨fun _ => by omega, fun _ => rfl⟩
  · exact ⟨fun he => absurd he ht.debit_ne, fun hn => absurd rfl hn⟩

/-- Both users online, each with the initial balance. -/
def bothOnline : Table :=
  tableAfter [.register ['a'] [], .register ['b'] [], .login ['a'] ['x'] 1 11,
    .login ['b'] ['x'] 2 12]

/-- The sender's `UPDATE` fails: nothing has been taken. -/
theorem debit_fails :
    (userTransaction ['a'] ['b'] 300).failAt 2 bothOnline = some bothOnline ∧
    (bothOnline = bothOnline ↔ 2 ≠ 3) := by
  have h : (userTransaction ['a'] ['b'] 300).failAt 2 bothOnline = some bothOnline := by
    decide +kernel
  exact ⟨h, failAt_eq_iff h⟩

/-- The receiver's `UPDATE` fails: 300 coins are gone. -/
theorem credit_fails :
    ∃ t', (userTransaction ['a'] ['b'] 300).failAt 3 bothOnline = some t' ∧ t' ≠ bothOnline ∧
      bothOnline.rows.map Client.balance = [10000, 10000] ∧
      t'.rows.map Client.balance = [9700, 10000] := by
  refine ⟨bothOnline.update ⟨['a'], ['x'], 1, 11, 1, 9700⟩, ?_, ?_, ?_, ?_⟩
  all_goals decide +kernel

end Micropayment
