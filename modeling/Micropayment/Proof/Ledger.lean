import Micropayment.Lib.Tally
import Micropayment.Database

/-!
# Money over sequences of calls

A transfer takes `⌈pay⌉` from the payer and gives `⌊pay⌋` to the payee (`debit_balance`,
`credit_balance`): each side is truncated on its own. So the total balance, compared with
`initialBalance` for each row, never rises, and a call keeps it exactly when it is no transfer of
a fractional amount (`shortfall_exec`). `total_eq_iff` is this over whole runs from the empty
table.
-/

set_option autoImplicit false

namespace Micropayment

/-! ## The two roundings -/

theorem truncToInt_nonneg {q : ℚ} (h : 0 ≤ q) : truncToInt q = ⌊q⌋ := if_pos h

theorem truncToInt_intCast (n : ℤ) : truncToInt n = n := by
  unfold truncToInt
  split <;> simp

/-- The amount is a whole number. -/
def IsWhole (pay : ℚ) : Prop := ∃ n : ℤ, (n : ℚ) = pay

theorem ceil_eq_floor_iff (pay : ℚ) : ⌈pay⌉ = ⌊pay⌋ ↔ IsWhole pay := by
  constructor
  · intro h
    refine ⟨⌊pay⌋, le_antisymm (Int.floor_le pay) ?_⟩
    rw [← h]
    exact Int.le_ceil pay
  · rintro ⟨n, rfl⟩
    simp

/-- No balance is negative. -/
def Funded (t : Table) : Prop := ∀ r ∈ t.rows, 0 ≤ r.balance

theorem debit_balance {s : Client} {pay : ℚ} (h : pay ≤ s.balance) :
    (s.debit pay).balance = s.balance - ⌈pay⌉ := by
  show truncToInt (s.balance - pay) = _
  rw [truncToInt_nonneg (sub_nonneg.2 h), sub_eq_add_neg, Int.floor_intCast_add, Int.floor_neg]
  rfl

theorem credit_balance {r : Client} {pay : ℚ} (hr : 0 ≤ r.balance) (hp : 0 < pay) :
    (r.credit pay).balance = r.balance + ⌊pay⌋ := by
  show truncToInt (r.balance + pay) = _
  have h : (0 : ℚ) ≤ r.balance := by exact_mod_cast hr
  rw [truncToInt_nonneg (by linarith), Int.floor_intCast_add]

theorem debit_whole (s : Client) (n : ℤ) : (s.debit n).balance = s.balance - n := by
  show truncToInt (s.balance - n) = _
  exact_mod_cast truncToInt_intCast (s.balance - n)

theorem credit_whole (r : Client) (n : ℤ) : (r.credit n).balance = r.balance + n := by
  show truncToInt (r.balance + n) = _
  exact_mod_cast truncToInt_intCast (r.balance + n)

/-! ## One call -/

/-- The balance of a user, 0 without a row. -/
def balanceOf (t : Table) (u : Str) : Int := ((t.find? u).map Client.balance).getD 0

theorem balanceOf_some {t : Table} {u : Str} {r : Client} (h : t.find? u = some r) :
    balanceOf t u = r.balance := by
  simp [balanceOf, h]

/-- How much the total falls short of the registered users' initial balances. -/
def shortfall (t : Table) : Int := t.total fun r => initialBalance - r.balance

theorem shortfall_eq (t : Table) :
    shortfall t = 10000 * t.rows.length - t.total Client.balance := by
  unfold shortfall Keyed.total
  induction t.rows with
  | nil => rfl
  | cons r l ih =>
    simp only [List.map_cons, List.sum_cons, List.length_cons] at ih ⊢
    rw [ih, initialBalance]
    push_cast
    ring

section
variable {t : Table} {snd rcv : Str} {pay : ℚ} {s r : Client}

theorem Transfers.total_after {f : Client → ℤ} (h : Transfers t snd rcv pay s r) :
    ((t.update (s.debit pay)).update (r.credit pay)).total f =
      t.total f + (f (s.debit pay) - f s) + (f (r.credit pay) - f r) := by
  have hs : t.find? (s.debit pay).username = some s := by
    rw [Client.debit_username, Keyed.find?_key h.sender]
    exact h.sender
  have hr : (t.update (s.debit pay)).find? (r.credit pay).username = some r := by
    rw [Client.credit_username, Keyed.find?_key h.receiver]
    exact h.find?_rcv
  have h1 := Keyed.total_update f hs
  have h2 := Keyed.total_update f hr
  omega

end

theorem balanceOf_update {t : Table} {w cur : Client} {k : Str} (hk : w.username = k)
    (h : t.find? k = some cur) (u : Str) :
    balanceOf (t.update w) u = if k = u then w.balance else balanceOf t u := by
  subst hk
  unfold balanceOf
  rw [Keyed.find?_update]
  split
  · rename_i hu
    rw [← hu, h]
    rfl
  · rfl

/-- **A whole-number transfer is a move** of the abstract ledger. -/
theorem Transfers.balanceOf_after {t : Table} {snd rcv : Str} {n : ℤ} {s r : Client}
    (h : Transfers t snd rcv n s r) (u : Str) :
    balanceOf ((t.update (s.debit n)).update (r.credit n)) u =
      balanceOf t u + (Move.mk snd rcv n).flow u := by
  unfold balanceOf Move.flow Move.into Move.outOf
  rw [h.find?_after]
  by_cases hr : rcv = u
  · subst hr
    simp [h.receiver, credit_whole, h.ne]
  · by_cases hs : snd = u
    · subst hs
      simp [h.sender, debit_whole, hr]
      omega
    · simp [hr, hs]

/-- Overwriting a row of the table with one that has the same key and entry. -/
theorem total_update_same {t : Table} {r old : Client} {f : Client → ℤ} (hm : old ∈ t.rows)
    (hk : r.username = old.username) (hf : f r = f old) : (t.update r).total f = t.total f := by
  have := Keyed.total_update f (hk ▸ Keyed.find?_of_mem hm)
  omega

/-! ## Balances stay non-negative -/

theorem Funded.update {t : Table} {r : Client} (h : Funded t) (hr : 0 ≤ r.balance) :
    Funded (t.update r) := by
  intro x hx
  rcases Keyed.mem_update hx with rfl | ⟨hx, -⟩
  · exact hr
  · exact h x hx

theorem Funded.exec {t t' : Table} {c : Call} (h : Funded t) (hs : Call.exec t c = some t') :
    Funded t' := by
  have hmem : ∀ {u r}, t.find? u = some r → 0 ≤ r.balance := fun hf => h _ (Keyed.find?_mem hf)
  rcases Call.run_cases hs with ⟨rfl, -⟩ | ⟨u, ip, -, -, rfl⟩ |
    ⟨u, ip, pub, priv, user, -, hu, -, rfl⟩ | ⟨ip, pub, user, -, hu, rfl⟩ |
    ⟨snd, rcv, pay, s, r, -, ht, rfl⟩
  · exact h
  · intro x hx
    rcases Keyed.mem_replace.1 hx with rfl | ⟨hx, -⟩
    · show 0 ≤ initialBalance
      decide
    · exact h x hx
  · exact h.update (h user (Keyed.find?_mem hu))
  · refine h.update (h user ?_)
    exact (Keyed.mem_getAll.1 (hu ▸ List.mem_singleton_self user)).1
  · have hr := hmem ht.receiver
    refine (h.update ?_).update ?_
    · rw [debit_balance ht.funds, sub_nonneg, Int.ceil_le]
      exact ht.funds
    · rw [credit_balance hr ht.pos]
      have := Int.floor_nonneg.2 ht.pos.le
      omega

/-! ## The shortfall -/

/-- The call is no transfer of a fractional amount that the code carries out. -/
def KeepsMoney (t : Table) (c : Call) : Prop :=
  ∀ snd rcv pay s r, c = .transaction snd rcv pay → Transfers t snd rcv pay s r → IsWhole pay

/-- What a call adds to the shortfall: what its transfer rounds away. -/
theorem shortfall_exec {t t' : Table} {c : Call} (h : Funded t) (hs : Call.exec t c = some t') :
    shortfall t ≤ shortfall t' ∧ (shortfall t' = shortfall t ↔ KeepsMoney t c) := by
  have hsame : (∀ snd rcv pay, c ≠ .transaction snd rcv pay) → KeepsMoney t c :=
    fun hne snd rcv pay s r hc => absurd hc (hne snd rcv pay)
  rcases Call.run_cases hs with ⟨rfl, hst⟩ | ⟨u, ip, rfl, hu, rfl⟩ |
    ⟨u, ip, pub, priv, user, rfl, hu, -, rfl⟩ | ⟨ip, pub, user, rfl, hu, rfl⟩ |
    ⟨snd, rcv, pay, s, r, rfl, ht, rfl⟩
  · refine ⟨le_rfl, fun _ => ?_, fun _ => rfl⟩
    rintro snd rcv pay s r rfl ht
    refine absurd ?_ hst
    show ((userTransaction snd rcv pay).run _).1 = _
    rw [ht.run]
  · have he : shortfall (t.replace (newUser u)) = shortfall t := by
      unfold shortfall
      rw [Keyed.total_replace_new _ hu]
      simp [newUser]
    exact ⟨he.ge, fun _ => hsame (by simp), fun _ => he⟩
  · have he : shortfall (t.update (user.login ip pub priv)) = shortfall t :=
      total_update_same (Keyed.find?_mem hu) rfl rfl
    exact ⟨he.ge, fun _ => hsame (by simp), fun _ => he⟩
  · have hm := (Keyed.mem_getAll.1 (hu ▸ List.mem_singleton_self user)).1
    have he : shortfall (t.update user.logout) = shortfall t :=
      total_update_same hm rfl rfl
    exact ⟨he.ge, fun _ => hsame (by simp), fun _ => he⟩
  · have hr : 0 ≤ r.balance := h r (Keyed.find?_mem ht.receiver)
    have he : shortfall ((t.update (s.debit pay)).update (r.credit pay)) =
        shortfall t + (⌈pay⌉ - ⌊pay⌋) := by
      unfold shortfall
      rw [ht.total_after, debit_balance ht.funds, credit_balance hr ht.pos]
      ring
    have hle := Int.floor_le_ceil pay
    refine ⟨by omega, fun hk => ?_, fun hk => ?_⟩
    · rintro snd' rcv' pay' s' r' hc -
      cases hc
      exact (ceil_eq_floor_iff pay).1 (by omega)
    · have := (ceil_eq_floor_iff pay).2 (hk snd rcv pay s r rfl ht)
      omega

/-! ## Sequences of calls from the empty table -/

def tableAfter (calls : List Call) : Table :=
  calls.foldl (fun t c => (c.prog.run t).2) Keyed.empty

theorem run_tableAfter (calls : List Call) :
    Run Call.exec Any Keyed.empty calls (tableAfter calls) := by
  have h : ∀ t : Table, Run Call.exec Any t calls
      (calls.foldl (fun t c => (c.prog.run t).2) t) := by
    induction calls with
    | nil => exact .nil
    | cons c calls ih => exact fun t => .cons trivial rfl (ih _)
  exact h _

/-- A transfer that is carried out takes from the payer what it gives to the payee. -/
def BooksBalance (t : Table) (c : Call) : Prop :=
  ∀ snd rcv pay, c = .transaction snd rcv pay → c.status t = .transferOk →
    balanceOf t snd - balanceOf (c.prog.run t).2 snd =
      balanceOf (c.prog.run t).2 rcv - balanceOf t rcv

theorem KeepsMoney.booksBalance {t : Table} {c : Call} (hf : Funded t) (h : KeepsMoney t c) :
    BooksBalance t c := by
  rintro snd rcv pay rfl hst
  rcases userTransaction_run t snd rcv pay with ⟨s, r, ht, hrun⟩ | ⟨-, st, hne, hrun⟩
  · have hceil := (ceil_eq_floor_iff pay).2 (h snd rcv pay s r rfl ht)
    have hr := hf r (Keyed.find?_mem ht.receiver)
    simp only [Call.prog, hrun]
    rw [balanceOf_some ht.sender, balanceOf_some ht.receiver,
      balanceOf_some ((ht.find?_after snd).trans (by rw [if_neg ht.ne.symm, if_pos rfl])),
      balanceOf_some ((ht.find?_after rcv).trans (if_pos rfl)),
      debit_balance ht.funds, credit_balance hr ht.pos]
    omega
  · simp only [Call.status, Call.prog, hrun] at hst
    exact absurd hst hne

/-- **Money is conserved** by a sequence of calls exactly when none of them carries out a transfer
of a fractional amount. -/
theorem total_eq_iff (calls : List Call) :
    ((tableAfter calls).total Client.balance = 10000 * (tableAfter calls).rows.length ∧
      Run Call.exec BooksBalance Keyed.empty calls (tableAfter calls)) ↔
    Run Call.exec KeepsMoney Keyed.empty calls (tableAfter calls) := by
  have hempty : Funded Keyed.empty := fun r hr => absurd hr List.not_mem_nil
  have hstep : ∀ t c t', Funded t → Call.exec t c = some t' → Funded t' :=
    fun _ _ _ hf hs => hf.exec hs
  have hiff := (Run.const_iff (fun t => -shortfall t) hstep
    (fun t c t' hf hs => neg_le_neg (shortfall_exec hf hs).1)
    (fun t c t' hf hs => neg_inj.trans (shortfall_exec hf hs).2) (run_tableAfter calls) hempty).2
  have h0 : shortfall (Keyed.empty : Table) = 0 := rfl
  have hsum := shortfall_eq (tableAfter calls)
  constructor
  · rintro ⟨htot, -⟩
    exact hiff.1 (by omega)
  · intro h
    have := hiff.2 h
    exact ⟨by omega, h.mono_inv (fun _ _ _ hf _ => hstep _ _ _ hf)
      (fun _ _ _ hf hk _ => hk.booksBalance hf) hempty⟩

section
/-- Half a coin from `a` to `b`. -/
def halfCoin : List Call :=
  [.register ['a'] [], .register ['b'] [], .login ['a'] ['x'] 1 11, .login ['b'] ['x'] 2 12,
    .transaction ['a'] ['b'] (1 / 2)]

/-- The message `a#0.5#b` is a transfer of a half, and after it one coin is gone. -/
theorem halfCoin_lost :
    parseCommand "a#0.5#b".toList = (.transaction, [['a'], "0.5".toList, ['b']]) ∧
    stod "0.5".toList = .ok (1 / 2) ∧
    (tableAfter halfCoin).rows.map Client.balance = [9999, 10000] ∧
    (tableAfter halfCoin).total Client.balance ≠ 10000 * (tableAfter halfCoin).rows.length := by
  decide +kernel

end

end Micropayment
