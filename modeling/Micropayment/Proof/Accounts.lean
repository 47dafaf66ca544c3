import Micropayment.Proof.Ledger

/-!
# Balances and the history of transfers

`movesFrom t calls` are the transfers that returned `TRANSFER_OK` when `calls` ran one after
another from `t`. With whole amounts each balance is the initial one plus what came in and minus
what went out (`balance_eq_moves`). The invariant is about `holding`, which counts a user who has
no row yet as one with `initialBalance`, so that a registration changes nothing.
-/

set_option autoImplicit false

namespace Micropayment

/-- The call's amount, if it is a transfer, is a whole number. -/
def Call.Whole : Call → Prop
  | .transaction _ _ pay => IsWhole pay
  | _ => True

/-- The transfer that the call carries out on the table, if any. -/
def Call.moves (t : Table) : Call → List (Move Str ℚ)
  | .transaction snd rcv pay =>
    if (Call.transaction snd rcv pay).status t = .transferOk then [⟨snd, rcv, pay⟩] else []
  | _ => []

def movesFrom : Table → List Call → List (Move Str ℚ)
  | _, [] => []
  | t, c :: calls => c.moves t ++ movesFrom (c.prog.run t).2 calls

/-- What came in for `u`. -/
def received (moves : List (Move Str ℚ)) (u : Str) : ℚ := (moves.map fun m => m.into u).sum

/-- What `u` paid. -/
def paid (moves : List (Move Str ℚ)) (u : Str) : ℚ := (moves.map fun m => m.outOf u).sum

/-- The balance of a user, `initialBalance` without a row. -/
def holding (t : Table) (u : Str) : Int := ((t.find? u).map Client.balance).getD initialBalance

theorem holding_some {t : Table} {u : Str} {r : Client} (h : t.find? u = some r) :
    holding t u = r.balance := by
  simp [holding, h]

/-! ## One call -/

section
variable {t t' : Table} {c : Call}

theorem moves_of_status (h : c.status t ≠ .transferOk) : c.moves t = [] := by
  cases c with
  | register | login | logout => rfl
  | transaction snd rcv pay => exact if_neg h

/-- A row written over one with the same name and balance. -/
theorem holding_update (w : Client) {old : Client} (hm : old ∈ t.rows)
    (hk : w.username = old.username) (hb : w.balance = old.balance) (u : Str) :
    holding (t.update w) u = holding t u := by
  unfold holding
  rw [Keyed.find?_update]
  split
  · rename_i hu
    rw [← hu, hk, Keyed.find?_of_mem hm]
    simp [hb]
  · rfl

theorem holding_register {v : Str} (h : t.find? v = none) (u : Str) :
    holding (t.replace (newUser v)) u = holding t u := by
  unfold holding
  rw [Keyed.find?_replace]
  split
  · rename_i hu
    rw [← hu, show (newUser v).username = v from rfl, h]
    rfl
  · rfl

/-- A whole-number transfer moves its amount. -/
theorem Transfers.holding_after {snd rcv u : Str} {n : ℤ} {s r : Client}
    (h : Transfers t snd rcv n s r) :
    (holding ((t.update (s.debit n)).update (r.credit n)) u : ℚ) =
      holding t u + (Move.mk snd rcv (n : ℚ)).into u - (Move.mk snd rcv (n : ℚ)).outOf u := by
  unfold holding Move.into Move.outOf
  rw [h.find?_after]
  by_cases hr : rcv = u
  · subst hr
    simp [h.receiver, credit_whole, h.ne]
  · by_cases hs : snd = u
    · subst hs
      simp [h.sender, debit_whole, hr]
    · simp [hr, hs]

/-- **One call**: a user's holding changes by the transfer that the call carries out. -/
theorem holding_exec (hw : c.Whole) (hs : Call.exec t c = some t') (u : Str) :
    (holding t' u : ℚ) = holding t u + received (c.moves t) u - paid (c.moves t) u := by
  have hnone : c.moves t = [] → holding t' u = holding t u →
      (holding t' u : ℚ) = holding t u + received (c.moves t) u - paid (c.moves t) u := by
    intro hm he
    rw [hm, he]
    simp [received, paid]
  rcases Call.run_cases hs with ⟨rfl, hst⟩ | ⟨v, ip, rfl, hv, rfl⟩ |
    ⟨v, ip, pub, priv, user, rfl, hv, -, rfl⟩ | ⟨ip, pub, user, rfl, hv, rfl⟩ |
    ⟨snd, rcv, pay, s, r, rfl, ht, rfl⟩
  · exact hnone (moves_of_status hst) rfl
  · exact hnone rfl (holding_register hv u)
  · exact hnone rfl (holding_update (user.login ip pub priv) (Keyed.find?_mem hv) rfl rfl u)
  · have hm := (Keyed.mem_getAll.1 (hv ▸ List.mem_singleton_self user)).1
    exact hnone rfl (holding_update user.logout hm rfl rfl u)
  · obtain ⟨n, rfl⟩ := hw
    have hok : (Call.transaction snd rcv n).moves t = [⟨snd, rcv, n⟩] := by
      refine if_pos ?_
      show ((userTransaction snd rcv n).run t).1 = _
      rw [ht.run]
    rw [ht.holding_after, hok]
    simp [received, paid]

end

/-! ## Sequences of calls -/

theorem holding_foldl {calls : List Call} (hw : ∀ c ∈ calls, c.Whole) (t : Table) (u : Str) :
    (holding (calls.foldl (fun t c => (c.prog.run t).2) t) u : ℚ) =
      holding t u + received (movesFrom t calls) u - paid (movesFrom t calls) u := by
  induction calls generalizing t with
  | nil => simp [movesFrom, received, paid]
  | cons c calls ih =>
    have hstep := holding_exec (hw c List.mem_cons_self) rfl u (t := t)
    have hrest := ih (fun x hx => hw x (List.mem_cons_of_mem c hx)) (c.prog.run t).2
    rw [List.foldl_cons, hrest, hstep]
    simp only [movesFrom, received, paid, List.map_append, List.sum_append]
    ring

theorem Funded.le_total {t : Table} (h : Funded t) {r : Client} (hr : r ∈ t.rows) :
    r.balance ≤ t.total Client.balance := by
  refine List.single_le_sum ?_ _ (List.mem_map_of_mem hr)
  intro b hb
  obtain ⟨x, hx, rfl⟩ := List.mem_map.1 hb
  exact h x hx

/-- No balance is negative, and all of them together are at most what the users were given. -/
theorem solvent (calls : List Call) :
    Funded (tableAfter calls) ∧ 0 ≤ shortfall (tableAfter calls) := by
  have hstep : ∀ t c t', Funded t ∧ 0 ≤ shortfall t → Any t c → Call.exec t c = some t' →
      Funded t' ∧ 0 ≤ shortfall t' := by
    rintro t c t' ⟨hf, h0⟩ - hs
    exact ⟨hf.exec hs, h0.trans (shortfall_exec hf hs).1⟩
  exact (run_tableAfter calls).inv hstep ⟨fun r hr => absurd hr List.not_mem_nil, le_refl 0⟩

/-- No balance exceeds what all users were given. -/
theorem balance_le_total (calls : List Call) {r : Client} (hr : r ∈ (tableAfter calls).rows) :
    0 ≤ r.balance ∧ r.balance ≤ 10000 * (tableAfter calls).rows.length := by
  obtain ⟨hf, h0⟩ := solvent calls
  have hle := hf.le_total hr
  rw [shortfall_eq] at h0
  exact ⟨hf r hr, by omega⟩

/-- **A balance is the initial one plus the transfers received and minus those paid**, after any
calls with whole amounts. It is an `int` as long as there are at most 214748 users. -/
theorem balance_eq_moves {calls : List Call} (hw : ∀ c ∈ calls, c.Whole) {u : Str} {r : Client}
    (hr : (tableAfter calls).find? u = some r) :
    (r.balance : ℚ) = 10000 + received (movesFrom Keyed.empty calls) u -
      paid (movesFrom Keyed.empty calls) u ∧
    ((tableAfter calls).rows.length ≤ 214748 → 0 ≤ r.balance ∧ r.balance < 2 ^ 31) := by
  constructor
  · have h := holding_foldl hw Keyed.empty u
    rw [show calls.foldl (fun t c => (c.prog.run t).2) Keyed.empty = tableAfter calls from rfl,
      holding_some hr] at h
    rw [h]
    rfl
  · intro hn
    obtain ⟨h0, hle⟩ := balance_le_total calls (Keyed.find?_mem hr)
    exact ⟨h0, by omega⟩

/-- `a` pays `b` 300 coins, once with success. -/
theorem balance_eq_moves_paid :
    ∃ calls r, (tableAfter calls).find? ['a'] = some r ∧ r.balance = 9700 ∧
      (r.balance : ℚ) = 10000 + received (movesFrom Keyed.empty calls) ['a'] -
        paid (movesFrom Keyed.empty calls) ['a'] := by
  have hfind : (tableAfter [.register ['a'] [], .register ['b'] [], .login ['a'] ['x'] 1 11,
      .transaction ['a'] ['b'] (300 : ℤ), .login ['b'] ['x'] 2 12,
      .transaction ['a'] ['b'] (300 : ℤ)]).find? ['a'] = some ⟨['a'], ['x'], 1, 11, 1, 9700⟩ := by
    decide +kernel
  refine ⟨_, _, hfind, rfl, (balance_eq_moves (fun c hc => ?_) hfind).1⟩
  fin_cases hc
  · trivial
  · trivial
  · trivial
  · exact ⟨300, rfl⟩
  · trivial
  · exact ⟨300, rfl⟩

end Micropayment
