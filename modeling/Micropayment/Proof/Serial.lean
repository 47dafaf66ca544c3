import Micropayment.Proof.Ledger

/-!
# Concurrent transfers

Threads that run `user_transaction` on one table, statement by statement. `UPDATE` writes the whole
row from the copy the thread read, so a transfer between the `SELECT` and the `UPDATE` of another
one is lost (`lost_update`). `serializable_of_fresh`: if every `UPDATE` finds the balance that its
thread read (`FreshBalance`), the run is serializable, in the order of the debits. The invariant is
`SerialInv`: the serial execution of the transfers debited so far succeeds, and its balances are
the table's plus the credits still to come.
-/

set_option autoImplicit false

namespace Micropayment

/-- A transfer of a whole number of coins. -/
abbrev Transfer := Move Str ℤ

def Transfer.prog (x : Transfer) : Prog Client Status := userTransaction x.src x.dst x.amount

/-- The transfer on the table, if it returns `TRANSFER_OK`. -/
def serialStep {ι : Type} (calls : ι → Transfer) (t : Table) (i : ι) : Option Table :=
  if ((calls i).prog.run t).1 = .transferOk then some ((calls i).prog.run t).2 else none

section
variable {ι : Type}

/-- The final balances are those of the transfers that returned `TRANSFER_OK`, run one after
another in some order, each of them succeeding there. -/
def Serializable (calls : ι → Transfer) (t₀ : Table) (c : Workers ι) : Prop :=
  ∃ order : List ι, order.Nodup ∧
    (∀ i, i ∈ order ↔ (c.thread i).prog = .ret .transferOk) ∧
    ∃ t, runAll (serialStep calls) t₀ order = some t ∧
      ∀ u, balanceOf t u = balanceOf c.table u

/-- If thread `i`'s next statement writes, the row still has the balance `i` read. -/
def FreshBalance (c : Workers ι) (i : ι) : Prop :=
  ∀ w ∈ (c.thread i).prog.nextWrite, ∀ cur ∈ c.table.find? w.username,
    ∀ read ∈ (c.thread i).seen, read.username = w.username → cur.balance = read.balance

instance (c : Workers ι) (i : ι) : Decidable (FreshBalance c i) :=
  inferInstanceAs (Decidable (∀ w ∈ (c.thread i).prog.nextWrite, _))

end

/-! ## One thread -/

/-- What `user_transaction` has checked of its copies when it comes to its `UPDATE`s. -/
structure Checked (x : Transfer) (s r : Client) : Prop where
  ne : x.src ≠ x.dst
  pos : 0 < x.amount
  sender : s.username = x.src
  senderOnline : s.online = true
  receiver : r.username = x.dst
  receiverOnline : r.online = true
  funds : x.amount ≤ s.balance

/-- The first `UPDATE` of a transfer and what is left of it. -/
def Debits (x : Transfer) (seen : List Client) (w : Client) (k : Prog Client Status) : Prop :=
  ∃ s r, Checked x s r ∧ seen = [s, r] ∧ w = s.debit x.amount ∧
    k = .update (r.credit x.amount) (.ret .transferOk)

theorem Transfer.firstWrite (x : Transfer) :
    x.prog.FirstWrite (· ≠ .transferOk) (Debits x) [] := by
  unfold Transfer.prog userTransaction
  split
  · split <;> simp [Prog.FirstWrite]
  rename_i h0
  simp only [not_or, not_le, Int.cast_pos] at h0
  intro sr hsr rr hrr
  rcases sr with _ | ⟨s, _ | ⟨s', sr⟩⟩
  · simp [Prog.FirstWrite]
  · rcases rr with _ | ⟨r, _ | ⟨r', rr⟩⟩
    · simp [Prog.FirstWrite]
    · simp only
      split
      · simp [Prog.FirstWrite]
      · rename_i hf
        have hs := hsr s List.mem_cons_self
        have hr := hrr r List.mem_cons_self
        simp only [Bool.and_eq_true, decide_eq_true_eq] at hs hr
        have hfunds : (x.amount : ℚ) ≤ s.balance := sub_nonneg.1 (not_lt.1 hf)
        exact ⟨s, r, ⟨h0.2, h0.1, hs.1, hs.2, hr.1, hr.2, by exact_mod_cast hfunds⟩, rfl, rfl, rfl⟩
    · simp [Prog.FirstWrite]
  · simp [Prog.FirstWrite]

/-! ## The invariant -/

section
variable {ι : Type} (calls : ι → Transfer) (t₀ : Table)

/-- The credit to `u` that thread `i`, once past its debit, still has to write. -/
def owes (c : Workers ι) (u : Str) (i : ι) : ℤ :=
  if (c.thread i).prog.result?.isSome then 0 else (calls i).into u

/-- Past its debit, a thread has only the credit to write, or nothing. -/
def Credits (x : Transfer) (th : Thread Client Status) : Prop :=
  th.prog = .ret .transferOk ∨
    ∃ r ∈ th.seen, r.username = x.dst ∧
      th.prog = .update (r.credit x.amount) (.ret .transferOk)

/-- `t` has the rows of `t₀`, in everything but the balances. -/
def SameSessions (t : Table) : Prop :=
  ∀ u, (t.find? u).map Client.session = (t₀.find? u).map Client.session

/-- `debited` lists the threads past their debit, in the order of the debits, and `t` is the table
of their serial execution. -/
structure SerialInv (c : Workers ι) (debited : List ι) (t : Table) : Prop where
  nodup : debited.Nodup
  before : ∀ i, i ∉ debited →
    (c.thread i).prog.FirstWrite (· ≠ .transferOk) (Debits (calls i)) (c.thread i).seen
  past : ∀ i ∈ debited, Credits (calls i) (c.thread i)
  pos : ∀ i ∈ debited, 0 < (calls i).amount
  seen : ∀ i, ∀ r ∈ (c.thread i).seen, (t₀.find? r.username).map Client.session = some r.session
  table : SameSessions t₀ c.table
  serial : runAll (serialStep calls) t₀ debited = some t
  sessions : SameSessions t₀ t
  balance : ∀ u, balanceOf t u = balanceOf c.table u + (debited.map (owes calls c u)).sum

variable {calls t₀}

theorem SameSessions.row {t : Table} (h : SameSessions t₀ t) {r : Client}
    (hr : (t₀.find? r.username).map Client.session = some r.session) :
    ∃ cur, t.find? r.username = some cur ∧ cur.session = r.session :=
  Option.map_eq_some_iff.1 ((h r.username).trans hr)

theorem SameSessions.update {t : Table} (h : SameSessions t₀ t) {w cur : Client}
    (hf : t.find? w.username = some cur) (hw : w.session = cur.session) :
    SameSessions t₀ (t.update w) := by
  intro u
  rw [← h u, Keyed.find?_update]
  split
  · rename_i hu
    rw [← hu, hf]
    exact congrArg some hw
  · rfl

theorem SameSessions.transfer {t : Table} (h : SameSessions t₀ t) {snd rcv : Str} {pay : ℚ}
    {s r : Client} (ht : Transfers t snd rcv pay s r) :
    SameSessions t₀ ((t.update (s.debit pay)).update (r.credit pay)) := by
  intro u
  rw [← h u, ht.find?_after]
  split
  · rename_i hu
    rw [← hu, ht.receiver]
    rfl
  · split
    · rename_i hu
      rw [← hu, ht.sender]
      rfl
    · rfl

/-- A thread that only reads does not disturb what the others have written or still owe. -/
theorem sum_owes_congr {c c' : Workers ι} {l : List ι} (u : Str)
    (h : ∀ j ∈ l, (c'.thread j).prog = (c.thread j).prog) :
    (l.map (owes calls c' u)).sum = (l.map (owes calls c u)).sum := by
  rw [List.map_congr_left fun j hj => ?_]
  unfold owes
  rw [h j hj]

namespace SerialInv

variable {c : Workers ι} {debited : List ι} {t : Table} {i : ι}

theorem init : SerialInv calls t₀ (Config.init t₀ fun i => (calls i).prog) [] t₀ where
  nodup := List.nodup_nil
  before i _ := (calls i).firstWrite
  past i hi := absurd hi List.not_mem_nil
  pos i hi := absurd hi List.not_mem_nil
  seen i r hr := absurd hr List.not_mem_nil
  table _ := rfl
  serial := rfl
  sessions _ := rfl
  balance u := by simp [Config.init]

theorem not_debited (h : SerialInv calls t₀ c debited t)
    {p : Client → Bool} {k : List Client → Prog Client Status}
    (hp : (c.thread i).prog = .getAll p k) : i ∉ debited := by
  intro hi
  rcases h.past i hi with hr | ⟨r, -, -, hr⟩
  · rw [hp] at hr; cases hr
  · rw [hp] at hr; cases hr

theorem owed_nonneg (h : SerialInv calls t₀ c debited t) (u : Str) :
    0 ≤ (debited.map (owes calls c u)).sum := by
  refine List.sum_nonneg fun x hx => ?_
  obtain ⟨j, hj, rfl⟩ := List.mem_map.1 hx
  unfold owes
  split
  · exact le_rfl
  · exact Move.into_nonneg (h.pos j hj).le u

/-- At its debit a thread's transfer also succeeds in the serial execution: there the payer has at
least what the table says, since credits may be under way but no debit is. -/
theorem transfers (h : SerialInv calls t₀ c debited t) (hf : FreshBalance c i) {s r : Client}
    (hc : Checked (calls i) s r) (hseen : (c.thread i).seen = [s, r]) {k : Prog Client Status}
    (hp : (c.thread i).prog = .update (s.debit (calls i).amount) k) :
    ∃ ts tr, Transfers t (calls i).src (calls i).dst (calls i).amount ts tr := by
  have hs : s ∈ (c.thread i).seen := by simp [hseen]
  have hr : r ∈ (c.thread i).seen := by simp [hseen]
  obtain ⟨cur, hcur, -⟩ := h.table.row (h.seen i s hs)
  obtain ⟨ts, hts, htss⟩ := h.sessions.row (h.seen i s hs)
  obtain ⟨tr, htr, htrs⟩ := h.sessions.row (h.seen i r hr)
  have hfresh : cur.balance = s.balance := hf _ (Prog.mem_nextWrite (.inl hp)) cur hcur s hs rfl
  have hbal := h.balance s.username
  rw [balanceOf_some hts, balanceOf_some hcur] at hbal
  have howed := h.owed_nonneg s.username
  have hfunds := hc.funds
  rw [hc.sender] at hts
  rw [hc.receiver] at htr
  refine ⟨ts, tr, hc.ne, by exact_mod_cast hc.pos, hts, ?_, htr, ?_, by exact_mod_cast (by omega :
    (calls i).amount ≤ ts.balance)⟩
  · rw [Client.online_of_session htss]
    exact hc.senderOnline
  · rw [Client.online_of_session htrs]
    exact hc.receiverOnline

/-- When all threads have returned, no credit is owed and the debited threads are the successful
ones. -/
theorem serializable (h : SerialInv calls t₀ c debited t) (hd : c.Done) :
    Serializable calls t₀ c := by
  refine ⟨debited, h.nodup, fun i => ⟨fun hi => ?_, fun hret => ?_⟩, t, h.serial, fun u => ?_⟩
  · obtain ⟨a, ha⟩ := hd i
    rcases h.past i hi with hret | ⟨r, -, -, hupd⟩
    · exact hret
    · rw [ha] at hupd; cases hupd
  · apply Classical.byContradiction
    intro hi
    have hb := h.before i hi
    rw [hret] at hb
    exact hb rfl
  · have howed : ∀ x ∈ debited.map (owes calls c u), x = 0 := by
      intro x hx
      obtain ⟨i, -, rfl⟩ := List.mem_map.1 hx
      obtain ⟨a, ha⟩ := hd i
      simp [owes, ha, Prog.result?]
    rw [h.balance u, List.sum_eq_zero howed, add_zero]

/-! ### One statement -/

variable [DecidableEq ι]

theorem read (h : SerialInv calls t₀ c debited t)
    {p : Client → Bool} {k : List Client → Prog Client Status}
    (hp : (c.thread i).prog = .getAll p k) :
    SerialInv calls t₀
      (c.setThread i ⟨k (c.table.getAll p), (c.thread i).seen ++ c.table.getAll p⟩) debited t := by
  have hi := h.not_debited hp
  have hother : ∀ j ∈ debited, j ≠ i := fun j hj he => hi (he ▸ hj)
  refine ⟨h.nodup, fun j hj => ?_, fun j hj => ?_, h.pos, fun j r hr => ?_, h.table, h.serial,
    h.sessions, fun u => ?_⟩
  · by_cases hji : j = i
    · subst hji
      have hb := h.before j hj
      rw [hp] at hb
      rw [Config.setThread_self]
      exact hb _ fun r hr => (Keyed.mem_getAll.1 hr).2
    · rw [Config.setThread_other _ hji]
      exact h.before j hj
  · rw [Config.setThread_other _ (hother j hj)]
    exact h.past j hj
  · rcases Config.mem_seen_setThread hr with hr | hr
    · exact h.seen j r hr
    · rw [← h.table r.username, Keyed.find?_of_mem (Keyed.mem_getAll.1 hr).1]
      rfl
  · rw [h.balance u, sum_owes_congr u fun j hj =>
      congrArg Thread.prog (Config.setThread_other _ (hother j hj))]
    rfl

theorem debit (h : SerialInv calls t₀ c debited t) (hf : FreshBalance c i) (hi : i ∉ debited)
    {w : Client} {k : Prog Client Status} (hp : (c.thread i).prog = .update w k) :
    ∃ t', SerialInv calls t₀ (c.wrote i w (c.table.update w) k) (debited ++ [i]) t' := by
  have hb := h.before i hi
  rw [hp] at hb
  obtain ⟨s, r, hc, hseen, rfl, rfl⟩ := hb
  obtain ⟨ts, tr, ht⟩ := h.transfers hf hc hseen hp
  have hs : s ∈ (c.thread i).seen := by simp [hseen]
  have hr : r ∈ (c.thread i).seen := by simp [hseen]
  obtain ⟨cur, hcur, hcs⟩ := h.table.row (h.seen i s hs)
  have hfresh : cur.balance = s.balance := hf _ (Prog.mem_nextWrite (.inl hp)) cur hcur s hs rfl
  have hother : ∀ j ∈ debited, j ≠ i := fun j hj he => hi (he ▸ hj)
  have hall : ∀ {j}, j ∉ debited ++ [i] → j ∉ debited ∧ j ≠ i := by
    intro j hj
    simpa using hj
  refine ⟨_, ?_, fun j hj => ?_, fun j hj => ?_, fun j hj => ?_, fun j x hx => ?_,
    h.table.update hcur hcs.symm, ?_, h.sessions.transfer ht, fun u => ?_⟩
  · exact h.nodup.append (List.nodup_singleton i) (by simpa using hi)
  · rw [Config.wrote_other _ _ _ (hall hj).2]
    exact h.before j (hall hj).1
  · rcases List.mem_append.1 hj with hj | hj
    · rw [Config.wrote_other _ _ _ (hother j hj)]
      exact h.past j hj
    · obtain rfl := List.mem_singleton.1 hj
      rw [Config.wrote_self]
      exact .inr ⟨r, hr, hc.receiver, rfl⟩
  · rcases List.mem_append.1 hj with hj | hj
    · exact h.pos j hj
    · obtain rfl := List.mem_singleton.1 hj
      exact hc.pos
  · rw [Config.wrote_seen] at hx
    exact h.seen j x hx
  · rw [Run.runAll_append, h.serial]
    simp [runAll, serialStep, Transfer.prog, ht.run]
  · -- the debit moves from the table to the serial one, the credit is still owed
    have hw : balanceOf (c.table.update (s.debit (calls i).amount)) u =
        balanceOf c.table u - (calls i).outOf u := by
      have hk : (s.debit (calls i).amount).username = (calls i).src := hc.sender
      rw [balanceOf_update hk (hc.sender ▸ hcur), Move.outOf]
      split
      · rename_i hu
        rw [debit_whole, ← hu, ← hc.sender, balanceOf_some hcur, hfresh]
      · omega
    rw [ht.balanceOf_after, h.balance u, List.map_append, List.sum_append,
      sum_owes_congr u fun j hj => congrArg Thread.prog (Config.wrote_other _ _ _ (hother j hj)),
      Config.wrote_table, hw]
    simp only [List.map_cons, List.map_nil, List.sum_cons, List.sum_nil, owes, Config.wrote_self,
      Prog.result?, Option.isSome_none, Bool.false_eq_true, if_false]
    show _ + ((calls i).into u - (calls i).outOf u) = _
    omega

theorem credit (h : SerialInv calls t₀ c debited t) (hf : FreshBalance c i) (hi : i ∈ debited)
    {w : Client} {k : Prog Client Status} (hp : (c.thread i).prog = .update w k) :
    SerialInv calls t₀ (c.wrote i w (c.table.update w) k) debited t := by
  rcases h.past i hi with hret | ⟨r, hr, hdst, hupd⟩
  · rw [hp] at hret; cases hret
  rw [hp] at hupd
  obtain ⟨rfl, rfl⟩ := Prog.update.inj hupd
  obtain ⟨cur, hcur, hcs⟩ := h.table.row (h.seen i r hr)
  have hfresh : cur.balance = r.balance := hf _ (Prog.mem_nextWrite (.inl hp)) cur hcur r hr rfl
  have hne : ∀ {j}, j ∉ debited → j ≠ i := fun hj he => hj (he ▸ hi)
  refine ⟨h.nodup, fun j hj => ?_, fun j hj => ?_, h.pos, fun j x hx => ?_,
    h.table.update hcur hcs.symm, h.serial, h.sessions, fun u => ?_⟩
  · rw [Config.wrote_other _ _ _ (hne hj)]
    exact h.before j hj
  · by_cases hji : j = i
    · subst hji
      rw [Config.wrote_self]
      exact .inl rfl
    · rw [Config.wrote_other _ _ _ hji]
      exact h.past j hj
  · rw [Config.wrote_seen] at hx
    exact h.seen j x hx
  · have hw : balanceOf (c.table.update (r.credit (calls i).amount)) u =
        balanceOf c.table u + (calls i).into u := by
      have hk : (r.credit (calls i).amount).username = (calls i).dst := hdst
      rw [balanceOf_update hk (hdst ▸ hcur), Move.into]
      split
      · rename_i hu
        rw [credit_whole, ← hu, ← hdst, balanceOf_some hcur, hfresh]
      · omega
    have hsum := sum_map_change h.nodup hi
      (fun j _ hji => (by
        unfold owes
        rw [Config.wrote_other _ _ _ hji] :
        owes calls (c.wrote i (r.credit (calls i).amount)
          (c.table.update (r.credit (calls i).amount)) (.ret .transferOk)) u j = owes calls c u j))
    rw [h.balance u, Config.wrote_table, hw, hsum]
    simp only [owes, Config.wrote_self, hp, Prog.result?, Option.isSome_none, Option.isSome_some,
      Bool.false_eq_true, if_false, if_true]
    omega

theorem exec (h : SerialInv calls t₀ c debited t) (hf : FreshBalance c i) {c' : Workers ι}
    (hs : c.exec i = some c') : ∃ debited' t', SerialInv calls t₀ c' debited' t' := by
  rcases Config.exec_cases hs with ⟨p, k, hp, rfl⟩ | ⟨w, k, hp, rfl⟩ | ⟨w, k, hp, rfl⟩
  · exact ⟨_, _, h.read hp⟩
  · by_cases hi : i ∈ debited
    · exact ⟨_, _, h.credit hf hi hp⟩
    · obtain ⟨t', h'⟩ := h.debit hf hi hp
      exact ⟨_, _, h'⟩
  · by_cases hi : i ∈ debited
    · rcases h.past i hi with hr | ⟨r, -, -, hr⟩
      · rw [hp] at hr; cases hr
      · rw [hp] at hr; cases hr
    · have hb := h.before i hi
      rw [hp] at hb
      exact hb.elim

end SerialInv

/-! ## Whole runs -/

variable [DecidableEq ι]

/-- **Transfers are serializable** along every interleaving in which each `UPDATE` finds the
balance that its thread read. -/
theorem serializable_of_fresh {sched : List ι} {c : Workers ι}
    (h : Run Config.exec FreshBalance (Config.init t₀ fun i => (calls i).prog) sched c)
    (hd : c.Done) : Serializable calls t₀ c := by
  have hstep : ∀ c i c', (∃ debited t, SerialInv calls t₀ c debited t) → FreshBalance c i →
      c.exec i = some c' → ∃ debited t, SerialInv calls t₀ c' debited t := by
    intro c i c' hinv hf hs
    obtain ⟨debited, t, hi⟩ := hinv
    exact hi.exec hf hs
  obtain ⟨debited, t, hi⟩ := h.inv hstep ⟨[], t₀, .init⟩
  exact hi.serializable hd

end

/-! ## Two transfers from one account -/

section
/-- Two users online with 100 coins each and `a` with 1000. -/
def threeUsers : Table where
  rows := [⟨['a'], ['x'], 1, 11, 1, 1000⟩, ⟨['b'], ['x'], 2, 12, 1, 100⟩,
    ⟨['c'], ['x'], 3, 13, 1, 100⟩]
  nodup := by decide

/-- 100 coins from `a` to `b` and 100 from `a` to `c`. -/
def twoTransfers (i : Bool) : Transfer := ⟨['a'], if i then ['b'] else ['c'], 100⟩

/-- The configuration before the first statement. -/
def twoWorkers : Workers Bool := Config.init threeUsers fun i => (twoTransfers i).prog

/-- The balances in a configuration and what the two workers have returned. -/
def outcome (c : Workers Bool) : List Int × Option Status × Option Status :=
  (c.table.rows.map Client.balance, (c.thread true).prog.result?, (c.thread false).prog.result?)

theorem done_of_outcome {c : Workers Bool} {l : List Int}
    (h : outcome c = (l, some .transferOk, some .transferOk)) :
    ∀ i, (c.thread i).prog = .ret .transferOk := by
  simp only [outcome, Prod.mk.injEq] at h
  obtain ⟨-, ht, hf⟩ := h
  intro i
  cases i with
  | true => exact Prog.of_result? ht
  | false => exact Prog.of_result? hf

/-- The second worker begins when the first has debited `a`, and the first credits `b` only then:
each `UPDATE` is fresh. -/
def interleaved : List Bool := [true, true, true, false, false, true, false, false]

theorem serializable_of_fresh_two :
    ∃ c : Workers Bool, Run Config.exec FreshBalance twoWorkers interleaved c ∧
      Serializable twoTransfers threeUsers c := by
  obtain ⟨c, hc, h⟩ := Run.of_allowed (by decide +kernel : allowed Config.exec FreshBalance
    twoWorkers interleaved = true)
  have hend : (runAll Config.exec twoWorkers interleaved).map outcome =
      some ([800, 200, 200], some .transferOk, some .transferOk) := by decide +kernel
  rw [hc] at hend
  have hret := done_of_outcome (Option.some.inj hend)
  exact ⟨c, h, serializable_of_fresh h fun i => ⟨_, hret i⟩⟩

/-- Both workers read, then both write: `a` has paid twice, but only 100 coins are gone. -/
theorem lost_update :
    ∃ c : Workers Bool, Run Config.exec Any twoWorkers
      [true, true, false, false, true, true, false, false] c ∧ c.Done ∧
      ¬ Serializable twoTransfers threeUsers c := by
  have hend : (runAll Config.exec twoWorkers
      [true, true, false, false, true, true, false, false]).map outcome =
        some ([900, 200, 200], some .transferOk, some .transferOk) := by decide +kernel
  obtain ⟨c, hc, hout⟩ := Option.map_eq_some_iff.1 hend
  have hret := done_of_outcome hout
  refine ⟨c, Run.of_runAll hc, fun i => ⟨_, hret i⟩, ?_⟩
  rintro ⟨order, hnd, hmem, t, hrun, hbal⟩
  -- either order of the two takes 200 from `a`
  have hperm : order ∈ [true, false].permutations' := by
    rw [List.mem_permutations', List.perm_ext_iff_of_nodup hnd (by decide)]
    intro i
    cases i <;> simp [hmem, hret]
  have hserial : ∀ l ∈ [true, false].permutations',
      (runAll (serialStep twoTransfers) threeUsers l).map (balanceOf · ['a']) = some 800 := by
    decide +kernel
  have ha := hserial order hperm
  rw [hrun] at ha
  have hrows : (runAll Config.exec twoWorkers
      [true, true, false, false, true, true, false, false]).map
        (fun c => balanceOf c.table ['a']) = some 900 := by decide +kernel
  rw [hc] at hrows
  have := hbal ['a']
  simp only [Option.map_some, Option.some.injEq] at ha hrows
  omega

end

end Micropayment
