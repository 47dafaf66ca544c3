import Micropayment.Proof.Ledger

/-!
# Sessions and balances under interleaving

`user_login` and `user_logout` mean to set the session columns of a row, `user_transaction` its
balance, but each `UPDATE` writes the whole row from a copy (`Copies`). `undisturbed_of_fresh`: as
long as every `UPDATE` finds the columns that it does not mean to set as its thread read them
(`FreshOther`), sessions are those of the last login or logout, and balances those of the last
transfer, on every row. `transfer_revives_session` is a run without that.
-/

set_option autoImplicit false

namespace Micropayment

def Call.isTransaction : Call → Bool
  | .transaction _ _ _ => true
  | _ => false

def Call.isRegister : Call → Bool
  | .register _ _ => true
  | _ => false

/-- What the call's writes keep of the row that it has read: a transfer the session columns, a
login or logout the balance. -/
def Call.Keeps (x : Call) (r w : Client) : Prop :=
  if x.isTransaction then w.session = r.session else w.balance = r.balance

instance (x : Call) (r w : Client) : Decidable (x.Keeps r w) :=
  inferInstanceAs
    (Decidable (if x.isTransaction then w.session = r.session else w.balance = r.balance))

section
variable {ι : Type} [DecidableEq ι] (calls : ι → Call) (t₀ : Table)

/-- Each row has the session that the last `UPDATE` of a login or logout on it wrote, and the
balance that the last `UPDATE` of a transfer on it wrote (the initial one if there was none). -/
def Undisturbed (c : Workers ι) : Prop :=
  ∀ u,
    (c.table.find? u).map Client.session =
      ((c.lastWrite (fun i => !(calls i).isTransaction) u).or (t₀.find? u)).map Client.session ∧
    (c.table.find? u).map Client.balance =
      ((c.lastWrite (fun i => (calls i).isTransaction) u).or (t₀.find? u)).map Client.balance

/-- The next statement of thread `i` changes no balance if `i` is in a login or logout, and no
session if it is in a transfer. -/
def NoCross (c : Workers ι) (i : ι) : Prop :=
  ∀ c', c.exec i = some c' → ∀ u r r', c.table.find? u = some r → c'.table.find? u = some r' →
    (calls i).Keeps r r'

/-- If thread `i`'s next statement writes, the columns it does not mean to set are still those that
`i` read. -/
def FreshOther (c : Workers ι) (i : ι) : Prop :=
  ∀ w ∈ (c.thread i).prog.nextWrite, ∀ cur ∈ c.table.find? w.username,
    ∀ read ∈ (c.thread i).seen, read.username = w.username → (calls i).Keeps read cur

instance (c : Workers ι) (i : ι) : Decidable (FreshOther calls c i) :=
  inferInstanceAs (Decidable (∀ w ∈ (c.thread i).prog.nextWrite, _))

end

/-! ## What a call writes -/

/-- Each write of a call is made from a copy of the row that the call has read. -/
def Copies (x : Call) (seen : List Client) (w : Client) : Prop :=
  ∃ read ∈ seen, read.username = w.username ∧ x.Keeps read w

theorem Call.obeys {x : Call} (h : x.isRegister = false) : x.prog.Obeys (Copies x) [] := by
  refine x.obeys_writes.mono fun seen w hw => ?_
  cases hw with
  | register u ip => cases h
  | login u ip pub priv hu => exact ⟨_, hu, rfl, rfl⟩
  | logout ip pub hu => exact ⟨_, hu, rfl, rfl⟩
  | debit snd rcv pay hs => exact ⟨_, hs, rfl, rfl⟩
  | credit snd rcv pay hr => exact ⟨_, hr, rfl, rfl⟩

/-! ## The invariant -/

section
variable {ι : Type} {calls : ι → Call} {t₀ : Table}

variable (calls t₀) in
structure FrameInv (c : Workers ι) : Prop where
  obeyed : c.Obeyed fun i => Copies (calls i)
  seen : ∀ i, ∀ r ∈ (c.thread i).seen, ∃ cur, c.table.find? r.username = some cur
  undisturbed : Undisturbed calls t₀ c

namespace FrameInv

variable {c c' : Workers ι} {i : ι}

theorem init (h : ∀ i, (calls i).isRegister = false) :
    FrameInv calls t₀ (Config.init t₀ fun i => (calls i).prog) where
  obeyed i := Call.obeys (h i)
  seen _ _ hr := absurd hr List.not_mem_nil
  undisturbed _ := ⟨rfl, rfl⟩

/-- The write that is next overwrites an existing row; the columns the call keeps are its own. -/
theorem overwrites (h : FrameInv calls t₀ c) (hf : FreshOther calls c i) {w : Client}
    (hw : w ∈ (c.thread i).prog.nextWrite) :
    ∃ cur, c.table.find? w.username = some cur ∧ (calls i).Keeps cur w := by
  obtain ⟨read, hread, hk, hkeeps⟩ := h.obeyed.write hw
  obtain ⟨cur, hcur⟩ := h.seen i read hread
  rw [hk] at hcur
  have hfresh := hf w hw cur hcur read hread hk
  refine ⟨cur, hcur, ?_⟩
  unfold Call.Keeps at *
  split at hfresh
  · rw [if_pos ‹_›] at hkeeps ⊢
    exact hkeeps.trans hfresh.symm
  · rw [if_neg ‹_›] at hkeeps ⊢
    exact hkeeps.trans hfresh.symm

variable [DecidableEq ι]

/-- After the write, the columns the call sets are the new row's, and the others have not
changed. -/
theorem undisturbed_wrote (h : FrameInv calls t₀ c) {w cur : Client} {t : Table}
    {k : Prog Client Status} (hcur : c.table.find? w.username = some cur)
    (hkeeps : (calls i).Keeps cur w) (ht : t = c.table.update w ∨ t = c.table.replace w) :
    Undisturbed calls t₀ (c.wrote i w t k) := by
  intro u
  obtain ⟨hs, hb⟩ := h.undisturbed u
  rw [Config.lastWrite_wrote, Config.lastWrite_wrote, Config.wrote_table,
    Keyed.find?_written hcur ht]
  unfold Call.Keeps at hkeeps
  by_cases hu : w.username = u
  · rw [hu] at hcur
    rw [hcur] at hs hb
    cases hx : (calls i).isTransaction with
    | true =>
      rw [if_pos hx] at hkeeps
      simpa [hu, hx, hkeeps] using hs
    | false =>
      rw [if_neg (by simp [hx])] at hkeeps
      simpa [hu, hx, hkeeps] using hb
  · simpa [hu] using ⟨hs, hb⟩

theorem exec (h : FrameInv calls t₀ c) (hf : FreshOther calls c i) (hs : c.exec i = some c') :
    FrameInv calls t₀ c' := by
  have hseen : c.SeenStay := fun j r hr => Option.isSome_iff_exists.2 (h.seen j r hr)
  refine ⟨h.obeyed.exec hs, fun j r hr => Option.isSome_iff_exists.1 (hseen.exec hs j r hr), ?_⟩
  rcases Config.exec_read_or_write hs with ⟨p, k, rfl⟩ | ⟨w, t, k, hw, ht, rfl⟩
  · exact h.undisturbed
  · obtain ⟨cur, hcur, hkeeps⟩ := h.overwrites hf hw
    exact h.undisturbed_wrote hcur hkeeps ht

theorem noCross (h : FrameInv calls t₀ c) (hf : FreshOther calls c i) : NoCross calls c i := by
  intro c' hs u r r' hr hr'
  rcases Config.exec_read_or_write hs with ⟨p, k, rfl⟩ | ⟨w, t, k, hw, ht, rfl⟩
  · cases hr.symm.trans hr'
    unfold Call.Keeps
    split <;> rfl
  · obtain ⟨cur, hcur, hkeeps⟩ := h.overwrites hf hw
    rw [Config.wrote_table, Keyed.find?_written hcur ht] at hr'
    split at hr'
    · rename_i hu
      subst hu
      cases hr'
      cases hcur.symm.trans hr
      exact hkeeps
    · cases hr.symm.trans hr'
      unfold Call.Keeps
      split <;> rfl

end FrameInv

variable [DecidableEq ι]

/-- **Sessions and balances do not disturb each other** along every interleaving in which each
`UPDATE` finds the columns that it does not mean to set as its thread read them. -/
theorem undisturbed_of_fresh {sched : List ι} {c : Workers ι}
    (hreg : ∀ i, (calls i).isRegister = false)
    (h : Run Config.exec (FreshOther calls) (Config.init t₀ fun i => (calls i).prog) sched c) :
    Undisturbed calls t₀ c ∧
      Run Config.exec (NoCross calls) (Config.init t₀ fun i => (calls i).prog) sched c := by
  have hinit : FrameInv calls t₀ (Config.init t₀ fun i => (calls i).prog) := .init hreg
  exact ⟨(h.inv (fun _ _ _ hi hf hs => hi.exec hf hs) hinit).undisturbed,
    h.mono_inv (fun _ _ _ hi hf hs => hi.exec hf hs) (fun _ _ _ hi hf _ => hi.noCross hf) hinit⟩

end

/-! ## A transfer that revives a session -/

section
/-- `a` and `b` are online. -/
def twoUsers : Table where
  rows := [⟨['a'], ['x'], 1, 11, 1, 1000⟩, ⟨['b'], ['x'], 2, 12, 1, 1000⟩]
  nodup := by decide

/-- A transfer from `a` to `b`, and the end of `b`'s session. -/
def payAndLeave (i : Bool) : Call :=
  if i then .transaction ['a'] ['b'] 100 else .logout ['x'] 2

def payAndLeaveWorkers : Workers Bool := Config.init twoUsers fun i => (payAndLeave i).prog

theorem undisturbed_of_fresh_two :
    ∃ c : Workers Bool, Run Config.exec (FreshOther payAndLeave) payAndLeaveWorkers
      [true, true, false, true, true] c ∧ Undisturbed payAndLeave twoUsers c := by
  obtain ⟨c, -, h⟩ := Run.of_allowed (by decide +kernel : allowed Config.exec
    (FreshOther payAndLeave) payAndLeaveWorkers [true, true, false, true, true] = true)
  exact ⟨c, h, (undisturbed_of_fresh (fun i => by cases i <;> rfl) h).1⟩

/-- `b`'s online status in the table, and the last one that a login or logout wrote. -/
def statusNowAndLast (c : Workers Bool) : Option Int × Option Int :=
  ((c.table.find? ['b']).map Client.onlineStatus,
    ((c.lastWrite (fun i => !(payAndLeave i).isTransaction) ['b']).or
      (twoUsers.find? ['b'])).map Client.onlineStatus)

theorem Undisturbed.status {c : Workers Bool} (h : Undisturbed payAndLeave twoUsers c) :
    (statusNowAndLast c).1 = (statusNowAndLast c).2 := by
  have hb := congrArg (Option.map fun x => x.2.2.2) (h ['b']).1
  rw [Option.map_map, Option.map_map] at hb
  exact hb

/-- `b` logs out between the transfer's `SELECT` and its `UPDATE`, and is online again after it. -/
theorem transfer_revives_session :
    ∃ c : Workers Bool, Run Config.exec Any payAndLeaveWorkers
      [true, true, false, false, true, true] c ∧ c.Done ∧ ¬ Undisturbed payAndLeave twoUsers c := by
  have hend : ∀ i, (runAll Config.exec payAndLeaveWorkers
      [true, true, false, false, true, true]).map
        (fun c => (statusNowAndLast c, ((c.thread i).prog.result?).isSome)) =
      some ((some 1, some 0), true) := by decide +kernel
  obtain ⟨c, hc, hout⟩ := Option.map_eq_some_iff.1 (hend true)
  refine ⟨c, Run.of_runAll hc, fun i => ?_, fun h => ?_⟩
  · have hi := hend i
    rw [hc] at hi
    simp only [Option.map_some, Option.some.injEq, Prod.mk.injEq] at hi
    obtain ⟨a, ha⟩ := Option.isSome_iff_exists.1 hi.2
    exact ⟨a, Prog.of_result? ha⟩
  · have hb := h.status
    rw [(Prod.mk.inj hout).1] at hb
    exact absurd hb (by decide)

end

end Micropayment
