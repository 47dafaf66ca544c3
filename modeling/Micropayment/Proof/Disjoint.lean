import Micropayment.Lib.Footprint
import Micropayment.Proof.Serial

/-!
# Calls in any interleaving

A registration, a login and a transfer are about the rows of the names they are given
(`Call.within`). Among calls that do not write these rows such a call does what it does alone
(`call_undisturbed`), and calls about different names do in every interleaving what they do one
after another (`disjoint_calls`). Calls about the same names may lose updates, but whatever the
interleaving no row becomes unsound (`rows_sound`).
-/

set_option autoImplicit false

namespace Micropayment

namespace Call

/-- A logout names nobody: it is about whoever is online at its endpoint. -/
def Named : Call → Prop
  | logout _ _ => False
  | _ => True

def names : Call → Set Str
  | register u _ => {u}
  | login u _ _ _ => {u}
  | logout _ _ => ∅
  | transaction snd rcv _ => {snd, rcv}

/-- The footprint of a call. -/
theorem within {x : Call} (h : x.Named) : x.prog.Within Client.username x.names := by
  cases x with
  | logout => exact h.elim
  | register u ip =>
    refine ⟨⟨u, rfl, fun r hr => by simpa using hr⟩, fun l _ => ?_⟩
    dsimp only
    split
    · trivial
    · exact ⟨rfl, trivial⟩
  | login u ip pub priv =>
    refine ⟨⟨u, rfl, fun r hr => by simpa using hr⟩, fun l hl => ?_⟩
    cases l with
    | nil => trivial
    | cons user l =>
      have hu : user.username = u := by simpa using hl user List.mem_cons_self
      refine ⟨⟨u, rfl, fun r hr => by simp at hr; exact hr.1⟩, fun l' _ => ?_⟩
      dsimp only
      split
      · trivial
      · exact ⟨hu, trivial⟩
  | transaction snd rcv pay =>
    simp only [prog, userTransaction]
    split
    · split <;> trivial
    refine ⟨⟨snd, .inl rfl, fun r hr => by simp at hr; exact hr.1⟩, fun ss hss => ?_⟩
    refine ⟨⟨rcv, .inr rfl, fun r hr => by simp at hr; exact hr.1⟩, fun rr hrr => ?_⟩
    rcases ss with _ | ⟨s, _ | ⟨s', ss⟩⟩
    · trivial
    · rcases rr with _ | ⟨r, _ | ⟨r', rr⟩⟩
      · trivial
      · have hs := hss s List.mem_cons_self
        have hr := hrr r List.mem_cons_self
        simp only [Bool.and_eq_true, decide_eq_true_eq] at hs hr
        dsimp only
        split
        · trivial
        · exact ⟨.inl hs.1, .inr hr.1, trivial⟩
      · trivial
    · trivial

end Call

section
variable {ι : Type} [DecidableEq ι] {x : ι → Call} {t : Table} {sched : List ι} {c : Workers ι}

/-- **A call whose rows nobody else writes**, among any calls and in any interleaving, returns
what it returns alone and leaves its rows as it leaves them alone. -/
theorem call_undisturbed {i : ι} (hn : (x i).Named)
    (h : Run Config.exec (Config.Spares i (x i).names)
      (Config.init t fun i => (x i).prog) sched c) {st : Status}
    (hst : (c.thread i).prog.result? = some st) :
    st = (x i).status t ∧
      ∀ u ∈ (x i).names, c.table.find? u = ((x i).prog.run t).2.find? u := by
  have hcourse := Config.undisturbed h (Call.within hn)
  exact hcourse.done (Prog.of_result? hst)

/-- **Calls about different names**: in every interleaving each returns what it returns alone,
and the rows are those of the calls one after another, in whatever order. -/
theorem disjoint_calls (hn : ∀ i, (x i).Named)
    (hd : ∀ i j, i ≠ j → Disjoint (x i).names (x j).names)
    (h : Run Config.exec Any (Config.init t fun i => (x i).prog) sched c) (hdone : c.Done)
    {order : List ι} (hnodup : order.Nodup) (hall : ∀ i, i ∈ order) :
    (∀ i, (c.thread i).prog.result? = some ((x i).status t)) ∧
      ∀ u, c.table.find? u = (Prog.serial (fun i => (x i).prog) order t).find? u :=
  Config.disjoint (fun i => Call.within (hn i)) hd h hdone hnodup hall

/-- `a` pays `b` while `d` registers. -/
def payAndJoin (i : Bool) : Call :=
  if i then .transaction ['a'] ['b'] 100 else .register ['d'] []

/-- Their statements by turns. -/
def byTurns : List Bool := [true, false, true, false, true, true]

theorem payAndJoin_apart :
    ∀ i j, i ≠ j → Disjoint (payAndJoin i).names (payAndJoin j).names := by
  have hd : Disjoint ({['a'], ['b']} : Set Str) {['d']} := by
    simp
  intro i j hij
  cases i with
  | true =>
    cases j with
    | true => exact absurd rfl hij
    | false => exact hd
  | false =>
    cases j with
    | true => exact hd.symm
    | false => exact absurd rfl hij

theorem payAndJoin_run : ∃ c : Workers Bool,
    Run Config.exec Any (Config.init threeUsers fun i => (payAndJoin i).prog) byTurns c ∧
      (c.thread true).prog.result? = some .transferOk ∧
      (c.thread false).prog.result? = some .registerOk := by
  have hend : (runAll Config.exec (Config.init threeUsers fun i => (payAndJoin i).prog)
      byTurns).map (fun c => ((c.thread true).prog.result?, (c.thread false).prog.result?)) =
        some (some .transferOk, some .registerOk) := by decide +kernel
  obtain ⟨c, hc, hret⟩ := Option.map_eq_some_iff.1 hend
  simp only [Prod.mk.injEq] at hret
  exact ⟨c, Run.of_runAll hc, hret⟩

theorem call_undisturbed_join : ∃ c : Workers Bool,
    Run Config.exec Any (Config.init threeUsers fun i => (payAndJoin i).prog) byTurns c ∧
      (payAndJoin true).status threeUsers = .transferOk ∧
      c.table.find? ['a'] = ((payAndJoin true).prog.run threeUsers).2.find? ['a'] := by
  obtain ⟨c, h, ht, -⟩ := payAndJoin_run
  have hn : ∀ i, (payAndJoin i).Named := fun i => by cases i <;> trivial
  have hspares := Config.run_spares (fun i => Call.within (hn i)) payAndJoin_apart h true
  obtain ⟨hst, hrows⟩ := call_undisturbed (hn true) hspares ht
  exact ⟨c, h, hst.symm, hrows ['a'] (.inl rfl)⟩

theorem disjoint_calls_join : ∃ c : Workers Bool,
    Run Config.exec Any (Config.init threeUsers fun i => (payAndJoin i).prog) byTurns c ∧
      ∀ u, c.table.find? u =
        (Prog.serial (fun i => (payAndJoin i).prog) [false, true] threeUsers).find? u := by
  obtain ⟨c, h, ht, hf⟩ := payAndJoin_run
  have hdone : c.Done := by
    intro i
    cases i with
    | true => exact ⟨_, Prog.of_result? ht⟩
    | false => exact ⟨_, Prog.of_result? hf⟩
  exact ⟨c, h, (disjoint_calls (fun i => by cases i <;> trivial) payAndJoin_apart h hdone
    (by decide) (by decide)).2⟩

end

/-! ## Rows in any interleaving -/

/-- The balance is no debt, and without a session the session columns are blank. -/
structure Client.Sound (r : Client) : Prop where
  balance : 0 ≤ r.balance
  status : r.onlineStatus = 0 ∨ r.onlineStatus = 1
  blank : r.onlineStatus = 0 → r.ip = [] ∧ r.publicPort = -1 ∧ r.privatePort = -1

section
variable {r : Client} {pay : ℚ}

theorem Client.Sound.debit (h : r.Sound) (hp : pay ≤ r.balance) : (r.debit pay).Sound := by
  refine ⟨?_, h.status, h.blank⟩
  show 0 ≤ truncToInt (r.balance - pay)
  rw [truncToInt_nonneg (sub_nonneg.2 hp)]
  exact Int.floor_nonneg.2 (sub_nonneg.2 hp)

theorem Client.Sound.credit (h : r.Sound) (hp : 0 < pay) : (r.credit pay).Sound := by
  have hsum : (0 : ℚ) ≤ r.balance + pay := by
    have := h.balance
    positivity
  refine ⟨?_, h.status, h.blank⟩
  show 0 ≤ truncToInt (r.balance + pay)
  rw [truncToInt_nonneg hsum]
  exact Int.floor_nonneg.2 hsum

/-- Every call writes sound rows if it has read sound rows. -/
theorem Call.obeys_sound (x : Call) :
    x.prog.Obeys (fun seen w => (∀ r ∈ seen, r.Sound) → w.Sound) [] := by
  cases x with
  | register u ip =>
    intro l _
    dsimp only
    split
    · trivial
    · exact ⟨fun _ => ⟨(by decide : 0 ≤ initialBalance), .inl rfl, fun _ => ⟨rfl, rfl, rfl⟩⟩,
        trivial⟩
  | login u ip pub priv =>
    intro l _
    cases l with
    | nil => trivial
    | cons user l =>
      intro l' _
      dsimp only
      split
      · trivial
      · refine ⟨fun hs => ⟨?_, .inr rfl, nofun⟩, trivial⟩
        exact (hs user (by simp)).balance
  | logout ip pub =>
    intro l _
    rcases l with _ | ⟨user, _ | ⟨user', l⟩⟩
    · trivial
    · refine ⟨fun hs => ⟨?_, .inl rfl, fun _ => ⟨rfl, rfl, rfl⟩⟩, trivial⟩
      exact (hs user (by simp)).balance
    · trivial
  | transaction snd rcv pay =>
    simp only [Call.prog, userTransaction]
    split
    · split <;> trivial
    rename_i hgo
    have hpos : 0 < pay := not_le.1 fun hp => hgo (.inl hp)
    intro ss _ rr _
    rcases ss with _ | ⟨s, _ | ⟨s', ss⟩⟩
    · trivial
    · rcases rr with _ | ⟨r, _ | ⟨r', rr⟩⟩
      · trivial
      · dsimp only
        split
        · trivial
        · rename_i hf
          have hfunds : pay ≤ s.balance := sub_nonneg.1 (not_lt.1 hf)
          exact ⟨fun hs => (hs s (by simp)).debit hfunds,
            fun hs => (hs r (by simp)).credit hpos, trivial⟩
      · trivial
    · trivial

end

/-- **No interleaving makes a row unsound**: whatever calls run at once, no balance becomes
negative, every row has a session or a blank one, and no name is lost. -/
theorem rows_sound {ι : Type} [DecidableEq ι] {x : ι → Call} {t : Table} {sched : List ι}
    {c : Workers ι} (ht : ∀ r ∈ t.rows, r.Sound)
    (h : Run Config.exec Any (Config.init t fun i => (x i).prog) sched c) :
    (∀ r ∈ c.table.rows, r.Sound) ∧
      ∀ r ∈ t.rows, ∃ r' ∈ c.table.rows, r'.username = r.username := by
  refine ⟨(Config.Rows.run ht (fun i => (x i).obeys_sound) h).table, fun r hr => ?_⟩
  have hkept : (c.table.find? r.username).isSome = true := by
    have hstep : ∀ (c : Workers ι) i c', (c.table.find? r.username).isSome = true → Any c i →
        c.exec i = some c' → (c'.table.find? r.username).isSome = true :=
      fun c i c' hc _ hs => Config.find?_isSome_exec hs hc
    apply h.inv hstep
    show (t.find? r.username).isSome = true
    rw [Keyed.find?_of_mem hr]
    rfl
  obtain ⟨r', hr'⟩ := Option.isSome_iff_exists.1 hkept
  exact ⟨r', Keyed.find?_mem hr', Keyed.find?_key hr'⟩

theorem rows_sound_join : ∃ c : Workers Bool,
    Run Config.exec Any (Config.init threeUsers fun i => (payAndJoin i).prog) byTurns c ∧
      ∀ r ∈ c.table.rows, r.Sound := by
  obtain ⟨c, h, -, -⟩ := payAndJoin_run
  have hsound : ∀ r ∈ threeUsers.rows, r.Sound := by
    have hall : ∀ r ∈ threeUsers.rows, 0 ≤ r.balance ∧ r.onlineStatus = 1 := by decide
    intro r hr
    obtain ⟨hb, ho⟩ := hall r hr
    exact ⟨hb, .inr ho, fun h0 => by omega⟩
  exact ⟨c, h, (rows_sound hsound h).1⟩

end Micropayment
