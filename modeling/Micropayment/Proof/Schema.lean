import Micropayment.Proof.Restart
import Micropayment.Schema

/-!
# What `sync_schema` does to the table

`schemaStatus` finds a table in sync exactly if it has the columns of `connect` in some order
(`alreadyInSync_iff`). The constructor's CREATE TABLE makes a table that is not, so the first call
on a new file drops and creates it. If no other call begins meanwhile (`Alone`), no call notices:
`sync_refines` and `file_history` carry what is known of the calls and of restarts over to the calls
with their `sync_schema`. `registration_lost` is a run in which two first calls overlap.
-/

set_option autoImplicit false

namespace Micropayment

/-! ## Comparing columns -/

section
variable {storage db : List TableInfo}

/-- Two columns of one name that differ. -/
def Differs (storage db : List TableInfo) : Prop :=
  ∃ s ∈ storage, ∃ d ∈ db, d.name = s.name ∧ columnsAreEqual d s = false

theorem name_of_equal {d s : TableInfo} (h : columnsAreEqual d s = true) : d.name = s.name := by
  simp only [columnsAreEqual, Bool.and_eq_true, decide_eq_true_eq] at h
  exact h.1.1.1

/-- Erasing the column of a name. -/
theorem eraseP_name (hd : (db.map TableInfo.name).Nodup) (name : Str) :
    (db.eraseP fun ti => ti.name = name) = db.filter fun ti => ti.name ≠ name := by
  induction db with
  | nil => rfl
  | cons d db ih =>
    simp only [List.map_cons, List.nodup_cons] at hd
    by_cases hname : d.name = name
    · rw [List.eraseP_cons_of_pos (by simpa using hname),
        List.filter_cons_of_neg (by simpa using hname), List.filter_eq_self.2]
      intro ti hti
      have hne : ti.name ≠ name := fun he =>
        hd.1 (hname.trans he.symm ▸ List.mem_map_of_mem hti)
      simpa using hne
    · rw [List.eraseP_cons_of_neg (by simpa using hname),
        List.filter_cons_of_pos (by simpa using hname), ih hd.2]

/-- The columns of `xs` that have no partner in `ys`. -/
def unmatched (xs ys : List TableInfo) : List TableInfo :=
  xs.filter fun x => x.name ∉ ys.map TableInfo.name

/-- A storage column that the table does not have. -/
theorem unmatched_new (storage : List TableInfo) {column : TableInfo}
    (h : ∀ d ∈ db, d.name ≠ column.name) :
    (Differs (column :: storage) db ↔ Differs storage db) ∧
      unmatched (column :: storage) db = column :: unmatched storage db ∧
      unmatched db (column :: storage) = unmatched db storage := by
  refine ⟨⟨?_, ?_⟩, ?_, ?_⟩
  · rintro ⟨s, hs, d, hd, hname, hne⟩
    rcases List.mem_cons.1 hs with rfl | hs
    · exact absurd hname (h d hd)
    · exact ⟨s, hs, d, hd, hname, hne⟩
  · rintro ⟨s, hs, hne⟩
    exact ⟨s, List.mem_cons_of_mem _ hs, hne⟩
  · refine List.filter_cons_of_pos ?_
    simpa using h
  · refine List.filter_congr fun d hd => ?_
    simp [h d hd]

/-- A storage column that the table has: it and its partner are done with. -/
theorem unmatched_matched {column dbColumn : TableInfo}
    (hs : column.name ∉ storage.map TableInfo.name) (hd : (db.map TableInfo.name).Nodup)
    (hmem : dbColumn ∈ db) (hequal : columnsAreEqual dbColumn column = true) :
    (Differs (column :: storage) db ↔
      Differs storage (db.eraseP fun ti => ti.name = column.name)) ∧
      unmatched (column :: storage) db =
        unmatched storage (db.eraseP fun ti => ti.name = column.name) ∧
      unmatched db (column :: storage) =
        unmatched (db.eraseP fun ti => ti.name = column.name) storage := by
  have hname := name_of_equal hequal
  have hne : ∀ s ∈ storage, s.name ≠ column.name := fun s hmem' he =>
    hs (he ▸ List.mem_map_of_mem hmem')
  rw [eraseP_name hd]
  refine ⟨⟨?_, ?_⟩, ?_, ?_⟩
  · rintro ⟨s, hs', d, hd', hn, hdiff⟩
    rcases List.mem_cons.1 hs' with rfl | hs'
    · obtain rfl := List.inj_on_of_nodup_map hd hd' hmem (hn.trans hname.symm)
      rw [hequal] at hdiff
      cases hdiff
    · refine ⟨s, hs', d, List.mem_filter.2 ⟨hd', ?_⟩, hn, hdiff⟩
      simpa [hn] using hne s hs'
  · rintro ⟨s, hs', d, hd', hdiff⟩
    exact ⟨s, List.mem_cons_of_mem _ hs', d, (List.mem_filter.1 hd').1, hdiff⟩
  · have hin : column.name ∈ db.map TableInfo.name := hname ▸ List.mem_map_of_mem hmem
    unfold unmatched
    rw [List.filter_cons_of_neg (by simpa using hin)]
    refine List.filter_congr fun s hs' =>
      decide_eq_decide.2 (not_congr ⟨fun hm => ?_, fun hm => ?_⟩)
    · obtain ⟨d, hd', hn⟩ := List.mem_map.1 hm
      refine List.mem_map.2 ⟨d, List.mem_filter.2 ⟨hd', ?_⟩, hn⟩
      simpa [hn] using hne s hs'
    · obtain ⟨d, hd', hn⟩ := List.mem_map.1 hm
      exact List.mem_map.2 ⟨d, (List.mem_filter.1 hd').1, hn⟩
  · unfold unmatched
    rw [List.filter_filter]
    refine List.filter_congr fun d _ => ?_
    rw [List.map_cons, ← Bool.decide_and]
    refine decide_eq_decide.2 ?_
    rw [List.mem_cons, not_or, and_comm]

/-- With distinct names the loop finds a column that differs, or the columns without a partner on
either side. -/
theorem calculateRemoveAddColumns_spec (hs : (storage.map TableInfo.name).Nodup)
    (hd : (db.map TableInfo.name).Nodup) :
    ((calculateRemoveAddColumns storage db).1 = true ∧ Differs storage db) ∨
    (¬Differs storage db ∧ calculateRemoveAddColumns storage db =
      (false, unmatched storage db, unmatched db storage)) := by
  induction storage generalizing db with
  | nil =>
    refine .inr ⟨?_, ?_⟩
    · rintro ⟨s, hs, -⟩
      exact absurd hs List.not_mem_nil
    · simp [calculateRemoveAddColumns, unmatched]
  | cons column storage ih =>
    rw [List.map_cons, List.nodup_cons] at hs
    unfold calculateRemoveAddColumns
    cases hfind : db.find? fun ti => ti.name = column.name with
    | none =>
      have hnone : ∀ d ∈ db, d.name ≠ column.name := by
        simpa using List.find?_eq_none.1 hfind
      obtain ⟨hdiffers, hadd, hexcess⟩ := unmatched_new storage hnone
      dsimp only
      rw [hdiffers, hadd, hexcess]
      rcases ih hs.2 hd with ⟨hne, h⟩ | ⟨hno, heq⟩
      · exact .inl ⟨hne, h⟩
      · exact .inr ⟨hno, by rw [heq]⟩
    | some dbColumn =>
      have hmem := List.mem_of_find?_eq_some hfind
      dsimp only
      split
      · rename_i hequal
        have hdb' := hd.sublist ((List.eraseP_sublist
          (p := fun ti : TableInfo => ti.name = column.name)).map TableInfo.name)
        obtain ⟨hdiffers, hadd, hexcess⟩ := unmatched_matched hs.1 hd hmem hequal
        rw [hdiffers, hadd, hexcess]
        exact ih hs.2 hdb'
      · rename_i hequal
        have hname : dbColumn.name = column.name := by simpa using List.find?_some hfind
        exact .inl ⟨rfl, column, List.mem_cons_self, dbColumn, hmem, hname, by simpa using hequal⟩

/-- **A table is in sync** exactly if it has the storage's columns, in whatever order and with
whatever types and defaults, and no others. -/
theorem alreadyInSync_iff (hs : (storage.map TableInfo.name).Nodup)
    (hd : (db.map TableInfo.name).Nodup) (dropColumn preserve : Bool) :
    schemaStatus dropColumn preserve storage db = .alreadyInSync ↔
      (∀ s ∈ storage, ∃ d ∈ db, columnsAreEqual d s = true) ∧
        ∀ d ∈ db, ∃ s ∈ storage, columnsAreEqual d s = true := by
  have hstatus : schemaStatus dropColumn preserve storage db = .alreadyInSync ↔
      ¬Differs storage db ∧ unmatched storage db = [] ∧ unmatched db storage = [] := by
    unfold schemaStatus
    rcases calculateRemoveAddColumns_spec hs hd with ⟨hne, h⟩ | ⟨hno, heq⟩
    · simp [hne, h]
    · rw [heq]
      dsimp only
      by_cases hadd : unmatched storage db = []
      · by_cases hexcess : unmatched db storage = []
        · simp [hadd, hexcess, hno]
        · cases dropColumn <;> cases preserve <;> simp [hadd, hexcess]
      · simp only [hadd, ne_eq, not_false_eq_true, if_true, false_and, and_false, iff_false]
        split
        · simp
        · split
          · simp
          · split <;> simp
  rw [hstatus]
  unfold unmatched
  rw [List.filter_eq_nil_iff, List.filter_eq_nil_iff]
  constructor
  · rintro ⟨hno, hadd, hexcess⟩
    have hpartner : ∀ s ∈ storage, ∀ d ∈ db, d.name = s.name → columnsAreEqual d s = true := by
      intro s hs' d hd' hname
      by_contra hne
      exact hno ⟨s, hs', d, hd', hname, by simpa using hne⟩
    refine ⟨fun s hs' => ?_, fun d hd' => ?_⟩
    · obtain ⟨d, hd', hname⟩ : ∃ d ∈ db, d.name = s.name := by simpa using hadd s hs'
      exact ⟨d, hd', hpartner s hs' d hd' hname⟩
    · obtain ⟨s, hs', hname⟩ : ∃ s ∈ storage, s.name = d.name := by simpa using hexcess d hd'
      exact ⟨s, hs', hpartner s hs' d hd' hname.symm⟩
  · rintro ⟨hall, hback⟩
    refine ⟨?_, fun s hs' => ?_, fun d hd' => ?_⟩
    · rintro ⟨s, hs', d, hd', hname, hne⟩
      obtain ⟨d', hd'', hequal⟩ := hall s hs'
      obtain rfl := List.inj_on_of_nodup_map hd hd' hd'' (hname.trans (name_of_equal hequal).symm)
      rw [hequal] at hne
      cases hne
    · obtain ⟨d, hd', hequal⟩ := hall s hs'
      simpa using ⟨d, hd', name_of_equal hequal⟩
    · obtain ⟨s, hs', hequal⟩ := hback d hd'
      simpa using ⟨s, hs', (name_of_equal hequal).symm⟩

theorem alreadyInSync_reverse :
    schemaStatus true false clientTable clientTable.reverse = .alreadyInSync :=
  (alreadyInSync_iff (by decide +kernel) (by decide +kernel) true false).2
    ⟨by decide +kernel, by decide +kernel⟩

end

/-! ## The two tables of this program -/

theorem clientTable_inSync (dropColumn : Bool) :
    schemaStatus dropColumn false clientTable clientTable = .alreadyInSync := by
  cases dropColumn <;> decide +kernel

/-- The constructor's port columns may be NULL. -/
theorem createdTable_recreated (dropColumn : Bool) :
    schemaStatus dropColumn false clientTable createdTable = .droppedAndRecreated := by
  cases dropColumn <;> decide +kernel

/-- The table is the one of `connect`, or has not been used yet. -/
def Known (file : Store) : Prop :=
  ∀ x ∈ file, x.1 = clientTable ∨ (x.1 = createdTable ∧ x.2 = Keyed.empty)

section
variable {dropColumn : Bool} {alter : List TableInfo × Table → Store}

theorem Known.openDatabase {file : Store} (h : Known file) (reset : Bool) :
    ∃ opened, openDatabase dropColumn alter file reset = some opened ∧ Known (some opened) ∧
      opened.2 = construct (file.map Prod.snd) reset := by
  have hopened : Known (some (file.getD (createdTable, Keyed.empty))) := by
    rintro x ⟨⟩
    cases file with
    | none => exact .inr ⟨rfl, rfl⟩
    | some x => exact h x rfl
  unfold Micropayment.openDatabase
  dsimp only
  cases reset with
  | false =>
    refine ⟨_, rfl, hopened, ?_⟩
    cases file with
    | none => rfl
    | some x => rfl
  | true =>
    rcases hopened _ rfl with hcolumns | ⟨hcolumns, -⟩
    · rw [hcolumns, clientTable_inSync]
      refine ⟨_, rfl, ?_, rfl⟩
      rintro x ⟨⟩
      exact .inl rfl
    · rw [hcolumns, createdTable_recreated]
      refine ⟨_, rfl, ?_, rfl⟩
      rintro x ⟨⟩
      exact .inl rfl

/-! ## Threads -/

namespace Synced

variable {ι : Type} [DecidableEq ι]

/-- A call begins when the table is in sync, or before all others. -/
def Alone (s : Synced ι) (i : ι) : Prop :=
  s.phase i = .tableExists → s.columns = some clientTable ∨ ∀ j, j ≠ i → s.phase j = .tableExists

instance [Fintype ι] (s : Synced ι) (i : ι) : Decidable (s.Alone i) :=
  inferInstanceAs (Decidable (s.phase i = .tableExists →
    s.columns = some clientTable ∨ ∀ j, j ≠ i → s.phase j = .tableExists))

/-- Thread `i` is in its `sync_schema` before anybody has used the table. -/
structure First (s : Synced ι) (i : ι) : Prop where
  others : ∀ j, j ≠ i → s.phase j = .tableExists
  empty : s.workers.table = Keyed.empty
  state : (s.phase i = .tableExists ∧ (s.columns = none ∨ s.columns = some createdTable)) ∨
    (s.phase i = .tableInfo ∧ s.columns = some createdTable) ∨
    (s.phase i = .dropTable ∧ s.columns = some createdTable) ∨
    (s.phase i = .createTable ∧ s.columns = none)

/-- The table is in sync, and nobody is about to change that. -/
structure InSync (s : Synced ι) : Prop where
  columns : s.columns = some clientTable
  phase : ∀ i, s.phase i = .tableExists ∨ s.phase i = .tableInfo ∨ s.phase i = .call

/-- Nobody has begun. -/
structure Unused (s : Synced ι) : Prop where
  phase : ∀ i, s.phase i = .tableExists
  empty : s.workers.table = Keyed.empty
  columns : s.columns = none ∨ s.columns = some createdTable

def Quiet (s : Synced ι) : Prop := s.InSync ∨ s.Unused ∨ ∃ i, s.First i

variable {s s' : Synced ι} {i : ι}

theorem goto_self (p : Phase) : (s.goto i p).phase i = p := Function.update_self ..

theorem goto_other {j : ι} (p : Phase) (h : j ≠ i) : (s.goto i p).phase j = s.phase j :=
  Function.update_of_ne h ..

/-- The thread reads that the table is in sync. -/
theorem InSync.goto (h : s.InSync) {p : Phase}
    (hp : p = .tableExists ∨ p = .tableInfo ∨ p = .call) : (s.goto i p).InSync := by
  refine ⟨h.columns, fun j => ?_⟩
  by_cases hj : j = i
  · rw [hj, goto_self]
    exact hp
  · rw [goto_other p hj]
    exact h.phase j

/-- **With the table in sync**, `sync_schema` only reads. -/
theorem InSync.step (h : s.InSync) (hs : s.step dropColumn alter i = some s') :
    s'.InSync ∧ (s'.workers = s.workers ∨ s.workers.exec i = some s'.workers) := by
  unfold Synced.step at hs
  rcases h.phase i with hp | hp | hp
  · rw [hp, h.columns] at hs
    obtain rfl := Option.some.inj hs
    exact ⟨h.goto (.inr (.inl rfl)), .inl rfl⟩
  · rw [hp, h.columns, Option.getD_some, clientTable_inSync] at hs
    obtain rfl := Option.some.inj hs
    exact ⟨h.goto (.inr (.inr rfl)), .inl rfl⟩
  · rw [hp, h.columns] at hs
    obtain ⟨workers, hw, rfl⟩ := Option.map_eq_some_iff.1 hs
    exact ⟨⟨rfl, h.phase⟩, .inr hw⟩

/-- The first thread gets the table in sync, and leaves it empty. -/
theorem First.step (h : s.First i) (hs : s.step dropColumn alter i = some s') :
    s'.Quiet ∧ s'.workers = s.workers := by
  have hothers : ∀ p j, j ≠ i → (s.goto i p).phase j = .tableExists := by
    intro p j hj
    rw [goto_other p hj]
    exact h.others j hj
  have htable : { s.workers with table := Keyed.empty } = s.workers := by
    rw [← h.empty]
  unfold Synced.step at hs
  rcases h.state with ⟨hp, hc | hc⟩ | ⟨hp, hc⟩ | ⟨hp, hc⟩ | ⟨hp, hc⟩
  all_goals rw [hp, hc] at hs
  · obtain rfl := Option.some.inj hs
    refine ⟨.inr (.inr ⟨i, hothers _, h.empty, ?_⟩), rfl⟩
    exact .inr (.inr (.inr ⟨goto_self _, hc⟩))
  · obtain rfl := Option.some.inj hs
    refine ⟨.inr (.inr ⟨i, hothers _, h.empty, ?_⟩), rfl⟩
    exact .inr (.inl ⟨goto_self _, hc⟩)
  · rw [Option.getD_some, createdTable_recreated] at hs
    obtain rfl := Option.some.inj hs
    refine ⟨.inr (.inr ⟨i, hothers _, h.empty, ?_⟩), rfl⟩
    exact .inr (.inr (.inl ⟨goto_self _, hc⟩))
  · obtain rfl := Option.some.inj hs
    refine ⟨.inr (.inr ⟨i, hothers .createTable, rfl, ?_⟩), htable⟩
    exact .inr (.inr (.inr ⟨goto_self (s := s) .createTable, rfl⟩))
  · obtain rfl := Option.some.inj hs
    refine ⟨.inl ⟨rfl, fun j => ?_⟩, htable⟩
    by_cases hj : j = i
    · rw [hj]
      exact .inr (.inr (goto_self (s := s) .call))
    · exact .inl (hothers .call j hj)

/-- **A step of an undisturbed `sync_schema`** changes nothing that a call can see. -/
theorem Quiet.step (h : s.Quiet) (hg : s.Alone i) (hs : s.step dropColumn alter i = some s') :
    s'.Quiet ∧ (s'.workers = s.workers ∨ s.workers.exec i = some s'.workers) := by
  rcases h with h | h | ⟨k, h⟩
  · obtain ⟨hsync, hw⟩ := h.step hs
    exact ⟨.inl hsync, hw⟩
  · have hfirst : s.First i := ⟨fun j _ => h.phase j, h.empty, .inl ⟨h.phase i, h.columns⟩⟩
    obtain ⟨hquiet, hw⟩ := hfirst.step hs
    exact ⟨hquiet, .inl hw⟩
  · have hfirst : s.First i := by
      by_cases hik : i = k
      · rw [hik]
        exact h
      · -- another call begins: so `k` has not begun either
        have hi := h.others i hik
        have hcolumns : s.columns = none ∨ s.columns = some createdTable := by
          rcases h.state with ⟨-, hc⟩ | ⟨-, hc⟩ | ⟨-, hc⟩ | ⟨-, hc⟩
          · exact hc
          · exact .inr hc
          · exact .inr hc
          · exact .inl hc
        refine ⟨?_, h.empty, .inl ⟨hi, hcolumns⟩⟩
        refine (hg hi).resolve_left fun hclient => ?_
        rcases hcolumns with hc | hc <;> rw [hc] at hclient
        · cases hclient
        · exact absurd (Option.some.inj hclient) (by decide)
    obtain ⟨hquiet, hw⟩ := hfirst.step hs
    exact ⟨hquiet, .inl hw⟩

end Synced

end

section
variable {ι : Type} {s : Synced ι}

namespace Synced

theorem quiet_init {opened : Store} (h : Known opened) (calls : ι → Call) :
    (Synced.init opened calls).Quiet := by
  have hunused : ∀ {opened : Store}, opened.map Prod.fst = none ∨
      opened.map Prod.fst = some createdTable → opened.elim Keyed.empty Prod.snd = Keyed.empty →
        (Synced.init opened calls).Quiet :=
    fun hc he => .inr (.inl ⟨fun _ => rfl, he, hc⟩)
  cases opened with
  | none => exact hunused (.inl rfl) rfl
  | some x =>
    rcases h x rfl with hc | ⟨hc, he⟩
    · exact .inl ⟨congrArg some hc, fun _ => .inl rfl⟩
    · exact hunused (.inr (congrArg some hc)) he

theorem Quiet.known (h : s.Quiet) : Known s.file := by
  intro x hx
  obtain ⟨columns, hcolumns, rfl⟩ := Option.map_eq_some_iff.1 hx
  have hcreated : s.workers.table = Keyed.empty → s.columns = some createdTable →
      columns = clientTable ∨ columns = createdTable ∧ s.workers.table = Keyed.empty :=
    fun he hc => .inr ⟨Option.some.inj (hcolumns.symm.trans hc), he⟩
  have hnone : s.columns ≠ none := by
    rw [hcolumns]
    nofun
  rcases h with h | h | ⟨k, h⟩
  · exact .inl (Option.some.inj (hcolumns.symm.trans h.columns))
  · exact hcreated h.empty (h.columns.resolve_left hnone)
  · rcases h.state with ⟨-, hc⟩ | ⟨-, hc⟩ | ⟨-, hc⟩ | ⟨-, hc⟩
    · exact hcreated h.empty (hc.resolve_left hnone)
    · exact hcreated h.empty hc
    · exact hcreated h.empty hc
    · exact absurd hc hnone

end Synced

end

section
variable {ι : Type} [DecidableEq ι] {dropColumn : Bool} {alter : List TableInfo × Table → Store}

/-- What happens to the rows in an undisturbed run, and what state it leaves. -/
theorem synced_run {opened : Store} (hk : Known opened) {calls : ι → Call} {sched : List ι}
    {s : Synced ι}
    (h : Run (Synced.step dropColumn alter) Synced.Alone (Synced.init opened calls) sched s) :
    (∃ sched', Run Config.exec Any
      (Config.init (opened.elim Keyed.empty Prod.snd) fun i => (calls i).prog) sched' s.workers) ∧
      s.Quiet := by
  have hstep : ∀ (s : Synced ι) i s', s.Quiet → s.Alone i → s.step dropColumn alter i = some s' →
      s'.Quiet := fun _ _ _ hq hg hs => (hq.step hg hs).1
  have hguard : Run (Synced.step dropColumn alter) (fun s i => s.Quiet ∧ s.Alone i)
      (Synced.init opened calls) sched s :=
    h.mono_inv hstep (fun _ _ _ hq hg _ => ⟨hq, hg⟩) (Synced.quiet_init hk calls)
  refine ⟨hguard.project Synced.workers fun s i s' hg hs => ?_,
    h.inv hstep (Synced.quiet_init hk calls)⟩
  exact (hg.1.step hg.2 hs).2.imp id fun hw => ⟨i, trivial, hw⟩

/-- **The calls with their `sync_schema` refine the calls without**, in every interleaving in which
no call begins during the first one's `sync_schema` on a new table. Nobody runs into an error of
`sync_schema`, and the table stays known. -/
theorem sync_refines {opened : Store} (hk : Known opened) {calls : ι → Call} {sched : List ι}
    {s : Synced ι}
    (h : Run (Synced.step dropColumn alter) Synced.Alone (Synced.init opened calls) sched s) :
    (∃ sched', Run Config.exec Any
      (Config.init (opened.elim Keyed.empty Prod.snd) fun i => (calls i).prog) sched' s.workers) ∧
      (∀ i, s.phase i ≠ .thrown ∧ s.phase i ≠ .alterTable) ∧ Known s.file := by
  obtain ⟨hrun, hquiet⟩ := synced_run hk h
  refine ⟨hrun, fun i => ?_, hquiet.known⟩
  rcases hquiet with hq | hq | ⟨k, hq⟩
  · rcases hq.phase i with hp | hp | hp <;> rw [hp] <;> exact ⟨nofun, nofun⟩
  · rw [hq.phase i]
    exact ⟨nofun, nofun⟩
  · by_cases hi : i = k
    · rw [hi]
      rcases hq.state with ⟨hp, -⟩ | ⟨hp, -⟩ | ⟨hp, -⟩ | ⟨hp, -⟩ <;> rw [hp] <;>
        exact ⟨nofun, nofun⟩
    · rw [hq.others i hi]
      exact ⟨nofun, nofun⟩

/-- `a` and `b` register. -/
def twoNew (i : Bool) : Call := if i then .register ['b'] [] else .register ['a'] []

/-- The call for `a` gets the table in sync, then both go on by turns. -/
def oneFirst : List Bool :=
  [false, false, false, false, true, false, true, true, false, true]

theorem sync_refines_new : ∃ s : Synced Bool,
    Run (Synced.step true fun _ => none) Synced.Alone
        (Synced.init (some (createdTable, Keyed.empty)) twoNew) oneFirst s ∧
      s.workers.table.rows = [newUser ['a'], newUser ['b']] ∧ Known s.file := by
  obtain ⟨s, hs, h⟩ := Run.of_allowed (by decide +kernel :
    allowed (Synced.step true fun _ => none) Synced.Alone
      (Synced.init (some (createdTable, Keyed.empty)) twoNew) oneFirst = true)
  have hend : (runAll (Synced.step true fun _ => none)
      (Synced.init (some (createdTable, Keyed.empty)) twoNew) oneFirst).map
        (fun s => s.workers.table.rows) = some [newUser ['a'], newUser ['b']] := by
    decide +kernel
  rw [hs] at hend
  have hk : Known (some (createdTable, Keyed.empty)) := by
    rintro x ⟨⟩
    exact .inr ⟨rfl, rfl⟩
  exact ⟨s, h, Option.some.inj hend, (sync_refines hk h).2.2⟩

/-- Two first calls overlap: both registrations are granted, and the one for `b` is dropped with the
table. -/
theorem registration_lost : ∃ s : Synced Bool,
    Run (Synced.step true fun _ => none) Any
        (Synced.init (some (createdTable, Keyed.empty)) twoNew)
        [false, false, true, true, true, true, true, true, false, false, false, false] s ∧
      (∀ i, (s.workers.thread i).prog.result? = some .registerOk) ∧
      s.workers.table.rows = [newUser ['a']] := by
  have hend : (runAll (Synced.step true fun _ => none)
      (Synced.init (some (createdTable, Keyed.empty)) twoNew)
      [false, false, true, true, true, true, true, true, false, false, false, false]).map
        (fun s => ((s.workers.thread true).prog.result?, (s.workers.thread false).prog.result?,
          s.workers.table.rows)) =
        some (some .registerOk, some .registerOk, [newUser ['a']]) := by
    decide +kernel
  obtain ⟨s, hs, h⟩ := Option.map_eq_some_iff.1 hend
  simp only [Prod.mk.injEq] at h
  refine ⟨s, Run.of_runAll hs, fun i => ?_, h.2.2⟩
  cases i
  · exact h.2.1
  · exact h.1

end

/-- What successive runs of the server leave in the file, each cut off after any statement. -/
inductive FileHistory (dropColumn : Bool) (alter : List TableInfo × Table → Store) : Store → Prop
  | noFile : FileHistory dropColumn alter none
  | run {file : Store} {opened : List TableInfo × Table} {ι : Type} [DecidableEq ι]
      {calls : ι → Call} {sched : List ι} {s : Synced ι} (reset : Bool) :
      FileHistory dropColumn alter file → openDatabase dropColumn alter file reset = some opened →
      Run (Synced.step dropColumn alter) Synced.Alone (Synced.init (some opened) calls) sched s →
      FileHistory dropColumn alter s.file

/-- **Restarts**: the constructor always succeeds on the files that runs leave, and the table in
them is one that runs leave without any `sync_schema`. -/
theorem file_history {dropColumn : Bool} {alter : List TableInfo × Table → Store} {file : Store}
    (h : FileHistory dropColumn alter file) :
    History (file.map Prod.snd) ∧ Known file ∧
      ∀ reset, ∃ opened, openDatabase dropColumn alter file reset = some opened ∧
        opened.2 = construct (file.map Prod.snd) reset := by
  have hknown : History (file.map Prod.snd) ∧ Known file := by
    induction h with
    | noFile => exact ⟨.noFile, nofun⟩
    | @run file opened ι _ calls sched s reset _ hopen hrun ih =>
      obtain ⟨opened', hopen', hk, htable⟩ := ih.2.openDatabase reset
      obtain rfl := Option.some.inj (hopen.symm.trans hopen')
      obtain ⟨⟨sched', hworkers⟩, hquiet⟩ := synced_run hk hrun
      refine ⟨?_, hquiet.known⟩
      unfold Synced.file
      cases s.columns with
      | none => exact .noFile
      | some columns =>
        change Run _ _ (Config.init opened.2 _) _ _ at hworkers
        rw [htable] at hworkers
        exact ih.1.run reset hworkers
  refine ⟨hknown.1, hknown.2, fun reset => ?_⟩
  obtain ⟨opened, hopen, -, htable⟩ := hknown.2.openDatabase reset
  exact ⟨opened, hopen, htable⟩

/-- A new file, a run without `reset` in which `a` registers, and the next start. -/
theorem file_history_new : ∃ file : Store,
    FileHistory true (fun _ => none) file ∧ file.map (fun x => x.2.rows) = some [newUser ['a']] ∧
      History (file.map Prod.snd) := by
  have hend : (runAll (Synced.step true fun _ => none)
      (Synced.init (some (createdTable, Keyed.empty)) fun _ : Unit => .register ['a'] [])
      [(), (), (), (), (), ()]).map (fun s => s.file.map fun x => x.2.rows) =
        some (some [newUser ['a']]) := by
    decide +kernel
  obtain ⟨s, hs, hrun⟩ := Run.of_allowed (by decide +kernel :
    allowed (Synced.step true fun _ => none) Synced.Alone
      (Synced.init (some (createdTable, Keyed.empty)) fun _ : Unit => .register ['a'] [])
      [(), (), (), (), (), ()] = true)
  rw [hs] at hend
  have h : FileHistory true (fun _ => none) s.file := FileHistory.noFile.run false rfl hrun
  exact ⟨s.file, h, Option.some.inj hend, (file_history h).1⟩

end Micropayment
