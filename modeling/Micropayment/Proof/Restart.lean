import Micropayment.Proof.Ledger

/-!
# Restarting the server

The table outlives the server process (`construct`, `destruct`). A run of the server is any number
of calls, interleaved or one after another, cut off after any statement. Offline rows always have
their session columns cleared (`Settled`), but nothing clears those of a user who is online when
the process ends: `no_ghosts_iff`.
-/

set_option autoImplicit false

namespace Micropayment

/-- `Database::Database`: the table of an opened file, `none` being no file. -/
def construct (file : Option Table) (reset : Bool) : Table :=
  if reset then Keyed.empty else file.getD Keyed.empty

/-- `Database::~Database`: the file that is left. -/
def destruct (t : Table) (erase : Bool) : Option Table := if erase then none else some t

/-- What successive runs of the server leave on disk, each of them ended by `sigint_handler`, which
deletes the `Database` with `erase = false`. -/
inductive History : Option Table → Prop
  | noFile : History none
  | run {file : Option Table} {ι : Type} [DecidableEq ι] {calls : ι → Call} {sched : List ι}
      {c : Workers ι} (reset : Bool) : History file →
      Run Config.exec Any (Config.init (construct file reset) fun i => (calls i).prog) sched c →
      History (destruct c.table false)

/-- After a restart on the table `t` all users are there with their balances, and none is online:
each of them can log in. -/
structure NoGhosts (t after : Table) : Prop where
  accounts : after.rows.map (fun r => (r.username, r.balance)) =
    t.rows.map fun r => (r.username, r.balance)
  offline : ∀ r ∈ after.rows,
    r.onlineStatus = 0 ∧ r.ip = [] ∧ r.publicPort = -1 ∧ r.privatePort = -1
  login : ∀ r ∈ after.rows, ∀ ip publicPort privatePort,
    ((userLogin r.username ip publicPort privatePort).run after).1 = .loginSuccess

/-- The session columns of a row that is not online are cleared. -/
def Settled (r : Client) : Prop := r.online = true ∨ r.session = ([], -1, -1, 0)

/-- A transfer writes session columns that it has read, the other calls write settled rows. -/
theorem Call.settled (x : Call) :
    x.prog.Obeys (fun seen w => (∀ r ∈ seen, Settled r) → Settled w) [] := by
  refine x.obeys_writes.mono fun seen w hw h => ?_
  cases hw with
  | register u ip => exact .inr rfl
  | login u ip pub priv _ => exact .inl rfl
  | logout ip pub _ => exact .inr rfl
  | @debit s snd rcv pay hs => exact h s hs
  | @credit r snd rcv pay hr => exact h r hr

theorem History.settled {file : Option Table} (h : History file) :
    ∀ t ∈ file, ∀ r ∈ t.rows, Settled r := by
  induction h with
  | noFile =>
    intro t ht
    cases ht
  | @run file ι _ calls sched c reset _ hrun ih =>
    have hopen : ∀ r ∈ (construct file reset).rows, Settled r := by
      cases reset with
      | true => exact fun r hr => absurd hr List.not_mem_nil
      | false =>
        cases file with
        | none => exact fun r hr => absurd hr List.not_mem_nil
        | some t => exact ih t rfl
    intro t ht
    obtain rfl : c.table = t := Option.some.inj ht
    exact (Config.Rows.run hopen (fun i => (calls i).settled) hrun).table

/-- **A restarted server has no ghost sessions** exactly if nobody was online when the run before
it ended. -/
theorem no_ghosts_iff {t : Table} (h : History (some t)) :
    NoGhosts t (construct (some t) false) ↔ ∀ r ∈ t.rows, r.online = false := by
  constructor
  · intro hn r hr
    simp [Client.online, (hn.offline r hr).1]
  · intro hoff
    refine ⟨rfl, fun r hr => ?_, fun r hr ip publicPort privatePort => ?_⟩
    · rcases h.settled t rfl r hr with ho | hs
      · rw [hoff r hr] at ho
        cases ho
      · simp only [Client.session, Prod.mk.injEq] at hs
        exact ⟨hs.2.2.2, hs.1, hs.2.1, hs.2.2.1⟩
    · rw [userLogin_run, Keyed.find?_of_mem hr]
      simp [hoff r hr]

section
/-- `a` registers, logs in, and logs out again. -/
def oneSession (i : Fin 3) : Call :=
  match i with
  | 0 => .register ['a'] ['x']
  | 1 => .login ['a'] ['x'] 1 11
  | 2 => .logout ['x'] 1

/-- The run ends after the logout. -/
theorem no_ghosts_iff_loggedOut :
    ∃ t, History (some t) ∧ t.rows = [⟨['a'], [], -1, -1, 0, 10000⟩] ∧
      (NoGhosts t (construct (some t) false) ↔ ∀ r ∈ t.rows, r.online = false) := by
  have hend : (runAll Config.exec (Config.init (construct none true) fun i => (oneSession i).prog)
      [0, 0, 1, 1, 1, 2, 2]).map (fun c => c.table.rows) =
        some [⟨['a'], [], -1, -1, 0, 10000⟩] := by decide +kernel
  obtain ⟨c, hc, hrows⟩ := Option.map_eq_some_iff.1 hend
  have h : History (some c.table) := History.noFile.run true (Run.of_runAll hc)
  exact ⟨c.table, h, hrows, no_ghosts_iff h⟩

/-- The run ends before the logout: `a` is online in the restarted server, and cannot log in. -/
theorem ghost_session :
    ∃ t, History (some t) ∧ t.rows = [⟨['a'], ['x'], 1, 11, 1, 10000⟩] ∧
      ¬ NoGhosts t (construct (some t) false) := by
  have hend : (runAll Config.exec (Config.init (construct none true) fun i => (oneSession i).prog)
      [0, 0, 1, 1, 1]).map (fun c => c.table.rows) =
        some [⟨['a'], ['x'], 1, 11, 1, 10000⟩] := by decide +kernel
  obtain ⟨c, hc, hrows⟩ := Option.map_eq_some_iff.1 hend
  refine ⟨c.table, History.noFile.run true (Run.of_runAll hc), hrows, fun h => ?_⟩
  have hoff := (h.offline ⟨['a'], ['x'], 1, 11, 1, 10000⟩ (by
    show _ ∈ c.table.rows
    rw [hrows]
    exact List.mem_singleton_self _)).1
  exact absurd hoff (by decide)

end

end Micropayment
