import Micropayment.Peer
import Micropayment.Proof.Bank
import Micropayment.Proof.Listener
import Micropayment.Proof.Serial

/-!
# What the messages do to the database

A step of the server makes at most one call that writes (`Server.callOf`), so the table after a run
is what the calls of its steps leave one after another (`table_history`), and what is known of
sequences of calls holds of the server and of the whole process. `kept_unless_paid` takes a property
of the bank all the way down: nobody's balance falls but by a transfer that names them as the payer.
-/

set_option autoImplicit false

namespace Micropayment

namespace Server

/-- The call that the `switch` makes for the command in `raw`. -/
def callIn (c : Conn) (raw : Str) : Option Call :=
  let item := parseCommand raw
  match item.1 with
  | .register => some (.register (arg item.2 1) c.clientip)
  | .login => (stoi (arg item.2 1)).toOption.map fun privatePort =>
      .login (arg item.2 0) c.clientip c.clientport privatePort
  | .transaction => (stod (arg item.2 1)).toOption.map fun pay =>
      .transaction (arg item.2 0) (arg item.2 2) pay
  | .exit => some (.logout c.clientip c.clientport)
  | .list | .err => none

/-- The call of a step that may write to the table. -/
def callOf (s : Server) : Action → Option Call
  | .accept _ _ => none
  | .hangup id => (s.conns.find? id).map fun c => .logout c.clientip c.clientport
  | .message id buffer _ => (s.conns.find? id).bind fun c =>
      if cStr buffer = [] then some (.logout c.clientip c.clientport) else callIn c (cStr buffer)

/-- The calls of the steps, in their order. -/
def calls : Server → List Action → List Call
  | _, [] => []
  | s, a :: as => (s.callOf a).toList ++ (s.step a).elim [] fun s' => calls s' as

end Server

/-- The table after calls one after another. -/
def applyCalls (t : Table) (calls : List Call) : Table :=
  calls.foldl (fun t c => (c.prog.run t).2) t

namespace Server

variable {s s' : Server} {a : Action}

theorem handle_table (s : Server) (c : Conn) (raw : Str) :
    (s.handle c raw).table = applyCalls s.table (callIn c raw).toList := by
  unfold handle callIn
  dsimp only
  cases hcmd : (parseCommand raw).1 with
  | register | list | exit | err => rfl
  | login =>
    dsimp only
    unfold loginCase
    cases hp : stoi (arg (parseCommand raw).2 1) with
    | error e => rfl
    | ok privatePort =>
      dsimp only
      split
      all_goals rfl
  | transaction =>
    dsimp only
    unfold transactionCase
    cases hn : stod (arg (parseCommand raw).2 1) with
    | error e => rfl
    | ok pay => rfl

/-- **A step of the server** does to the table what its call does. -/
theorem step_table (h : s.step a = some s') :
    s'.table = applyCalls s.table (s.callOf a).toList := by
  cases a with
  | accept ip port =>
    obtain rfl := step_accept h
    rfl
  | hangup id =>
    obtain ⟨c, hc, rfl⟩ := Option.map_eq_some_iff.1 h
    simp only [callOf, hc]
    rfl
  | message id buffer resume =>
    obtain ⟨c, hc, rfl⟩ := Option.map_eq_some_iff.1 h
    simp only [callOf, hc, Option.bind_some, iteration]
    split
    · rfl
    · exact handle_table s c (cStr buffer)

theorem run_table {as : List Action} (h : Run step Any s as s') :
    s'.table = applyCalls s.table (s.calls as) := by
  induction h with
  | nil => rfl
  | @cons s s₁ s' a as _ hs _ ih =>
    rw [ih, step_table hs]
    simp only [calls, hs, Option.elim_some, applyCalls, List.foldl_append]

end Server

theorem Funded.applyCalls {t : Table} (h : Funded t) (calls : List Call) :
    Funded (applyCalls t calls) := by
  induction calls generalizing t with
  | nil => exact h
  | cons c calls ih => exact ih (h.exec rfl)

/-- **The table of a server** that was started on an empty one is what its calls leave; so every
row has the session of its last login or none, and no more money than was given out. -/
theorem table_history {as : List Action} {s : Server}
    (h : Run Server.step Any (Server.init Keyed.empty) as s) :
    s.table = tableAfter ((Server.init Keyed.empty).calls as) ∧
      ∀ r ∈ s.table.rows, WellFormed ((Server.init Keyed.empty).calls as) r ∧
        0 ≤ r.balance ∧ r.balance ≤ 10000 * s.table.rows.length := by
  have htable : s.table = tableAfter ((Server.init Keyed.empty).calls as) := Server.run_table h
  refine ⟨htable, fun r hr => ?_⟩
  rw [htable] at hr ⊢
  exact ⟨wellFormed_tableAfter _ r hr, balance_le_total _ hr⟩

theorem table_history_two : ∃ s : Server,
    Run Server.step Any (Server.init Keyed.empty)
        [.accept ['1'] 5, .message 0 "REGISTER#a".toList true, .message 0 "a#7".toList true] s ∧
      s.table = tableAfter ((Server.init Keyed.empty).calls
        [.accept ['1'] 5, .message 0 "REGISTER#a".toList true, .message 0 "a#7".toList true]) := by
  obtain ⟨s, hs⟩ := Option.isSome_iff_exists.1 (by decide +kernel :
    (runAll Server.step (Server.init Keyed.empty)
      [.accept ['1'] 5, .message 0 "REGISTER#a".toList true,
        .message 0 "a#7".toList true]).isSome = true)
  exact ⟨s, Run.of_runAll hs, (table_history (Run.of_runAll hs)).1⟩

/-! ## Down from the bank -/

/-- A transfer that the database carries out for the bank's request. -/
theorem transfers_of_granted {t : Table} {snd rcv : Str} {pay : ℚ}
    (h : (bankOf t).answer (.transfer snd rcv ⌈pay⌉ ⌊pay⌋) = .granted) :
    ∃ s r, Transfers t snd rcv pay s r := by
  have hans := answer_eq t (.transaction snd rcv pay)
  rw [Call.request, h, Status.answer_granted] at hans
  rcases (Call.transaction snd rcv pay).outcome t with ⟨hcode, -⟩ | ⟨_, _, hc, -⟩ |
    ⟨_, _, _, _, _, hc, -⟩ | ⟨_, _, _, hc, -⟩ | ⟨snd', rcv', pay', s, r, hc, ht, -⟩
  · omega
  · cases hc
  · cases hc
  · cases hc
  · cases hc
    exact ⟨s, r, ht⟩

/-- A step that carries out no transfer by `u` asks the bank for none. -/
theorem spares_of_debitOf {u : Str} {s : Server} {a : Action} (h : debitOf u s a = []) :
    ∀ x ∈ s.callOf a, Bank.Spares u (bankOf s.table) x.request := by
  have hswitch : ∀ c raw, (∀ pay, (parseCommand raw).1 = .transaction →
      stod (arg (parseCommand raw).2 1) = .ok pay → arg (parseCommand raw).2 0 = u →
        ((userTransaction u (arg (parseCommand raw).2 2) pay).run s.table).1 ≠ .transferOk) →
      ∀ x ∈ Server.callIn c raw, Bank.Spares u (bankOf s.table) x.request := by
    intro c raw hno x hx
    simp only [Server.callIn] at hx
    cases hcmd : (parseCommand raw).1 with
    | register | exit =>
      rw [hcmd] at hx
      cases hx
      trivial
    | list | err =>
      rw [hcmd] at hx
      cases hx
    | login =>
      rw [hcmd] at hx
      obtain ⟨privatePort, -, rfl⟩ := Option.map_eq_some_iff.1 hx
      trivial
    | transaction =>
      rw [hcmd] at hx
      obtain ⟨pay, hpay, rfl⟩ := Option.map_eq_some_iff.1 hx
      intro hans
      obtain ⟨sender, receiver, ht⟩ := transfers_of_granted hans
      refine ⟨fun hu => ?_, Int.floor_nonneg.2 ht.pos.le⟩
      have hok : stod (arg (parseCommand raw).2 1) = .ok pay := by
        cases hn : stod (arg (parseCommand raw).2 1) with
        | error e =>
          rw [hn] at hpay
          cases hpay
        | ok q =>
          rw [hn] at hpay
          cases hpay
          rfl
      apply hno pay hcmd hok hu
      rw [← hu, ht.run]
  intro x hx
  cases a with
  | accept => cases hx
  | hangup id =>
    obtain ⟨c, -, rfl⟩ := Option.map_eq_some_iff.1 hx
    trivial
  | message id buffer resume =>
    obtain ⟨c, -, hx⟩ := Option.bind_eq_some_iff.1 hx
    split at hx
    · cases hx
      trivial
    · refine hswitch c _ (fun pay hcmd hok hu hst => ?_) x hx
      simp [debitOf, hcmd, hok, hu, hst] at h

namespace Listener

variable {ι : Type} [DecidableEq ι] [Fintype ι] {l l' : Listener ι}

/-- The step carries out no transfer that `u` pays. -/
def Unpaid (u : Str) (l : Listener ι) (e : Arrival ι) : Prop :=
  ∀ a ∈ l.action e, debitOf u l.server a = []

/-- The process and the bank that its table stands for, as long as no money is owed. -/
def Stands (l : Listener ι) (b : Bank Str (Str × Int) Int Int) : Prop :=
  Funded l.server.table ∧ bankOf l.server.table = b

theorem Stands.step {u : Str} {e : Arrival ι} {b : Bank Str (Str × Int) Int Int} (h : Stands l b)
    (hg : Unpaid u l e) (hs : l.step e = some l') :
    ∃ rs b', Run (Bank.step initialBalance) (Bank.Spares u) b rs b' ∧ Stands l' b' := by
  obtain ⟨hf, rfl⟩ := h
  rcases step_server hs with ⟨-, he⟩ | ⟨a, ha, hs⟩
  · refine ⟨[], _, .nil _, ?_⟩
    unfold Stands
    rw [he]
    exact ⟨hf, rfl⟩
  · have htable := Server.step_table hs
    have hspares := spares_of_debitOf (hg a ha)
    unfold Stands
    rw [htable]
    cases hx : l.server.callOf a with
    | none => exact ⟨[], _, .nil _, hf, rfl⟩
    | some x =>
      rw [hx] at hspares
      exact ⟨[x.request], _, .one (hspares x rfl) rfl, hf.applyCalls [x], bankOf_run hf x⟩

/-- **Nobody loses money but by paying**: as long as the process carries out no transfer that names
`u` as the payer, whatever else happens, `u` keeps the account and has no less money than before. -/
theorem kept_unless_paid {u : Str} {es : List (Arrival ι)} (hf : Funded l.server.table)
    (h : Run step (Unpaid u) l es l') {r : Client} (hr : l.server.table.find? u = some r) :
    ∃ r', l'.server.table.find? u = some r' ∧ r.balance ≤ r'.balance := by
  have hsim : ∀ (l : Listener ι) e l' b, Stands l b → Unpaid u l e → l.step e = some l' →
      ∃ rs b', Run (Bank.step initialBalance) (Bank.Spares u) b rs b' ∧ Stands l' b' :=
    fun _ _ _ _ h hg hs => h.step hg hs
  obtain ⟨rs, b', hrun, -, rfl⟩ := h.sim hsim ⟨hf, rfl⟩
  obtain ⟨m, hm, hle⟩ := Bank.balance_mono hrun (bankOf_balance hr)
  obtain ⟨r', hr', rfl⟩ := Option.map_eq_some_iff.1 hm
  exact ⟨r', hr', hle⟩

instance (u : Str) (l : Listener ι) (e : Arrival ι) : Decidable (Unpaid u l e) :=
  inferInstanceAs (Decidable (∀ a ∈ l.action e, debitOf u l.server a = []))

/-- `d` registers on a connection; `a` has 1000 coins. -/
theorem kept_unless_paid_join : ∃ l l' : Listener Unit,
    Run step (Unpaid ['a']) l (oneServed ++ [.message () "REGISTER#d".toList true]) l' ∧
      ∃ r', l'.server.table.find? ['a'] = some r' ∧ 1000 ≤ r'.balance := by
  obtain ⟨l', -, h⟩ := Run.of_allowed (by decide +kernel :
    allowed step (Unpaid ['a']) (Listener.init threeUsers : Listener Unit)
      (oneServed ++ [.message () "REGISTER#d".toList true]) = true)
  have hf : Funded threeUsers := (by decide : ∀ r ∈ threeUsers.rows, 0 ≤ r.balance)
  have hr : threeUsers.find? ['a'] = some ⟨['a'], ['x'], 1, 11, 1, 1000⟩ := by decide
  exact ⟨_, l', h, kept_unless_paid hf h hr⟩

end Listener

end Micropayment
