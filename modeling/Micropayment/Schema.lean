import Micropayment.Database

/-!
# The schema of the table (`sync_schema`)

Each member function of `Database` opens the file anew and begins with `sync_schema`, which compares
the columns of the table with those of `connect` (`schemaStatus`) and creates the table, drops and
creates it, or alters it. `Synced` has the statements of `sync_schema` before those of the call, one
at a time. What the ALTER statements do is the parameter `alter`: the tables of this program are
never altered.
-/

set_option autoImplicit false

namespace Micropayment

structure TableInfo where
  name : Str
  type : Str
  notnull : Bool
  dfltValue : Str
  pk : Int
  deriving DecidableEq, Repr

inductive SyncSchemaResult where
  | newTableCreated
  | alreadyInSync
  | oldColumnsRemoved
  | newColumnsAdded
  | newColumnsAddedAndOldColumnsRemoved
  | droppedAndRecreated
  deriving DecidableEq, Repr

/-- `columnsAreEqual`: neither the types nor the texts of the defaults count. -/
def columnsAreEqual (db storage : TableInfo) : Bool :=
  db.name = storage.name && db.notnull = storage.notnull &&
    (decide (0 < db.dfltValue.length) = decide (0 < storage.dfltValue.length)) && db.pk = storage.pk

/-- Whether a column differs, the columns to add, and what is left of `dbTableInfo`. The loop ends
at a column that differs. -/
def calculateRemoveAddColumns :
    List TableInfo → List TableInfo → Bool × List TableInfo × List TableInfo
  | [], dbTableInfo => (false, [], dbTableInfo)
  | column :: storageTableInfo, dbTableInfo =>
    match dbTableInfo.find? fun ti => ti.name = column.name with
    | some dbColumn =>
      if columnsAreEqual dbColumn column then
        calculateRemoveAddColumns storageTableInfo
          (dbTableInfo.eraseP fun ti => ti.name = column.name)
      else (true, [], dbTableInfo)
    | none =>
      let rest := calculateRemoveAddColumns storageTableInfo dbTableInfo
      (rest.1, column :: rest.2.1, rest.2.2)

/-- `schema_status` of a table that exists. `dropColumn` is `SQLITE_VERSION_NUMBER >= 3035000`. -/
def schemaStatus (dropColumn preserve : Bool) (storageTableInfo dbTableInfo : List TableInfo) :
    SyncSchemaResult :=
  let compared := calculateRemoveAddColumns storageTableInfo dbTableInfo
  let columnsToAdd := compared.2.1
  let excess := compared.2.2
  if compared.1 ∨ excess ≠ [] ∧ ¬preserve ∧ ¬dropColumn then .droppedAndRecreated
  else if columnsToAdd ≠ [] then
    if columnsToAdd.any fun column => column.notnull && column.dfltValue.isEmpty then
      .droppedAndRecreated
    else if excess ≠ [] then .newColumnsAddedAndOldColumnsRemoved
    else .newColumnsAdded
  else if excess ≠ [] then .oldColumnsRemoved
  else .alreadyInSync

/-- The columns of `connect`. -/
def clientTable : List TableInfo :=
  [⟨"username".toList, "TEXT".toList, true, [], 1⟩,
    ⟨"ip".toList, "TEXT".toList, true, [], 0⟩,
    ⟨"public_port".toList, "INTEGER".toList, true, [], 0⟩,
    ⟨"private_port".toList, "INTEGER".toList, true, [], 0⟩,
    ⟨"online_status".toList, "INTEGER".toList, true, [], 0⟩,
    ⟨"balance".toList, "INTEGER".toList, true, [], 0⟩]

/-- The columns of the CREATE TABLE in `Database::Database`. -/
def createdTable : List TableInfo :=
  [⟨"username".toList, "CHAR(50)".toList, true, [], 1⟩,
    ⟨"ip".toList, "CHAR(50)".toList, true, [], 0⟩,
    ⟨"public_port".toList, "INT".toList, false, [], 0⟩,
    ⟨"private_port".toList, "INT".toList, false, [], 0⟩,
    ⟨"online_status".toList, "INT".toList, false, [], 0⟩,
    ⟨"balance".toList, "NUMERIC".toList, false, [], 0⟩,
    ⟨"fd".toList, "INT".toList, false, [], 0⟩]

/-- The table of a file, if it has one. -/
abbrev Store := Option (List TableInfo × Table)

section
variable (dropColumn : Bool) (alter : List TableInfo × Table → Store)

/-- `Database::Database`, as one step. CREATE TABLE fails, with a message, where the table exists.
`none` is an exception of an ALTER. -/
def openDatabase (file : Store) (reset : Bool) : Store :=
  let opened := file.getD (createdTable, Keyed.empty)
  if reset then
    match schemaStatus dropColumn false clientTable opened.1 with
    | .alreadyInSync => some (opened.1, Keyed.empty)
    | .newTableCreated | .droppedAndRecreated => some (clientTable, Keyed.empty)
    | .oldColumnsRemoved | .newColumnsAdded | .newColumnsAddedAndOldColumnsRemoved =>
      (alter opened).map fun altered => (altered.1, Keyed.empty)
  else some opened

/-- The next statement of a thread. `call` are those of the member function itself. -/
inductive Phase where
  | tableExists
  | tableInfo
  | dropTable
  | createTable
  | alterTable
  | call
  | thrown
  deriving DecidableEq, Repr

/-- What `sync_table` does about the status. -/
def SyncSchemaResult.phase : SyncSchemaResult → Phase
  | newTableCreated => .createTable
  | alreadyInSync => .call
  | oldColumnsRemoved | newColumnsAdded | newColumnsAddedAndOldColumnsRemoved => .alterTable
  | droppedAndRecreated => .dropTable

/-- Threads in calls of the member functions, and the columns of the table they share; without
columns there is no table. -/
structure Synced (ι : Type) where
  columns : Option (List TableInfo)
  workers : Workers ι
  phase : ι → Phase

namespace Synced

variable {ι : Type} [DecidableEq ι]

def init (opened : Store) (calls : ι → Call) : Synced ι where
  columns := opened.map Prod.fst
  workers := Config.init (opened.elim Keyed.empty Prod.snd) fun i => (calls i).prog
  phase _ := .tableExists

/-- What is in the file when the process ends here. -/
def file (s : Synced ι) : Store := s.columns.map fun columns => (columns, s.workers.table)

def goto (s : Synced ι) (i : ι) (p : Phase) : Synced ι :=
  { s with phase := Function.update s.phase i p }

/-- A statement leaves `store`, and thread `i` goes on with `p`. -/
def left (s : Synced ι) (i : ι) (store : Store) (p : Phase) : Synced ι where
  columns := store.map Prod.fst
  workers := { s.workers with table := store.elim Keyed.empty Prod.snd }
  phase := Function.update s.phase i p

/-- The next statement of thread `i`. -/
def step (s : Synced ι) (i : ι) : Option (Synced ι) :=
  match s.phase i with
  | .tableExists =>
    some (s.goto i (if s.columns.isSome then .tableInfo
      else SyncSchemaResult.newTableCreated.phase))
  | .tableInfo =>
    some (s.goto i (schemaStatus dropColumn false clientTable (s.columns.getD [])).phase)
  | .dropTable =>
    some (if s.columns.isSome then s.left i none .createTable else s.goto i .thrown)
  | .createTable =>
    some (if s.columns.isSome then s.goto i .thrown
      else s.left i (some (clientTable, Keyed.empty)) .call)
  | .alterTable =>
    some (match s.file.bind alter with
      | some altered => s.left i (some altered) .call
      | none => s.goto i .thrown)
  | .call =>
    (s.workers.exec i).map fun workers =>
      if s.columns.isSome then { s with workers } else s.goto i .thrown
  | .thrown => none

end Synced

end

end Micropayment
