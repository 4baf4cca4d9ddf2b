import SshLogger.Library.Bytes
import Mathlib.Order.Defs.Unbundled

/-! Databases of named tables under the statements that set them up and migrate
them. A statement refers to tables and columns by name and fails when one is
missing or already there. -/

namespace Library.Schema

inductive Value
  | null
  | integer (value : Int)
  | text (bytes : Bytes)
  deriving DecidableEq, Repr

/-- A column with its declared type and constraints. -/
structure Column where
  name : String
  declared : String
  deriving DecidableEq, Repr

structure Table where
  name : String
  columns : List Column
  constraints : List String
  rows : List (List Value)
  deriving DecidableEq, Repr

structure Index where
  name : String
  table : String
  keys : List String
  deriving DecidableEq, Repr

structure Database where
  tables : List Table
  indexes : List Index
  deriving DecidableEq, Repr

namespace Table

def position (t : Table) (column : String) : Option Nat := t.columns.findIdx? fun c => c.name == column

def cell (t : Table) (column : String) (row : List Value) : Value :=
  ((t.position column).bind fun i => row[i]?).getD .null

def assign (t : Table) (column : String) (value : Value) (row : List Value) : List Value :=
  match t.position column with
  | none => row
  | some i => row.set i value

end Table

namespace Database

def table? (db : Database) (name : String) : Option Table := db.tables.find? fun t => t.name == name

def has (db : Database) (name : String) : Bool := (db.table? name).isSome

def hasIndex (db : Database) (name : String) : Bool := db.indexes.any fun i => i.name == name

def modify (db : Database) (name : String) (change : Table → Table) : Database :=
  { db with tables := db.tables.map fun t => if t.name == name then change t else t }

end Database

abbrev Statement := Database → Except String Database

def run : List Statement → Statement
  | [], db => .ok db
  | statement :: rest, db =>
    match statement db with
    | .error problem => .error problem
    | .ok db => run rest db

def onTable (name : String) (body : Table → Except String Database) (db : Database) : Except String Database :=
  match db.table? name with
  | none => .error ("no such table: " ++ name)
  | some t => body t

/-- `CREATE TABLE` and, when `again` is allowed, `CREATE TABLE IF NOT EXISTS`. -/
def createTable (again : Bool) (name : String) (columns : List Column) (constraints : List String) : Statement := fun db =>
  if !db.has name then .ok { db with tables := db.tables ++ [⟨name, columns, constraints, []⟩] }
  else if again then .ok db
  else .error ("table " ++ name ++ " already exists")

def createIndex (again : Bool) (name table : String) (keys : List String) : Statement := fun db =>
  onTable table (fun _ =>
    if !db.hasIndex name then .ok { db with indexes := db.indexes ++ [⟨name, table, keys⟩] }
    else if again then .ok db
    else .error ("index " ++ name ++ " already exists")) db

def dropTable (name : String) : Statement := fun db =>
  onTable name (fun _ => .ok {
    tables := db.tables.filter fun t => t.name != name
    indexes := db.indexes.filter fun i => i.table != name }) db

/-- `ALTER TABLE ... ADD COLUMN`, which is `NULL` in the rows there are. -/
def addColumn (name : String) (column : Column) : Statement := fun db =>
  onTable name (fun t =>
    if (t.position column.name).isSome then .error ("duplicate column name: " ++ column.name)
    else .ok (db.modify name fun t =>
      { t with columns := t.columns ++ [column], rows := t.rows.map fun row => row ++ [.null] })) db

/-- `UPDATE ... SET column = value`. -/
def updateAll (name column : String) (value : Value) : Statement := fun db =>
  onTable name (fun t =>
    if (t.position column).isNone then .error ("no such column: " ++ column)
    else .ok (db.modify name fun t => { t with rows := t.rows.map (t.assign column value) })) db

/-- `INSERT INTO ... SELECT ... WHERE NOT EXISTS(SELECT 1 FROM ...)`. -/
def insertIfEmpty (name : String) (row : List Value) : Statement := fun db =>
  onTable name (fun t => match t.rows with
    | [] => .ok (db.modify name fun t => { t with rows := [row] })
    | _ :: _ => .ok db) db

/-- `INSERT OR IGNORE INTO ... VALUES(...)`, where `key` is the primary key. -/
def insertOrIgnore (name key : String) (row : List Value) : Statement := fun db =>
  onTable name (fun t =>
    if t.rows.any fun old => t.cell key old == t.cell key row then .ok db
    else .ok (db.modify name fun t => { t with rows := t.rows ++ [row] })) db

/-- `INSERT OR IGNORE INTO ... SELECT ... FROM source`. -/
def insertSelect (name key source : String) (select : Table → List Value → List Value) : Statement := fun db =>
  onTable source (fun t => run (t.rows.map fun row => insertOrIgnore name key (select t row)) db) db

/-- `INSERT INTO ... VALUES(...)`, where `key` is the primary key. -/
def insert (name key : String) (row : List Value) : Statement := fun db =>
  onTable name (fun t =>
    if row.length ≠ t.columns.length then
      .error ("table " ++ name ++ " has " ++ toString t.columns.length ++ " columns but " ++ toString row.length ++
        " values were supplied")
    else if t.rows.any fun old => t.cell key old == t.cell key row then
      .error ("UNIQUE constraint failed: " ++ name ++ "." ++ key)
    else .ok (db.modify name fun t => { t with rows := t.rows ++ [row] })) db

def selectFirst (name column : String) (db : Database) : Except String (Option Value) :=
  match db.table? name with
  | none => .error ("no such table: " ++ name)
  | some t =>
    if (t.position column).isNone then .error ("no such column: " ++ column)
    else .ok (t.rows.head?.map (t.cell column))

theorem Table.cell_assign (t : Table) {column other : String} (different : column ≠ other) (value : Value)
    (row : List Value) : t.cell column (t.assign other value row) = t.cell column row := by
  simp only [Table.cell, Table.assign]
  cases written : t.position other with
  | none => rfl
  | some j =>
    cases read : t.position column with
    | none => rfl
    | some i =>
      obtain ⟨inside, own, -⟩ := List.findIdx?_eq_some_iff_getElem.mp read
      obtain ⟨also, named, -⟩ := List.findIdx?_eq_some_iff_getElem.mp written
      simp only [beq_iff_eq] at own named
      have apart : j ≠ i := by
        rintro rfl
        exact different (own.symm.trans named)
      simp [List.getElem?_set_ne apart]

theorem run_append {first second : List Statement} {db after : Database} :
    run (first ++ second) db = .ok after ↔ ∃ middle, run first db = .ok middle ∧ run second middle = .ok after := by
  induction first generalizing db with
  | nil => simp [run]
  | cons statement rest ih =>
    simp only [List.cons_append, run]
    cases statement db with
    | error problem => simp
    | ok middle => exact ih

theorem run_cons {statement : Statement} {rest : List Statement} {db after : Database} :
    run (statement :: rest) db = .ok after ↔ ∃ middle, statement db = .ok middle ∧ run rest middle = .ok after := by
  simp only [run]
  cases statement db <;> simp

/-- Statements that each relate the states before and after them do so together. -/
theorem run_related {relation : Database → Database → Prop} [IsPreorder Database relation] {statements : List Statement}
    (each : ∀ statement ∈ statements, ∀ db after, statement db = .ok after → relation db after) {db after : Database}
    (ran : run statements db = .ok after) : relation db after := by
  induction statements generalizing db with
  | nil =>
    obtain rfl := Except.ok.inj ran
    exact refl_of relation db
  | cons statement rest ih =>
    obtain ⟨middle, first, more⟩ := run_cons.mp ran
    exact trans_of relation (each statement List.mem_cons_self _ _ first)
      (ih (fun other member => each other (List.mem_cons_of_mem _ member)) more)

/-- A fact that every statement keeps. -/
theorem run_keeps {fact : Database → Prop} {statements : List Statement}
    (each : ∀ statement ∈ statements, ∀ db after, statement db = .ok after → fact db → fact after) {db after : Database}
    (ran : run statements db = .ok after) (holds : fact db) : fact after := by
  induction statements generalizing db with
  | nil => exact Except.ok.inj ran ▸ holds
  | cons statement rest ih =>
    obtain ⟨middle, first, more⟩ := run_cons.mp ran
    exact ih (fun other member => each other (List.mem_cons_of_mem _ member)) more (each _ List.mem_cons_self _ _ first holds)

/-- The effects of a statement that drops nothing on the tables of one name. -/
inductive Effect (name : String) (db : Database) : Database → Prop
  | kept : Effect name db db
  | table (t : Table) : t.name = name → Effect name db { db with tables := db.tables ++ [t] }
  | index (i : Index) : Effect name db { db with indexes := db.indexes ++ [i] }
  | changed (change : Table → Table) : (∀ t, (change t).name = t.name) → Effect name db (db.modify name change)

variable {name other : String} {db after : Database}

theorem table?_append (t : Table) : ({ db with tables := db.tables ++ [t] } : Database).table? other =
    (db.table? other).or (if t.name = other then some t else none) := by
  simp [Database.table?, List.find?_append, List.find?_singleton]

theorem table?_modify (change : Table → Table) (named : ∀ t, (change t).name = t.name) :
    (db.modify name change).table? other = if other = name then (db.table? name).map change else db.table? other := by
  have found : ((fun t : Table => t.name == other) ∘ fun t => if t.name == name then change t else t) =
      fun t => t.name == other := by
    funext t
    simp only [Function.comp_apply]
    split <;> simp [named]
  simp only [Database.table?, Database.modify, List.find?_map, found]
  split
  next same =>
    subst same
    cases there : db.tables.find? fun t => t.name == other with
    | none => rfl
    | some t =>
      have own : t.name = other := by simpa using List.find?_some there
      simp [own]
  next different =>
    cases there : db.tables.find? fun t => t.name == other with
    | none => rfl
    | some t =>
      have own : t.name = other := by simpa using List.find?_some there
      simp [own, different]

theorem Effect.frame (effect : Effect name db after) (different : other ≠ name) : after.table? other = db.table? other := by
  cases effect with
  | kept => rfl
  | table t own => rw [table?_append, if_neg (by simp [own, Ne.symm different]), Option.or_none]
  | index => rfl
  | changed change named => rw [table?_modify change named, if_neg different]

theorem Effect.has (effect : Effect name db after) (there : db.has other = true) : after.has other = true := by
  simp only [Database.has] at there ⊢
  cases effect with
  | kept => exact there
  | table t own =>
    rw [table?_append, Option.isSome_or, there, Bool.true_or]
  | index => exact there
  | changed change named =>
    rw [table?_modify change named]
    split
    next same => rw [Option.isSome_map, ← same, there]
    · exact there

theorem Effect.misses (effect : Effect name db after) (different : other ≠ name) (missing : db.has other = false) :
    after.has other = false := by
  rw [Database.has, effect.frame different]
  exact missing

theorem onTable_ok {body : Table → Except String Database} (ran : onTable name body db = .ok after) :
    ∃ t, db.table? name = some t ∧ body t = .ok after := by
  simp only [onTable] at ran
  split at ran
  · cases ran
  next t there => exact ⟨t, there, ran⟩

theorem createTable_effect {again : Bool} {columns : List Column} {constraints : List String}
    (ran : createTable again name columns constraints db = .ok after) : Effect name db after ∧ after.has name = true := by
  simp only [createTable] at ran
  split at ran
  · obtain rfl := Except.ok.inj ran
    refine ⟨.table _ rfl, ?_⟩
    simp only [Database.has]
    rw [table?_append, if_pos rfl, Option.isSome_or, Option.isSome_some, Bool.or_true]
  next there =>
    split at ran
    · obtain rfl := Except.ok.inj ran
      exact ⟨.kept, by simpa using there⟩
    · cases ran

theorem createTable_present {again : Bool} {columns : List Column} {constraints : List String}
    (there : db.has name = true) (ran : createTable again name columns constraints db = .ok after) : after = db := by
  simp only [createTable, there, Bool.not_true, Bool.false_eq_true, if_false] at ran
  split at ran
  · exact (Except.ok.inj ran).symm
  · cases ran

theorem createIndex_effect {again : Bool} {index : String} {keys : List String}
    (ran : createIndex again index name keys db = .ok after) : Effect name db after ∧ after.tables = db.tables := by
  obtain ⟨t, -, done⟩ := onTable_ok ran
  split at done
  · obtain rfl := Except.ok.inj done
    exact ⟨.index _, rfl⟩
  · split at done
    · obtain rfl := Except.ok.inj done
      exact ⟨.kept, rfl⟩
    · cases done

theorem addColumn_effect {column : Column} (ran : addColumn name column db = .ok after) : Effect name db after := by
  obtain ⟨t, -, done⟩ := onTable_ok ran
  split at done
  · cases done
  · exact Except.ok.inj done ▸ .changed _ fun _ => rfl

theorem updateAll_effect {column : String} {value : Value} (ran : updateAll name column value db = .ok after) :
    Effect name db after := by
  obtain ⟨t, -, done⟩ := onTable_ok ran
  split at done
  · cases done
  · exact Except.ok.inj done ▸ .changed _ fun _ => rfl

theorem insertIfEmpty_effect {row : List Value} (ran : insertIfEmpty name row db = .ok after) : Effect name db after := by
  obtain ⟨t, -, done⟩ := onTable_ok ran
  split at done
  · exact Except.ok.inj done ▸ .changed _ fun _ => rfl
  · exact Except.ok.inj done ▸ .kept

theorem insertOrIgnore_effect {key : String} {row : List Value} (ran : insertOrIgnore name key row db = .ok after) :
    Effect name db after := by
  obtain ⟨t, -, done⟩ := onTable_ok ran
  split at done
  · exact Except.ok.inj done ▸ .kept
  · exact Except.ok.inj done ▸ .changed _ fun _ => rfl

theorem dropTable_frame (ran : dropTable name db = .ok after) (different : other ≠ name) :
    after.table? other = db.table? other := by
  obtain ⟨t, -, done⟩ := onTable_ok ran
  obtain rfl := Except.ok.inj done
  simp only [Database.table?]
  rw [List.find?_filter]
  refine congrArg (List.find? · db.tables) (funext fun t => ?_)
  by_cases own : t.name = other
  · simp [own, different]
  · simp [own]

def Frame (kept : String) (db after : Database) : Prop := after.table? kept = db.table? kept

instance (kept : String) : IsPreorder Database (Frame kept) where
  refl _ := rfl
  trans _ _ _ first second := second.trans first

def Grows (db after : Database) : Prop := ∀ name, db.has name = true → after.has name = true

instance : IsPreorder Database Grows where
  refl _ _ := id
  trans _ _ _ first second name there := second name (first name there)

theorem insertSelect_related {relation : Database → Database → Prop} [IsPreorder Database relation]
    {key source : String} {select : Table → List Value → List Value}
    (each : ∀ db after, Effect name db after → relation db after)
    (ran : insertSelect name key source select db = .ok after) : relation db after := by
  obtain ⟨t, -, done⟩ := onTable_ok ran
  refine run_related (fun statement member db after ran => each db after ?_) done
  obtain ⟨row, -, rfl⟩ := List.mem_map.mp member
  exact insertOrIgnore_effect ran

/-- What one statement establishes and none of the others undoes. -/
theorem run_establishes {fact : Database → Prop} {statement : Statement} {statements : List Statement}
    (listed : statement ∈ statements) (established : ∀ db after, statement db = .ok after → fact after)
    (each : ∀ statement ∈ statements, ∀ db after, statement db = .ok after → fact db → fact after)
    (ran : run statements db = .ok after) : fact after := by
  obtain ⟨earlier, later, rfl⟩ := List.append_of_mem listed
  obtain ⟨middle, -, rest⟩ := run_append.mp ran
  obtain ⟨next, now, more⟩ := run_cons.mp rest
  exact run_keeps (fun other member => each other (List.mem_append_right _ (List.mem_cons_of_mem _ member))) more
    (established _ _ now)

/-- Statements that find nothing to do leave the tables as they are. -/
theorem run_still {statements : List Statement} {tables : List Table}
    (each : ∀ statement ∈ statements, ∀ db : Database, db.tables = tables →
      ∃ after, statement db = .ok after ∧ after.tables = tables) (same : db.tables = tables) :
    ∃ after, run statements db = .ok after ∧ after.tables = tables := by
  induction statements generalizing db with
  | nil => exact ⟨db, rfl, same⟩
  | cons statement rest ih =>
    obtain ⟨middle, first, kept⟩ := each statement List.mem_cons_self db same
    obtain ⟨after, more, still⟩ := ih (fun other member => each other (List.mem_cons_of_mem _ member)) kept
    exact ⟨after, run_cons.mpr ⟨middle, first, more⟩, still⟩

theorem createTable_new {again : Bool} {columns : List Column} {constraints : List String} (missing : db.has name = false)
    (ran : createTable again name columns constraints db = .ok after) :
    after.table? name = some ⟨name, columns, constraints, []⟩ := by
  simp only [createTable, missing] at ran
  obtain rfl := Except.ok.inj ran
  simp only [Database.has, Option.isSome_eq_false_iff, Option.isNone_iff_eq_none] at missing
  rw [table?_append, missing, if_pos rfl, Option.none_or]

theorem dropTable_gone (ran : dropTable name db = .ok after) : after.has name = false := by
  obtain ⟨t, -, done⟩ := onTable_ok ran
  obtain rfl := Except.ok.inj done
  simp [Database.has, Database.table?]

/-- Only the tables of the first names are changed, and only tables and indexes of the
other names are new. -/
structure Changes (touched created indexes : List String) (db after : Database) : Prop where
  keeps : ∀ name t, name ∉ touched → db.table? name = some t → after.table? name = some t
  adds : ∀ name, name ∉ created → db.has name = false → after.has name = false
  indexed : ∀ i ∈ after.indexes, i ∈ db.indexes ∨ i.name ∈ indexes

section Changes
variable {touched created indexes : List String}

instance : IsPreorder Database (Changes touched created indexes) where
  refl _ := ⟨fun _ _ _ => id, fun _ _ => id, fun _ => .inl⟩
  trans _ _ _ first second := {
    keeps := fun name t outside there => second.keeps name t outside (first.keeps name t outside there)
    adds := fun name outside missing => second.adds name outside (first.adds name outside missing)
    indexed := fun i member => (second.indexed i member).elim (first.indexed i) .inr }

/-- An index that was not there still is not. -/
theorem hasIndex_free (indexed : ∀ i ∈ after.indexes, i ∈ db.indexes ∨ i.name ∈ indexes) {index : String}
    (other : index ∉ indexes) (free : db.hasIndex index = false) : after.hasIndex index = false := by
  simp only [Database.hasIndex, List.any_eq_false, beq_iff_eq] at free ⊢
  intro i member own
  rcases indexed i member with old | listed
  · exact free i old own
  · exact other (own ▸ listed)

theorem modify_changes (listed : name ∈ touched) (change : Table → Table) (named : ∀ t, (change t).name = t.name) :
    Changes touched created indexes db (db.modify name change) := by
  have effect : Effect name db (db.modify name change) := .changed change named
  refine ⟨fun other t outside there => ?_, fun other _ missing => ?_, fun _ => .inl⟩
  · rw [effect.frame (ne_of_mem_of_not_mem listed outside).symm, there]
  · simp only [Database.has] at missing ⊢
    rw [table?_modify change named]
    split
    next same => rw [Option.isSome_map, ← same, missing]
    · exact missing

theorem createTable_changes {again : Bool} {columns : List Column} {constraints : List String}
    (ran : createTable again name columns constraints db = .ok after) (listed : name ∈ created) :
    Changes touched created indexes db after := by
  cases there : db.has name with
  | true => exact createTable_present there ran ▸ refl_of (Changes touched created indexes) db
  | false =>
    simp only [createTable, there] at ran
    obtain rfl := Except.ok.inj ran
    refine ⟨fun other t _ known => ?_, fun other outside missing => ?_, fun _ => .inl⟩
    · rw [table?_append, known, Option.some_or]
    · simp only [Database.has] at missing ⊢
      rw [table?_append, Option.isSome_or, missing, if_neg (ne_of_mem_of_not_mem listed outside)]
      rfl

theorem createIndex_changes {again : Bool} {index : String} {keys : List String}
    (ran : createIndex again index name keys db = .ok after) (listed : index ∈ indexes) :
    Changes touched created indexes db after := by
  obtain ⟨t, -, done⟩ := onTable_ok ran
  split at done
  · obtain rfl := Except.ok.inj done
    refine ⟨fun _ _ _ => id, fun _ _ => id, fun i member => ?_⟩
    rcases List.mem_append.mp member with old | new
    · exact .inl old
    · rw [List.mem_singleton.mp new]
      exact .inr listed
  · split at done
    · exact Except.ok.inj done ▸ refl_of (Changes touched created indexes) db
    · cases done

theorem dropTable_changes (ran : dropTable name db = .ok after) (listed : name ∈ touched) :
    Changes touched created indexes db after ∧ ∀ i ∈ after.indexes, i ∈ db.indexes ∧ i.table ≠ name := by
  have frame : ∀ other, other ≠ name → after.table? other = db.table? other := fun _ => dropTable_frame ran
  have gone := dropTable_gone ran
  obtain ⟨t, -, done⟩ := onTable_ok ran
  obtain rfl := Except.ok.inj done
  refine ⟨⟨fun other t outside there => ?_, fun other _ missing => ?_, fun i member => ?_⟩, fun i member => ?_⟩
  · rw [frame other (ne_of_mem_of_not_mem listed outside).symm, there]
  · by_cases same : other = name
    · rw [same, gone]
    · rw [Database.has, frame other same]
      exact missing
  · exact .inl (List.mem_of_mem_filter member)
  · simpa using member

theorem addColumn_changes {column : Column} (ran : addColumn name column db = .ok after) (listed : name ∈ touched) :
    Changes touched created indexes db after := by
  obtain ⟨t, -, done⟩ := onTable_ok ran
  split at done
  · cases done
  · exact Except.ok.inj done ▸ modify_changes listed _ fun _ => rfl

theorem updateAll_changes {column : String} {value : Value} (ran : updateAll name column value db = .ok after)
    (listed : name ∈ touched) : Changes touched created indexes db after := by
  obtain ⟨t, -, done⟩ := onTable_ok ran
  split at done
  · cases done
  · exact Except.ok.inj done ▸ modify_changes listed _ fun _ => rfl

theorem insertIfEmpty_changes {row : List Value} (ran : insertIfEmpty name row db = .ok after) (listed : name ∈ touched) :
    Changes touched created indexes db after := by
  obtain ⟨t, -, done⟩ := onTable_ok ran
  split at done
  · exact Except.ok.inj done ▸ modify_changes listed _ fun _ => rfl
  · exact Except.ok.inj done ▸ refl_of (Changes touched created indexes) db

theorem insertOrIgnore_changes {key : String} {row : List Value} (ran : insertOrIgnore name key row db = .ok after)
    (listed : name ∈ touched) : Changes touched created indexes db after := by
  obtain ⟨t, -, done⟩ := onTable_ok ran
  split at done
  · exact Except.ok.inj done ▸ refl_of (Changes touched created indexes) db
  · exact Except.ok.inj done ▸ modify_changes listed _ fun _ => rfl

theorem insertSelect_changes {key source : String} {select : Table → List Value → List Value}
    (ran : insertSelect name key source select db = .ok after) (listed : name ∈ touched) :
    Changes touched created indexes db after := by
  obtain ⟨t, -, done⟩ := onTable_ok ran
  refine run_related (fun statement member db after ran => ?_) done
  obtain ⟨row, -, rfl⟩ := List.mem_map.mp member
  exact insertOrIgnore_changes ran listed

end Changes

theorem Table.position_names (t : Table) (column : String) :
    t.position column = (t.columns.map Column.name).findIdx? fun name => name == column := by
  simp [Table.position, List.findIdx?_map, Function.comp_def]

/-- The table with further columns, which are `NULL` in the rows there are. -/
def Table.widen (added : List Column) (t : Table) : Table :=
  { t with columns := t.columns ++ added, rows := t.rows.map fun row => row ++ List.replicate added.length .null }

theorem Table.widen_widen (t : Table) (first second : List Column) :
    (t.widen first).widen second = t.widen (first ++ second) := by
  simp [Table.widen, List.append_assoc, Function.comp_def]

theorem Table.position_widen {t : Table} {added : List Column} {column : String} {i : Nat}
    (there : t.position column = some i) : (t.widen added).position column = some i := by
  simp only [Table.position] at there
  simp [Table.position, Table.widen, List.findIdx?_append, there]

theorem Table.position_widen_none {t : Table} {added : List Column} {column : String} (missing : t.position column = none)
    (other : ∀ c ∈ added, c.name ≠ column) : (t.widen added).position column = none := by
  simp only [Table.position] at missing
  simp only [Table.position, Table.widen, List.findIdx?_append, missing, Option.none_or, Option.map_eq_none_iff,
    List.findIdx?_eq_none_iff, beq_eq_false_iff_ne]
  exact other

/-- A column there was reads as before. -/
theorem Table.cell_widen {t : Table} {added : List Column} {column : String} (there : (t.position column).isSome = true)
    (row : List Value) :
    (t.widen added).cell column (row ++ List.replicate added.length .null) = t.cell column row := by
  obtain ⟨i, at_column⟩ := Option.isSome_iff_exists.mp there
  simp only [Table.cell, Table.position_widen at_column, at_column, Option.bind_some]
  by_cases inside : i < row.length
  · rw [List.getElem?_append_left inside]
  · rw [List.getElem?_append_right (by omega), List.getElem?_eq_none (show row.length ≤ i by omega), List.getElem?_replicate]
    split <;> rfl

/-- A column that is added is `NULL`. -/
theorem Table.cell_added {t : Table} {added : List Column} {column : String} (missing : t.position column = none)
    {row : List Value} (fits : row.length ≤ t.columns.length) :
    (t.widen added).cell column (row ++ List.replicate added.length .null) = .null := by
  simp only [Table.cell]
  cases at_column : (t.widen added).position column with
  | none => rfl
  | some i =>
    have beyond : t.columns.length ≤ i := by
      simp only [Table.position] at missing
      simp only [Table.position, Table.widen, List.findIdx?_append, missing, Option.none_or, Option.map_eq_some_iff] at at_column
      obtain ⟨j, -, rfl⟩ := at_column
      omega
    rw [Option.bind_some, List.getElem?_append_right (by omega), List.getElem?_replicate]
    split <;> rfl

theorem addColumn_widens {column : Column} (ran : addColumn name column db = .ok after) {t : Table}
    (there : db.table? name = some t) :
    t.position column.name = none ∧ after.table? name = some (t.widen [column]) := by
  obtain ⟨t', there', done⟩ := onTable_ok ran
  obtain rfl : t' = t := Option.some.inj (there'.symm.trans there)
  split at done
  · cases done
  next fresh =>
    obtain rfl := Except.ok.inj done
    refine ⟨by simpa using fresh, ?_⟩
    rw [table?_modify _ (by exact fun _ => rfl), if_pos rfl, there]
    rfl

theorem insertOrIgnore_rows {key : String} {row : List Value} (ran : insertOrIgnore name key row db = .ok after) {t : Table}
    (there : db.table? name = some t) : ∃ added, after.table? name = some { t with rows := t.rows ++ added } ∧
      (∀ new ∈ added, new = row) ∧ ∃ old ∈ t.rows ++ added, t.cell key old = t.cell key row := by
  obtain ⟨t', there', done⟩ := onTable_ok ran
  obtain rfl : t' = t := Option.some.inj (there'.symm.trans there)
  split at done
  next present =>
    obtain rfl := Except.ok.inj done
    obtain ⟨old, member, keyed⟩ := List.any_eq_true.mp present
    exact ⟨[], by simpa using there, by simp, old, by simpa using member, by simpa using keyed⟩
  · obtain rfl := Except.ok.inj done
    refine ⟨[row], ?_, by simp, row, by simp, rfl⟩
    rw [table?_modify _ (by exact fun _ => rfl), if_pos rfl, there]
    rfl

theorem insert_rows {key : String} {row : List Value} (ran : insert name key row db = .ok after) :
    ∃ t, db.table? name = some t ∧ after.table? name = some { t with rows := t.rows ++ [row] } ∧
      ∀ other, other ≠ name → after.table? other = db.table? other := by
  obtain ⟨t, there, done⟩ := onTable_ok ran
  split at done
  · cases done
  · split at done
    · cases done
    · obtain rfl := Except.ok.inj done
      refine ⟨t, there, ?_, fun other different => ?_⟩
      · rw [table?_modify _ (by exact fun _ => rfl), if_pos rfl, there]
        rfl
      · rw [table?_modify _ (by exact fun _ => rfl), if_neg different]

theorem insertRows_rows {key : String} {rows : List (List Value)} {t : Table}
    (ran : run (rows.map fun row => insertOrIgnore name key row) db = .ok after) (there : db.table? name = some t) :
    ∃ added, after.table? name = some { t with rows := t.rows ++ added } ∧ (∀ new ∈ added, new ∈ rows) ∧
      ∀ row ∈ rows, ∃ old ∈ t.rows ++ added, t.cell key old = t.cell key row := by
  induction rows generalizing db t with
  | nil =>
    obtain rfl := Except.ok.inj ran
    exact ⟨[], by simpa using there, by simp, by simp⟩
  | cons row rest ih =>
    obtain ⟨middle, first, more⟩ := run_cons.mp ran
    obtain ⟨mine, written, own, keyed⟩ := insertOrIgnore_rows first there
    obtain ⟨others, stored, listed, also⟩ := ih more written
    refine ⟨mine ++ others, by simpa [List.append_assoc] using stored, ?_, ?_⟩
    · intro new member
      rcases List.mem_append.mp member with here | later
      · simp [own new here]
      · exact List.mem_cons_of_mem _ (listed new later)
    · rw [List.forall_mem_cons]
      obtain ⟨old, member, same⟩ := keyed
      refine ⟨⟨old, ?_, same⟩, fun other member => ?_⟩
      · rw [← List.append_assoc]
        exact List.mem_append_left _ member
      · obtain ⟨old, member, same⟩ := also other member
        exact ⟨old, by simpa [List.append_assoc] using member, same⟩

/-- Every row of the source has a row of its key, and what is added comes from the source. -/
theorem insertSelect_rows {key source : String} {select : Table → List Value → List Value}
    (ran : insertSelect name key source select db = .ok after) {t origin : Table} (there : db.table? name = some t)
    (given : db.table? source = some origin) :
    ∃ added, after.table? name = some { t with rows := t.rows ++ added } ∧
      (∀ new ∈ added, ∃ row ∈ origin.rows, new = select origin row) ∧
      ∀ row ∈ origin.rows, ∃ old ∈ t.rows ++ added, t.cell key old = t.cell key (select origin row) := by
  obtain ⟨origin', given', done⟩ := onTable_ok ran
  obtain rfl : origin' = origin := Option.some.inj (given'.symm.trans given)
  have mapped : run ((origin'.rows.map (select origin')).map fun row => insertOrIgnore name key row) db = .ok after := by
    rwa [List.map_map]
  obtain ⟨added, stored, listed, keyed⟩ := insertRows_rows mapped there
  refine ⟨added, stored, fun new member => ?_, fun row member => keyed _ (List.mem_map_of_mem member)⟩
  obtain ⟨row, own, made⟩ := List.mem_map.mp (listed new member)
  exact ⟨row, own, made.symm⟩

theorem run_next {statement : Statement} {rest : List Statement} (now : ∃ middle, statement db = .ok middle)
    (more : ∀ middle, statement db = .ok middle → ∃ after, run rest middle = .ok after) :
    ∃ after, run (statement :: rest) db = .ok after := by
  obtain ⟨middle, first⟩ := now
  obtain ⟨after, last⟩ := more middle first
  exact ⟨after, run_cons.mpr ⟨middle, first, last⟩⟩

theorem run_done : ∃ after, run [] db = .ok after := ⟨db, rfl⟩

theorem createTable_runs {again : Bool} {columns : List Column} {constraints : List String}
    (free : again = true ∨ db.has name = false) : ∃ after, createTable again name columns constraints db = .ok after := by
  simp only [createTable]
  rcases free with rfl | free
  · split <;> exact ⟨_, rfl⟩
  · exact ⟨_, by rw [free]; rfl⟩

theorem createIndex_runs {again : Bool} {index : String} {keys : List String} (there : db.has name = true)
    (free : again = true ∨ db.hasIndex index = false) : ∃ after, createIndex again index name keys db = .ok after := by
  obtain ⟨t, there⟩ := Option.isSome_iff_exists.mp there
  simp only [createIndex, onTable, there]
  rcases free with rfl | free
  · split <;> exact ⟨_, rfl⟩
  · exact ⟨_, by rw [free]; rfl⟩

theorem addColumn_runs {column : Column} {t : Table} (there : db.table? name = some t)
    (fresh : t.position column.name = none) : ∃ after, addColumn name column db = .ok after := by
  simp [addColumn, onTable, there, fresh]

theorem dropTable_runs (there : db.has name = true) : ∃ after, dropTable name db = .ok after := by
  obtain ⟨t, there⟩ := Option.isSome_iff_exists.mp there
  simp [dropTable, onTable, there]

theorem updateAll_runs {column : String} {value : Value} {t : Table} (there : db.table? name = some t)
    (known : (t.position column).isSome = true) : ∃ after, updateAll name column value db = .ok after := by
  obtain ⟨i, known⟩ := Option.isSome_iff_exists.mp known
  simp [updateAll, onTable, there, known]

theorem insertSelect_runs {key source : String} {select : Table → List Value → List Value} (there : db.has name = true)
    (given : db.has source = true) : ∃ after, insertSelect name key source select db = .ok after := by
  obtain ⟨t, given⟩ := Option.isSome_iff_exists.mp given
  have each : ∀ (rows : List (List Value)) (db : Database), db.has name = true →
      ∃ after, run (rows.map fun row => insertOrIgnore name key (select t row)) db = .ok after := by
    intro rows
    induction rows with
    | nil => exact fun db _ => ⟨db, rfl⟩
    | cons row rest ih =>
      intro db there
      obtain ⟨middle, first⟩ : ∃ middle, insertOrIgnore name key (select t row) db = .ok middle := by
        obtain ⟨own, there⟩ := Option.isSome_iff_exists.mp there
        simp only [insertOrIgnore, onTable, there]
        split <;> exact ⟨_, rfl⟩
      obtain ⟨after, more⟩ := ih middle ((insertOrIgnore_effect first).has there)
      exact ⟨after, run_cons.mpr ⟨middle, first, more⟩⟩
  simp only [insertSelect, onTable, given]
  exact each t.rows db there

end Library.Schema
