import Mathlib.Data.Int.Notation
import Mathlib.Data.Nat.Notation
import Mathlib.Logic.Function.Basic
import Wyrebox.Fallible

set_option autoImplicit false
set_option linter.unusedSectionVars false

/-!
# Relations and their definition language

Tables with typed columns and constraints, views over them, and the statements that create, fill, drop and
rename them. A statement that fails changes nothing, and neither does a transaction with one in it.
-/
namespace Wyrebox.Relational
open Fallible

inductive ColumnType where
  | varchar
  | ubigint
  | bigint
  | boolean
  deriving DecidableEq, Repr

inductive Value (S : Type) where
  | null
  | varchar (s : S)
  | ubigint (n : ℕ)
  | bigint (n : ℤ)
  | boolean (b : Bool)
  deriving DecidableEq, Repr

def Value.hasType {S : Type} : Value S → ColumnType → Bool
  | .null, _ => true
  | .varchar _, .varchar => true
  | .ubigint _, .ubigint => true
  | .bigint _, .bigint => true
  | .boolean _, .boolean => true
  | _, _ => false

structure Column (C : Type) where
  name : C
  type : ColumnType
  notNull : Bool
  deriving DecidableEq, Repr

/-- The value in each column. -/
abbrev Row (C S : Type) := C → Value S

structure Definition (C S : Type) where
  columns : List (Column C)
  primaryKey : List C
  uniques : List (List C)
  checks : List (Row C S → Bool)

structure Table (C S : Type) where
  definition : Definition C S
  rows : List (Row C S)

/-- A view, by the columns that its text names. -/
structure View (N C : Type) where
  reads : List (N × C)
  deriving DecidableEq

inductive Relation (N C S : Type) where
  | table (table : Table C S)
  | view (view : View N C)

abbrev Database (N C S : Type) := N → Option (Relation N C S)

inductive StatementError (N : Type) where
  | missing (name : N)
  | alreadyExists (name : N)
  | wrongKind (name : N)
  | unknownColumn (name : N)
  | constraint (name : N)
  deriving DecidableEq, Repr

section
variable {N C S : Type} [DecidableEq N] [DecidableEq C] [DecidableEq S]

/-! ## Rows -/

/-- Both rows have the same values in the columns, none of them NULL. -/
def agreeOn (columns : List C) (row other : Row C S) : Bool :=
  columns.all fun c => row c == other c && row c != .null

/-- The constraints let a row in beside the others. -/
def Definition.accepts (definition : Definition C S) (rows : List (Row C S)) (row : Row C S) : Bool :=
  (definition.columns.all fun column =>
    (row column.name).hasType column.type && (!column.notNull || row column.name != .null)) &&
    ((definition.primaryKey :: definition.uniques).all fun key =>
      key.isEmpty || rows.all fun other => !agreeOn key row other) &&
      definition.checks.all fun check => check row

def Definition.insertAll (definition : Definition C S) (name : N) :
    List (Row C S) → List (Row C S) → Except (StatementError N) (List (Row C S))
  | rows, [] => .ok rows
  | rows, row :: rest =>
    if definition.accepts rows row then definition.insertAll name (rows ++ [row]) rest
    else .error (.constraint name)

theorem Definition.insertAll_eq {definition : Definition C S} {name : N} {rows new result : List (Row C S)}
    (h : definition.insertAll name rows new = .ok result) : result = rows ++ new := by
  induction new generalizing rows with
  | nil =>
    rw [insertAll, Except.ok.injEq] at h
    rw [List.append_nil, h]
  | cons row new ih =>
    rw [insertAll, ite_ok_eq_ok] at h
    rw [ih h.2, List.append_assoc, List.singleton_append]

/-- The columns of a row, the others NULL. -/
def project (columns : List C) (row : Row C S) : Row C S := fun c => if c ∈ columns then row c else .null

theorem project_project (columns : List C) (row : Row C S) :
    project columns (project columns row) = project columns row := by
  funext c
  by_cases hc : c ∈ columns
  · simp only [project, hc, if_true]
  · simp only [project, hc, if_false]

/-! ## Statements -/

def findTable (db : Database N C S) (name : N) : Option (Table C S) :=
  match db name with
  | some (.table table) => some table
  | _ => none

/-- `CREATE TABLE`. -/
def createTable (name : N) (definition : Definition C S) (db : Database N C S) :
    Except (StatementError N) (Database N C S) :=
  if (db name).isSome then .error (.alreadyExists name)
  else .ok (Function.update db name (some (.table ⟨definition, []⟩)))

/-- `CREATE TABLE IF NOT EXISTS`. -/
def createTableIfNotExists (name : N) (definition : Definition C S) (db : Database N C S) :
    Except (StatementError N) (Database N C S) :=
  match db name with
  | none => .ok (Function.update db name (some (.table ⟨definition, []⟩)))
  | some (.table _) => .ok db
  | some (.view _) => .error (.wrongKind name)

/-- `SELECT` of these columns: all rows. -/
def select (name : N) (columns : List C) (db : Database N C S) : Except (StatementError N) (List (Row C S)) :=
  match findTable db name with
  | none => .error (.missing name)
  | some found =>
    if columns.all fun c => c ∈ found.definition.columns.map Column.name then .ok found.rows
    else .error (.unknownColumn name)

/-- `INSERT INTO` of these rows. -/
def insert (name : N) (new : List (Row C S)) (db : Database N C S) :
    Except (StatementError N) (Database N C S) :=
  match findTable db name with
  | none => .error (.missing name)
  | some found => do
    let rows ← found.definition.insertAll name found.rows new
    .ok (Function.update db name (some (.table ⟨found.definition, rows⟩)))

/-- `INSERT INTO target SELECT`: every row of `source` gives one, computed by `f` from the columns it reads. -/
def insertSelect (target source : N) (columns : List C) (f : Row C S → Row C S) (db : Database N C S) :
    Except (StatementError N) (Database N C S) := do
  let rows ← select source columns db
  insert target (rows.map f) db

/-- `DROP TABLE`. -/
def dropTable (name : N) (db : Database N C S) : Except (StatementError N) (Database N C S) :=
  if (findTable db name).isSome then .ok (Function.update db name none) else .error (.missing name)

/-- `ALTER TABLE RENAME TO`. -/
def renameTable (source target : N) (db : Database N C S) : Except (StatementError N) (Database N C S) :=
  match findTable db source with
  | none => .error (.missing source)
  | some found =>
    if (db target).isSome then .error (.alreadyExists target)
    else .ok (Function.update (Function.update db source none) target (some (.table found)))

/-- `ALTER TABLE ADD COLUMN` of a column that may be NULL. -/
def addColumn (name : N) (column : C) (type : ColumnType) (db : Database N C S) :
    Except (StatementError N) (Database N C S) :=
  match findTable db name with
  | none => .error (.missing name)
  | some found =>
    if column ∈ found.definition.columns.map Column.name then .error (.alreadyExists name)
    else .ok (Function.update db name (some (.table
      ⟨{ found.definition with columns := found.definition.columns ++ [⟨column, type, false⟩] },
        found.rows.map fun row => Function.update row column .null⟩)))

/-- `DROP VIEW IF EXISTS`. -/
def dropViewIfExists (name : N) (db : Database N C S) : Except (StatementError N) (Database N C S) :=
  match db name with
  | none => .ok db
  | some (.view _) => .ok (Function.update db name none)
  | some (.table _) => .error (.wrongKind name)

/-- The columns that a view names are there. -/
def View.resolves (view : View N C) (db : Database N C S) : Bool :=
  view.reads.all fun entry =>
    (findTable db entry.1).any fun found => entry.2 ∈ found.definition.columns.map Column.name

/-- `CREATE VIEW`. -/
def createView (name : N) (view : View N C) (db : Database N C S) :
    Except (StatementError N) (Database N C S) :=
  if (db name).isSome then .error (.alreadyExists name)
  else if view.resolves db then .ok (Function.update db name (some (.view view)))
  else .error (.unknownColumn name)

/-! ## What a table looks like -/

/-- `PRAGMA table_info` shows exactly these columns. -/
def hasColumns (db : Database N C S) (name : N) (columns : List (Column C)) : Bool :=
  (findTable db name).any fun found => found.definition.columns == columns

def hasPrimaryKey (db : Database N C S) (name : N) (columns : List C) : Bool :=
  (findTable db name).any fun found => found.definition.primaryKey == columns

def IsTable (db : Database N C S) (name : N) : Prop := (findTable db name).isSome = true

theorem isTable_iff {db : Database N C S} {name : N} :
    IsTable db name ↔ ∃ found, db name = some (.table found) := by
  rw [IsTable, findTable]
  split
  · rename_i found heq
    exact ⟨fun _ => ⟨found, heq⟩, fun _ => rfl⟩
  · rename_i hnone
    constructor
    · intro h
      cases h
    · rintro ⟨found, heq⟩
      exact (hnone found heq).elim

theorem hasColumns_isTable {db : Database N C S} {name : N} {columns : List (Column C)}
    (h : hasColumns db name columns = true) : IsTable db name := by
  rw [hasColumns, Option.any_eq_true] at h
  obtain ⟨found, hfound, -⟩ := h
  rw [IsTable, hfound]
  rfl

/-- A table has one list of columns. -/
theorem hasColumns_unique {db : Database N C S} {name : N} {columns others : List (Column C)}
    (h : hasColumns db name columns = true) (hother : hasColumns db name others = true) : columns = others := by
  rw [hasColumns, Option.any_eq_true] at h hother
  obtain ⟨found, hfound, hcolumns⟩ := h
  obtain ⟨found', hfound', hothers⟩ := hother
  rw [hfound, Option.some.injEq] at hfound'
  rw [beq_iff_eq] at hcolumns hothers
  rw [← hcolumns, ← hothers, hfound']

/-! ## What a statement does -/

theorem findTable_congr {db db' : Database N C S} {name : N} (h : db' name = db name) :
    findTable db' name = findTable db name := by
  rw [findTable, findTable, h]

theorem hasColumns_congr {db db' : Database N C S} {name : N} (h : db' name = db name) (columns : List (Column C)) :
    hasColumns db' name columns = hasColumns db name columns := by
  rw [hasColumns, hasColumns, findTable_congr h]

theorem hasPrimaryKey_congr {db db' : Database N C S} {name : N} (h : db' name = db name) (columns : List C) :
    hasPrimaryKey db' name columns = hasPrimaryKey db name columns := by
  rw [hasPrimaryKey, hasPrimaryKey, findTable_congr h]

theorem isTable_congr {db db' : Database N C S} {name : N} (h : db' name = db name) :
    IsTable db' name ↔ IsTable db name := by
  rw [IsTable, IsTable, findTable_congr h]

theorem createTable_eq_ok {name : N} {definition : Definition C S} {db db' : Database N C S} :
    createTable name definition db = .ok db' ↔
      db name = none ∧ db' = Function.update db name (some (.table ⟨definition, []⟩)) := by
  rw [createTable, ite_error_eq_ok, Option.not_isSome_iff_eq_none, Except.ok.injEq, @eq_comm _ db']

/-- Nothing that is there changes. -/
def Grows (db db' : Database N C S) : Prop := ∀ name, db' name = db name ∨ db name = none

theorem Grows.refl (db : Database N C S) : Grows db db := fun _ => .inl rfl

theorem Grows.keeps {db db' : Database N C S} (h : Grows db db') {name : N} (htable : IsTable db name) :
    db' name = db name := by
  obtain ⟨found, hfound⟩ := isTable_iff.mp htable
  rcases h name with hsame | hnone
  · exact hsame
  · rw [hfound] at hnone
    cases hnone

theorem Grows.isTable {db db' : Database N C S} (h : Grows db db') {name : N} (htable : IsTable db name) :
    IsTable db' name := (isTable_congr (h.keeps htable)).mpr htable

theorem Grows.trans {db db' db'' : Database N C S} (h : Grows db db') (h' : Grows db' db'') : Grows db db'' := by
  intro name
  rcases h name with hsame | hnone
  · rcases h' name with hsame' | hnone'
    · exact .inl (hsame'.trans hsame)
    · exact .inr (hsame.symm.trans hnone')
  · exact .inr hnone

theorem createTableIfNotExists_eq_ok {name : N} {definition : Definition C S} {db db' : Database N C S}
    (h : createTableIfNotExists name definition db = .ok db') :
    IsTable db' name ∧ Grows db db' ∧ ∀ other, other ≠ name → db' other = db other := by
  rw [createTableIfNotExists] at h
  split at h
  · rename_i hnone
    rw [Except.ok.injEq] at h
    subst h
    refine ⟨isTable_iff.mpr ⟨_, Function.update_self ..⟩, fun other => ?_, fun other hother => ?_⟩
    · by_cases hother : other = name
      · exact .inr (hother ▸ hnone)
      · exact .inl (Function.update_of_ne hother ..)
    · exact Function.update_of_ne hother ..
  · rename_i found hfound
    rw [Except.ok.injEq] at h
    subst h
    exact ⟨isTable_iff.mpr ⟨found, hfound⟩, .refl db, fun other _ => rfl⟩
  · cases h

theorem createTableIfNotExists_of_isTable {name : N} {definition : Definition C S} {db : Database N C S}
    (h : IsTable db name) : createTableIfNotExists name definition db = .ok db := by
  obtain ⟨found, hfound⟩ := isTable_iff.mp h
  rw [createTableIfNotExists, hfound]

theorem dropTable_eq_ok {name : N} {db db' : Database N C S} :
    dropTable name db = .ok db' ↔ IsTable db name ∧ db' = Function.update db name none := by
  rw [dropTable, ite_ok_eq_ok, Except.ok.injEq, @eq_comm _ db']
  rfl

theorem renameTable_eq_ok {source target : N} {db db' : Database N C S} :
    renameTable source target db = .ok db' ↔ ∃ found, db source = some (.table found) ∧ db target = none ∧
      db' = Function.update (Function.update db source none) target (some (.table found)) := by
  rw [renameTable, findTable]
  cases hsource : db source with
  | none => simp
  | some relation =>
    cases relation with
    | view view => simp
    | table found => simp [ite_error_eq_ok, @eq_comm _ db']

theorem select_eq_ok {name : N} {columns : List C} {db : Database N C S} {rows : List (Row C S)} :
    select name columns db = .ok rows ↔ ∃ found, db name = some (.table found) ∧
      (columns.all fun c => c ∈ found.definition.columns.map Column.name) = true ∧ rows = found.rows := by
  rw [select, findTable]
  cases hname : db name with
  | none => simp
  | some relation =>
    cases relation with
    | view view => simp
    | table found => simp [ite_ok_eq_ok, @eq_comm _ rows]

theorem insert_eq_ok {name : N} {new : List (Row C S)} {db db' : Database N C S} :
    insert name new db = .ok db' ↔ ∃ found rows, db name = some (.table found) ∧
      found.definition.insertAll name found.rows new = .ok rows ∧
      db' = Function.update db name (some (.table ⟨found.definition, rows⟩)) := by
  rw [insert, findTable]
  cases hname : db name with
  | none => simp
  | some relation =>
    cases relation with
    | view view => simp
    | table found => simp [bind_eq_ok, @eq_comm _ db']

/-- One relation changes. -/
theorem addColumn_keeps {name : N} {column : C} {type : ColumnType} {db db' : Database N C S}
    (h : addColumn name column type db = .ok db') {other : N} (hother : other ≠ name) : db' other = db other := by
  rw [addColumn] at h
  split at h
  · cases h
  · rw [ite_error_eq_ok, Except.ok.injEq] at h
    rw [← h.2, Function.update_of_ne hother]

theorem dropViewIfExists_eq_ok {name : N} {db db' : Database N C S} (h : dropViewIfExists name db = .ok db') :
    (∀ found, db name ≠ some (.table found)) ∧ db' = Function.update db name none := by
  rw [dropViewIfExists] at h
  split at h
  · rename_i hnone
    rw [Except.ok.injEq] at h
    subst h
    refine ⟨fun found hfound => ?_, ?_⟩
    · rw [hnone] at hfound
      cases hfound
    · rw [← hnone, Function.update_eq_self]
  · rename_i view hview
    rw [Except.ok.injEq] at h
    subst h
    refine ⟨fun found hfound => ?_, rfl⟩
    rw [hview] at hfound
    cases hfound
  · cases h

theorem createView_eq_ok {name : N} {view : View N C} {db db' : Database N C S} :
    createView name view db = .ok db' ↔
      db name = none ∧ view.resolves db = true ∧ db' = Function.update db name (some (.view view)) := by
  rw [createView, ite_error_eq_ok, Option.not_isSome_iff_eq_none, ite_ok_eq_ok, Except.ok.injEq,
    eq_comm (a := db')]

/-- A view that does not read a relation does not notice what becomes of it. -/
theorem resolves_congr {view : View N C} {db db' : Database N C S}
    (h : ∀ entry ∈ view.reads, db' entry.1 = db entry.1) : view.resolves db' = view.resolves db := by
  rw [View.resolves, View.resolves, Bool.eq_iff_iff, List.all_eq_true, List.all_eq_true]
  refine forall₂_congr fun entry hentry => ?_
  rw [findTable_congr (h entry hentry)]

end
end Wyrebox.Relational
