/-
Replies of a database, and how values are read from them.

A reply brings rows, or tells how many rows a statement changed, or refuses the statement. The cells of
a row go by the names of their columns; where a name occurs twice the last cell counts. A cell is
read as a value of one type: a null is refused before the type of the column is looked at, unless
the value may be absent.
-/
import TeamLedger.Sql.Statement
import TeamLedger.Sql.Numeric
import TeamLedger.Named

set_option autoImplicit false

namespace TeamLedger.Sql

/-- A cell: a value of the type of its column, or null. -/
inductive Cell
  | int8 (value : Option Int)
  | int4 (value : Option Int)
  | text (value : Option String)
  | bool (value : Option Bool)
  | numeric (value : Option Numeric)
  | timestamp (value : Option Instant)
deriving DecidableEq, Repr

/-- The cell is null. -/
def Cell.isNull : Cell → Bool
  | int8 value => value.isNone
  | int4 value => value.isNone
  | text value => value.isNone
  | bool value => value.isNone
  | numeric value => value.isNone
  | timestamp value => value.isNone

/-- A row: its cells with the names of their columns. -/
abbrev Row := List (String × Cell)

/-- A reply to a statement. -/
inductive Reply
  | rows (rows : List Row)
  | affected (count : Nat)
  | refused (code report : String)
deriving DecidableEq, Repr

/-! ## Reading cells -/

/-- A type whose values are read from cells. -/
class CellForm (α : Type) where
  ofCell : Cell → Except DecodeFault α

/-- Why a cell is not of the wanted type. -/
def Cell.unfit (c : Cell) : DecodeFault := if c.isNull then .unexpectedNull else .mismatchedTypes

instance : CellForm Int where
  ofCell
    | .int8 (some n) => .ok n
    | c => .error c.unfit

instance : CellForm String where
  ofCell
    | .text (some s) => .ok s
    | c => .error c.unfit

instance : CellForm Bool where
  ofCell
    | .bool (some b) => .ok b
    | c => .error c.unfit

instance : CellForm Money where
  ofCell
    | .numeric (some n) => n.toMoney
    | c => .error c.unfit

instance : CellForm Instant where
  ofCell
    | .timestamp (some t) => .ok (keptInstant t)
    | c => .error c.unfit

/-- A null is an absent value, whatever the type of its column. -/
instance {α : Type} [CellForm α] : CellForm (Option α) where
  ofCell c := if c.isNull then .ok none else (CellForm.ofCell c).map some

/-! ## Reading rows -/

namespace Row

/-- The cell in the column with a name. -/
def cell? (r : Row) (name : String) : Option Cell := r.reverse.lookup name

/-- The value in the column with a name. -/
def get {α : Type} [CellForm α] (r : Row) (name : String) : Except Fault α :=
  match r.cell? name with
  | none => .error (.noColumn name)
  | some c => (CellForm.ofCell c).mapError (.decode (.name name))

/-- The kind or status in the column with a name. -/
def getNamed {α : Type} [Named α] (r : Row) (name : String) : Except Fault α := do
  let s : String ← r.get name
  match Named.ofName? s with
  | some a => pure a
  | none => throw (.decode (.names name) (.unknownName (Named.unknownName α s)))

/-- The value in the first column. -/
def first {α : Type} [CellForm α] (r : Row) : Except Fault α :=
  match r with
  | [] => .error (.noPlace 0 0)
  | (_, c) :: _ => (CellForm.ofCell c).mapError (.decode (.place 0))

end Row

/-- A type whose values are read from rows. -/
class RowForm (α : Type) where
  ofRow : Row → Except Fault α

/-! ## Reading replies -/

namespace Reply

/-- The rows that a reply brings. -/
def allRows : Reply → Except Fault (List Row)
  | rows rs => .ok rs
  | affected _ => .ok []
  | refused code report => .error (.server (some code) report)

/-- All values; one that cannot be read fails the whole. -/
def all {α : Type} [RowForm α] (r : Reply) : Except Fault (List α) := do
  (← r.allRows).mapM RowForm.ofRow

/-- The first value, if there is a row. -/
def optional {α : Type} [RowForm α] (r : Reply) : Except Fault (Option α) := do
  match ← r.allRows with
  | [] => pure none
  | row :: _ => some <$> RowForm.ofRow row

/-- The first row, of which there has to be one. -/
def oneRow (r : Reply) : Except Fault Row := do
  match ← r.allRows with
  | [] => throw .rowNotFound
  | row :: _ => pure row

/-- The first value, of which there has to be one. -/
def one {α : Type} [RowForm α] (r : Reply) : Except Fault α := do
  RowForm.ofRow (← r.oneRow)

/-- The number of rows that a statement changed or brought. -/
def count : Reply → Except Fault Nat
  | rows rs => .ok rs.length
  | affected n => .ok n
  | refused code report => .error (.server (some code) report)

end Reply

end TeamLedger.Sql
