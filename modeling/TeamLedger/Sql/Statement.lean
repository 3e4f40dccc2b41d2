/-
Statements for a database: their text and the values sent with it.

Values never become part of the text. A statement is put together from pieces, and each value among
them leaves a placeholder, numbered from 1 in order.
-/
import TeamLedger.Money
import TeamLedger.Instant
import TeamLedger.Json.Form

set_option autoImplicit false

namespace TeamLedger.Sql

/-- A value sent with a statement. -/
inductive Param
  | int8 (value : Option Int)
  | text (value : Option String)
  | bool (value : Option Bool)
  | numeric (value : Option Money)
  | timestamp (value : Option Instant)
  | int8s (values : List Int)
  | texts (values : List String)
deriving DecidableEq, Repr

/-- The name of a value's type. -/
def Param.typeName : Param → String
  | int8 _ => "int8"
  | text _ => "text"
  | bool _ => "bool"
  | numeric _ => "numeric"
  | timestamp _ => "timestamptz"
  | int8s _ => "int8[]"
  | texts _ => "text[]"

/-! ## What a database keeps of a value -/

/-- The start of the year 2000, from which a database counts. -/
def epoch : Instant := .ofSecond 946684800

/-- An instant as a database keeps it: in whole microseconds, with what is beyond them cut off
towards the start of the year 2000. -/
def keptInstant (t : Instant) : Instant :=
  let micros := ((t.second - epoch.second) * 10 ^ 9 + t.nano).tdiv 1000
  ⟨epoch.second + micros / 10 ^ 6, (micros % 10 ^ 6).toNat * 1000, by omega⟩

/-- An amount as a database keeps it: a zero has no decimals. -/
def keptMoney (a : Money) : Money := if a.isZero then .zero else a

/-- A value as a database keeps it. -/
def Param.kept : Param → Param
  | numeric value => numeric (value.map keptMoney)
  | timestamp value => timestamp (value.map keptInstant)
  | p => p

/-- A value in JSON: the name of its type, and the value itself. -/
def Param.outline (p : Param) : Json :=
  .array [.text p.typeName,
    match p with
    | int8 value => toJson value
    | text value => toJson value
    | bool value => toJson value
    | numeric value => toJson value
    | timestamp value => toJson value
    | int8s values => toJson values
    | texts values => toJson values]

/-! ## Statements -/

/-- A statement with the values for its placeholders. -/
structure Statement where
  sql : String
  params : List Param
deriving DecidableEq, Repr

/-- A piece of a statement: text, or a value. -/
inductive Piece
  | text (s : String)
  | param (p : Param)
deriving DecidableEq, Repr

/-- The text of pieces, whose placeholders are numbered from `n` on. -/
def Piece.render : Nat → List Piece → String
  | _, [] => ""
  | n, text s :: ps => s ++ render n ps
  | n, param _ :: ps => "$" ++ Nat.repr n ++ render (n + 1) ps

/-- The values among pieces, in order. -/
def Piece.params (ps : List Piece) : List Param :=
  ps.filterMap fun
    | text _ => none
    | param p => some p

/-- A statement in JSON, with the values as a database keeps them. -/
def Statement.outline (s : Statement) : Json :=
  .object [("sql", .text s.sql), ("params", .array (s.params.map (·.kept.outline)))]

/-- The statement made of pieces. -/
def Statement.ofPieces (ps : List Piece) : Statement := ⟨Piece.render 1 ps, Piece.params ps⟩

end TeamLedger.Sql
