/-
What can go wrong between this library and a database.
-/
import TeamLedger.Money

set_option autoImplicit false

namespace TeamLedger.Sql

/-- How a message refers to a column. -/
inductive ColumnRef
  /-- A column of a plain type, by its name. -/
  | name (name : String)
  /-- A column of names of kinds or statuses, by its name. -/
  | names (name : String)
  /-- A column by its place, counted from 0. -/
  | place (n : Nat)
deriving DecidableEq, Repr

/-- The column in a message: only the name of a plain column stands in quotes. -/
def ColumnRef.text : ColumnRef → String
  | name s => "\"" ++ s ++ "\""
  | names s => s
  | place n => Nat.repr n

/-- Why a value in a column could not be read. -/
inductive DecodeFault
  | unexpectedNull
  | mismatchedTypes
  | notANumber
  /-- A number that is no amount. -/
  | notRepresentable
  /-- An operation on amounts that overflowed while a number was put together. -/
  | overflow (operation : Money.Overflow)
  /-- A name that is none of those the column may hold. -/
  | unknownName (report : String)
deriving DecidableEq, Repr

/-- The text of a fault. -/
def DecodeFault.message : DecodeFault → String
  | unexpectedNull => "unexpected null; try decoding as an `Option`"
  | mismatchedTypes => "mismatched types"
  | notANumber => "Decimal does not support NaN values"
  | notRepresentable => "value not representable as rust_decimal::Decimal"
  | overflow operation => operation.message
  | unknownName report => report

/-- What went wrong. -/
inductive Fault
  | rowNotFound
  | poolTimedOut
  | badData (report : String)
  /-- The server refused a statement. -/
  | server (code : Option String) (report : String)
  | noColumn (name : String)
  | noPlace (count place : Nat)
  | decode (column : ColumnRef) (cause : DecodeFault)
deriving DecidableEq, Repr

namespace Fault

/-- The text of a fault. -/
def message : Fault → String
  | rowNotFound => "no rows returned by a query that expected to return at least one row"
  | poolTimedOut => "pool timed out while waiting for an open connection"
  | badData report => "encountered unexpected or invalid data: " ++ report
  | server _ report => "error returned from database: " ++ report
  | noColumn name => "no column found for name: " ++ name
  | noPlace count place =>
    "column index out of bounds: the len is " ++ Nat.repr count ++ ", but the index is " ++
      Nat.repr place
  | decode column cause =>
    "error occurred while decoding column " ++ column.text ++ ": " ++ cause.message

/-- The code by which a server says that another transaction holds a row's lock. -/
def lockNotAvailable : String := "55P03"

/-- What the server says of a row that another transaction has locked. -/
def lockReport? : Fault → Option String
  | server (some code) report => if code = lockNotAvailable then some report else none
  | _ => none

/-- The codes by which a server says that it has no room for a connection, or that it is still
starting. -/
def passingCodes : List String := ["53300", "57P03"]

/-- The fault is a refusal that may pass. -/
def isPassing : Fault → Bool
  | server (some code) _ => passingCodes.contains code
  | _ => false

end Fault

end TeamLedger.Sql
