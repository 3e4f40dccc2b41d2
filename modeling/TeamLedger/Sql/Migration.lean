/-
Bringing the tables of a database up to date.

A database keeps a list of the migrations it has seen. Before anything is done the list is checked:
no migration may have been left half applied, none may be unknown, and none may have changed since.
Then those that are missing are applied.
-/
set_option autoImplicit false

namespace TeamLedger.Sql

/-- A migration that a database has seen. -/
structure Applied where
  version : Nat
  /-- It was applied as it is now. -/
  unchanged : Bool := true
  /-- It was applied to its end. -/
  complete : Bool := true
deriving DecidableEq, Repr

namespace Migration

/-- The migrations there are, by their versions. -/
def versions : List Nat := [20240101000001]

/-- Why a database cannot be brought up to date. -/
inductive Fault
  | incomplete (version : Nat)
  | unknown (version : Nat)
  | changed (version : Nat)
deriving DecidableEq, Repr

/-- The text of a fault. -/
def Fault.message : Fault → String
  | incomplete version =>
    "migration " ++ Nat.repr version ++
      " is partially applied; fix and remove row from `_sqlx_migrations` table"
  | unknown version =>
    "migration " ++ Nat.repr version ++
      " was previously applied but is missing in the resolved migrations"
  | changed version =>
    "migration " ++ Nat.repr version ++ " was previously applied but has been modified"

/-- The migrations still to be applied, given those that a database has seen. -/
def pending (applied : List Applied) : Except Fault (List Nat) :=
  match applied.find? (!·.complete) with
  | some a => .error (.incomplete a.version)
  | none =>
    match applied.find? (!versions.contains ·.version) with
    | some a => .error (.unknown a.version)
    | none =>
      match applied.find? (!·.unchanged) with
      | some a => .error (.changed a.version)
      | none => .ok (versions.filter fun v => !applied.any fun a => a.version = v)

end Migration

end TeamLedger.Sql
