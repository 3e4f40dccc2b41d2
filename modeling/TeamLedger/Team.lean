/-
Teams, between which debts arise.
-/
import TeamLedger.Agent

set_option autoImplicit false

namespace TeamLedger

/-- What a team does. -/
inductive Team.Kind
  | selling
  | warehouse
  | admin
deriving DecidableEq, Repr, Inhabited

instance : Named Team.Kind where
  title
    | .selling => "Selling"
    | .warehouse => "Warehouse"
    | .admin => "Admin"
  noun := "team type"
  all := [.selling, .warehouse, .admin]
  name
    | .selling => "selling"
    | .warehouse => "warehouse"
    | .admin => "admin"
  names := [("selling", .selling), ("warehouse", .warehouse), ("admin", .admin)]
  mem_all a := by cases a <;> decide
  lookup_name a := by cases a <;> decide
  name_of_mem := by decide
  name_title a := by cases a <;> decide

/-- A team. -/
structure Team where
  id : Ident
  name : String
  code : String
  kind : Team.Kind
  createdAt : Instant
deriving DecidableEq, Repr, Inhabited

namespace Team

/-- The code of the team with a number: `T` and at least four digits. -/
def codeOf (id : Nat) : String :=
  let ds := Nat.toDigits 10 id
  String.ofList ('T' :: List.replicate (4 - ds.length) '0' ++ ds)

instance : JsonForm Team where
  toJson t := .object [("id", toJson t.id), ("name", toJson t.name), ("team_code", toJson t.code),
    ("team_type", toJson t.kind), ("created_at", toJson t.createdAt)]
  ofJson? j := do
    let ms ← j.members? ["id", "name", "team_code", "team_type", "created_at"]
    some { id := ← ms.get? "id", name := ← ms.get? "name", code := ← ms.get? "team_code",
           kind := ← ms.get? "team_type", createdAt := ← ms.get? "created_at" }

end Team

end TeamLedger
