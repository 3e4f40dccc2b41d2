/-
Agents: on whose behalf something is written.
-/
import TeamLedger.Named

set_option autoImplicit false

namespace TeamLedger

/-- Rows and users go by whole numbers. -/
abbrev Ident := Int

/-- The kind of an agent. -/
inductive Agent.Kind
  | user
  | admin
  | system
deriving DecidableEq, Repr, Inhabited

instance : Named Agent.Kind where
  title
    | .user => "User"
    | .admin => "Admin"
    | .system => "System"
  noun := "agent kind"
  all := [.user, .admin, .system]
  name
    | .user => "user"
    | .admin => "admin"
    | .system => "system"
  names := [("user", .user), ("admin", .admin), ("system", .system)]
  mem_all a := by cases a <;> decide
  lookup_name a := by cases a <;> decide
  name_of_mem := by decide
  name_title a := by cases a <;> decide

/-- On whose behalf something is written. -/
structure Agent where
  userId : Ident
  kind : Agent.Kind
deriving DecidableEq, Repr, Inhabited

namespace Agent

/-- An ordinary user. -/
def ofUser (userId : Ident) : Agent := ⟨userId, .user⟩

/-- The system itself, whose user number is 0. -/
def system : Agent := ⟨0, .system⟩

instance : JsonForm Agent where
  toJson a := .object [("user_id", toJson a.userId), ("kind", toJson a.kind)]
  ofJson? j := do
    let ms ← j.members? ["user_id", "kind"]
    some { userId := ← ms.get? "user_id", kind := ← ms.get? "kind" }

end Agent

end TeamLedger
