/-
Credit limits: how much unpaid debt a team lets its counterparts run up.

A limit is a team's default or is meant for one counterpart, and the latter goes before the former.
-/
import TeamLedger.Team

set_option autoImplicit false

namespace TeamLedger

namespace Limit

/-- Whom a limit is meant for: every counterpart, or one team. -/
inductive Scope
  | default
  | team
deriving DecidableEq, Repr, Inhabited

instance : Named Scope where
  lettering := .capital
  title
    | .default => "Default"
    | .team => "Team"
  noun := "limit type"
  all := [.default, .team]
  name
    | .default => "DEFAULT"
    | .team => "TEAM"
  names := [("DEFAULT", .default), ("TEAM", .team)]
  mem_all a := by cases a <;> decide
  lookup_name a := by cases a <;> decide
  name_of_mem := by decide
  name_title a := by cases a <;> decide

end Limit

/-- A limit that a team has set. -/
structure Limit where
  id : Ident
  teamId : Ident
  scope : Limit.Scope
  /-- The counterpart that the limit is meant for. -/
  forTeam : Option Ident
  threshold : Money
deriving DecidableEq, Repr, Inhabited

/-- The wish to set a limit, without a counterpart the default one. -/
structure SetLimit where
  teamId : Ident
  forTeam : Option Ident
  threshold : Money
deriving DecidableEq, Repr, Inhabited

/-- Whether a counterpart may take on more debt to a team, and why. -/
structure LimitReport where
  teamId : Ident
  forTeam : Ident
  unpaidAmount : Money
  threshold : Money
  scope : Option Limit.Scope
  canCreateOrder : Bool
deriving DecidableEq, Repr, Inhabited

/-- A limit with the teams it concerns. -/
structure LimitItem where
  limit : Limit
  team : Option Team
  forTeam : Option Team
deriving DecidableEq, Repr, Inhabited

/-- Unpaid debt to one team, split by whether it is part of a submission. -/
structure Debt where
  toTeam : Ident
  total : Money := .zero
  unpaid : Money := .zero
  submitted : Money := .zero
deriving DecidableEq, Repr, Inhabited

/-- A limit with the teams it concerns and the debt it is measured against. -/
structure DeterminedLimit where
  limit : Limit
  team : Option Team
  forTeam : Option Team
  debt : Debt
deriving DecidableEq, Repr, Inhabited

/-- The limit in force for a counterpart: the one meant for it, else the default one. -/
def Limit.effective? (limits : List Limit) (forTeam : Ident) : Option Limit :=
  (limits.find? fun l => l.scope = .team ∧ l.forTeam = some forTeam).or
    (limits.find? fun l => l.scope = .default)

/-- Decides whether a counterpart may take on more debt. A threshold of zero, as without any limit,
restricts nothing. -/
def LimitReport.evaluate (teamId forTeam : Ident) (unpaid : Money) (limits : List Limit) :
    LimitReport :=
  let effective := Limit.effective? limits forTeam
  let threshold := effective.elim .zero (·.threshold)
  { teamId
    forTeam
    unpaidAmount := unpaid
    threshold
    scope := effective.map (·.scope)
    -- the threshold itself is already too much
    canCreateOrder := threshold.isZero || unpaid < threshold }

/-! ## JSON -/

instance : JsonForm Limit where
  toJson l := .object [("id", toJson l.id), ("team_id", toJson l.teamId),
    ("limit_type", toJson l.scope), ("for_team_id", toJson l.forTeam),
    ("threshold", toJson l.threshold)]
  ofJson? j := do
    let ms ← j.members? ["id", "team_id", "limit_type", "for_team_id", "threshold"]
    some { id := ← ms.get? "id", teamId := ← ms.get? "team_id", scope := ← ms.get? "limit_type",
           forTeam := ← ms.get? "for_team_id", threshold := ← ms.get? "threshold" }

instance : JsonForm SetLimit where
  toJson s := .object [("team_id", toJson s.teamId), ("for_team_id", toJson s.forTeam),
    ("threshold", toJson s.threshold)]
  ofJson? j := do
    let ms ← j.members? ["team_id", "for_team_id", "threshold"]
    some { teamId := ← ms.get? "team_id", forTeam := ← ms.get? "for_team_id",
           threshold := ← ms.get? "threshold" }

instance : JsonForm LimitReport where
  toJson r := .object [("team_id", toJson r.teamId), ("for_team_id", toJson r.forTeam),
    ("unpaid_amount", toJson r.unpaidAmount), ("threshold", toJson r.threshold),
    ("limit_type", toJson r.scope), ("can_create_order", toJson r.canCreateOrder)]
  ofJson? j := do
    let ms ← j.members? ["team_id", "for_team_id", "unpaid_amount", "threshold", "limit_type",
      "can_create_order"]
    some { teamId := ← ms.get? "team_id", forTeam := ← ms.get? "for_team_id",
           unpaidAmount := ← ms.get? "unpaid_amount", threshold := ← ms.get? "threshold",
           scope := ← ms.get? "limit_type", canCreateOrder := ← ms.get? "can_create_order" }

instance : JsonForm LimitItem where
  toJson i := .object [("config", toJson i.limit), ("team", toJson i.team),
    ("for_team", toJson i.forTeam)]
  ofJson? j := do
    let ms ← j.members? ["config", "team", "for_team"]
    some { limit := ← ms.get? "config", team := ← ms.get? "team", forTeam := ← ms.get? "for_team" }

instance : JsonForm Debt where
  toJson d := .object [("to_team_id", toJson d.toTeam), ("total", toJson d.total),
    ("unpaid_amount", toJson d.unpaid), ("submission_amount", toJson d.submitted)]
  ofJson? j := do
    let ms ← j.members? ["to_team_id", "total", "unpaid_amount", "submission_amount"]
    some { toTeam := ← ms.get? "to_team_id", total := ← ms.get? "total",
           unpaid := ← ms.get? "unpaid_amount", submitted := ← ms.get? "submission_amount" }

instance : JsonForm DeterminedLimit where
  toJson d := .object [("config", toJson d.limit), ("team", toJson d.team),
    ("for_team", toJson d.forTeam), ("invoice_status", toJson d.debt)]
  ofJson? j := do
    let ms ← j.members? ["config", "team", "for_team", "invoice_status"]
    some { limit := ← ms.get? "config", team := ← ms.get? "team", forTeam := ← ms.get? "for_team",
           debt := ← ms.get? "invoice_status" }

end TeamLedger
