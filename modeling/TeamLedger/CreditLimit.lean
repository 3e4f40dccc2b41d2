/-
Credit limits as a service: asking, setting, deleting and listing.

Asking whether a counterpart may take on more debt goes to a cache first. What is cached is the
answer as JSON text, under a key made of the two teams.
-/
import TeamLedger.Program
import TeamLedger.Rows
import TeamLedger.Json.Text

set_option autoImplicit false

namespace TeamLedger.CreditLimit

variable {σ : Type}

/-- The key that the answer for two teams is cached under. -/
def cacheKey (teamId forTeam : Ident) : String :=
  "invoice_service:limit_invoice-" ++ Int.repr teamId ++ "-" ++ Int.repr forTeam

/-- A counterpart; zero stands for none. -/
def counterpart (id : Option Ident) : Option Ident := id.filter (· ≠ 0)

/-- Refuses to go on without a team. -/
def requireTeam (teamId : Ident) : Service σ Unit :=
  if teamId = 0 then Service.refuse (.validation .noTeam) else pure ()

/-- Whether a counterpart may take on more debt to a team. A new answer is cached for a while. -/
def report (ttl : Cache.Nanoseconds) (teamId forTeam : Ident) : Service σ LimitReport := do
  requireTeam teamId
  let key := cacheKey teamId forTeam
  match ← Service.cacheGet key with
  | some cached =>
    Service.count .limitCache "hit"
    match (Json.ofText? cached).bind ofJson? with
    | some report => return report
    | none => Service.refuse .serialization
  | none =>
    Service.count .limitCache "miss"
    let unpaid ← Service.call (.unpaidAmount forTeam teamId)
    let limits ← Service.call (.applicableLimits teamId forTeam)
    let report := LimitReport.evaluate teamId forTeam unpaid limits
    Service.cachePut key (toJson report).toText ttl
    return report

/-- Refuses to go on when a team is not there. -/
def requireStored (teamId : Ident) : Service σ Unit := do
  if (← Service.call (.team teamId)).isNone then Service.refuse (.notFound (.team teamId))

/-- Sets a limit. -/
def set (wish : SetLimit) : Service σ Limit := do
  requireTeam wish.teamId
  if wish.threshold.isNegative then
    Service.refuse (.validation (.negativeThreshold wish.threshold))
  let forTeam := counterpart wish.forTeam
  requireStored wish.teamId
  match forTeam with
  | some id => requireStored id
  | none => pure ()
  let scope : Limit.Scope := if forTeam.isSome then .team else .default
  let found ← Service.call (.findLimit wish.teamId scope forTeam)
  let limit := found.getD { id := 0, teamId := wish.teamId, scope, forTeam, threshold := .zero }
  Service.call (.saveLimit { limit with threshold := wish.threshold })

/-- Deletes the limits of a team, all or those meant for one counterpart. -/
def delete (teamId : Ident) (forTeam : Option Ident) : Service σ Nat := do
  requireTeam teamId
  Service.call (.deleteLimits teamId (counterpart forTeam))

/-- The team with an id; of several the last. -/
def teamOf? (teams : List Team) (id : Ident) : Option Team := teams.reverse.find? (·.id = id)

/-- The limits of a team, with the teams they concern. -/
def list (teamId : Ident) : Service σ (List LimitItem) := do
  let limits ← Service.call (.limitsOf teamId)
  let ids := IdSet.ofList (limits.flatMap fun l => l.teamId :: l.forTeam.toList)
  let teams ← Service.call (.teams ids.ids)
  return limits.map fun limit =>
    { limit, team := teamOf? teams limit.teamId, forTeam := limit.forTeam.bind (teamOf? teams) }

/-- The limits that the given teams have set for a team, with what it owes each of them. -/
def determined (teamId : Ident) (fromTeams : List Ident) : Service σ (List DeterminedLimit) := do
  if fromTeams.isEmpty then return []
  let limits ← Service.call (.limitsForCounterpart teamId fromTeams)
  if limits.isEmpty then return []
  let creditors := limits.map (·.teamId)
  let teams ← Service.call (.teams (creditors ++ [teamId]))
  let debts ← Service.call (.debts teamId creditors)
  return limits.map fun limit =>
    { limit
      team := teamOf? teams limit.teamId
      forTeam := limit.forTeam.bind (teamOf? teams)
      debt := (debts.reverse.find? (·.toTeam = limit.teamId)).getD { toTeam := limit.teamId } }

end TeamLedger.CreditLimit
