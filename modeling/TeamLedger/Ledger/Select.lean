/-
What a query returns.

A row of the root is taken if it can be joined, table by table as planned, to partners that meet all
conditions together with it. Every row of the root is looked at by itself, so it is returned once,
and rows come by id. A table joined from the left may have no partner, and a condition on a table
without a partner fails; only the condition of having no submission holds there.
-/
import TeamLedger.Ledger.Tables
import TeamLedger.Query.Plan

set_option autoImplicit false

namespace TeamLedger

/-- One row of every table joined so far. -/
structure Joined where
  invoice : Option Invoice := none
  link : Option Link := none
  submission : Option Submission := none
  history : Option History := none
  fromTeam : Option Team := none
  toTeam : Option Team := none
deriving DecidableEq, Repr

namespace Joined

/-- A row of the root alone. -/
def ofRoot : (root : Root) → root.Row → Joined
  | .invoice => fun i => { invoice := some i }
  | .submission => fun s => { submission := some s }
  | .history => fun h => { history := some h }

/-- The row with each of its partners in `table`, to which `parent` leads. -/
def partners (t : Tables) (row : Joined) (parent table : Table) : List Joined :=
  match parent, table with
  | .invoice, .link =>
    row.invoice.elim [] fun i =>
      (t.links.filter (·.invoiceId = i.id)).map fun l => { row with link := some l }
  | .submission, .link =>
    row.submission.elim [] fun s =>
      (t.links.filter (·.submissionId = s.id)).map fun l => { row with link := some l }
  | .link, .invoice =>
    ((row.link.bind fun l => t.invoices.get? l.invoiceId).map fun i =>
      { row with invoice := some i }).toList
  | .link, .submission =>
    ((row.link.bind fun l => t.submissions.get? l.submissionId).map fun s =>
      { row with submission := some s }).toList
  | .invoice, .history =>
    (((row.invoice.bind (·.historyId)).bind t.histories.get?).map fun h =>
      { row with history := some h }).toList
  | .history, .invoice =>
    row.history.elim [] fun h =>
      (t.invoices.values.filter (·.historyId = some h.id)).map fun i =>
        { row with invoice := some i }
  | .invoice, .fromTeam =>
    ((row.invoice.bind fun i => t.teams.get? i.fromTeam).map fun team =>
      { row with fromTeam := some team }).toList
  | .invoice, .toTeam =>
    ((row.invoice.bind fun i => t.teams.get? i.toTeam).map fun team =>
      { row with toTeam := some team }).toList
  | _, _ => []

/-- The row after a join: with each of its partners, or alone if it has none and may stay. -/
def join (t : Tables) (row : Joined) (step : JoinStep) : List Joined :=
  let joined := row.partners t step.parent step.table
  -- an inner join without partners drops the row
  if joined.isEmpty ∧ step.kind = .left then [row] else joined

/-- The rows after all joins of a plan. -/
def joinAll (t : Tables) (plan : List JoinStep) (rows : List Joined) : List Joined :=
  plan.foldl (fun rows step => rows.flatMap (·.join t step)) rows

/-- The row meets a condition. -/
def meets (row : Joined) : Filter → Bool
  | .invoiceIds ids => row.invoice.any fun i => ids.contains i.id
  | .fromTeam id => row.invoice.any fun i => i.fromTeam = id
  | .toTeam id => row.invoice.any fun i => i.toTeam = id
  | .fromTeamKind k => row.fromTeam.any fun t => t.kind = k
  | .toTeamKind k => row.toTeam.any fun t => t.kind = k
  | .status s => row.invoice.any fun i => i.status = s
  | .statusIn ss => row.invoice.any fun i => ss.contains i.status
  | .statusNotIn ss => row.invoice.any fun i => !ss.contains i.status
  | .kind k => row.invoice.any fun i => i.kind = k
  | .hasSubmission true => row.invoice.any fun i => i.hasSubmission
  -- `all` and not `any`: without a partner there is no submission either
  | .hasSubmission false => row.invoice.all fun i => !i.hasSubmission
  | .txId id => row.invoice.any fun i => i.txId = some id
  | .orderId id => row.invoice.any fun i => i.orderId = some id
  | .submissionId id => row.submission.any fun s => s.id = id
  | .createdBy id => row.submission.any fun s => s.createdBy = id
  | .verifiedBy id => row.submission.any fun s => s.completedBy = some id
  | .submissionStatus status => row.submission.any fun s => s.status = status
  | .submittedFrom t => row.submission.any fun s => t ≤ s.createdAt
  | .submittedUntil t => row.submission.any fun s => s.createdAt ≤ t
  | .paidFrom t => row.history.any fun h => t ≤ h.createdAt
  | .paidUntil t => row.history.any fun h => h.createdAt ≤ t

end Joined

namespace Query

variable {root : Root}

/-- The row of the root is returned. -/
def matched (q : Query root) (t : Tables) (row : root.Row) : Bool :=
  (Joined.joinAll t q.plan [Joined.ofRoot root row]).any fun joined => q.filters.all joined.meets

/-- The rows of the root that the query returns, by id. -/
def select (q : Query root) (t : Tables) : List root.Row :=
  (root.rows t).values.filter (q.matched t)

end Query

end TeamLedger
