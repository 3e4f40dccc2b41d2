/-
Queries as statements for a database.

The joins and conditions stand in a subquery that yields the ids of the root, so a row appears once
however many partners it has, and a lock covers the rows of the root only. Invoices come oldest
first, everything else by id.
-/
import TeamLedger.Query.Plan
import TeamLedger.Sql.Statement

set_option autoImplicit false

namespace TeamLedger

open Sql (Param Piece Statement)

/-- The pieces of a condition. -/
def Filter.pieces : Filter → List Piece
  | invoiceIds ids => [.text "invoices.id = ANY(", .param (.int8s ids), .text ")"]
  | fromTeam id => [.text "invoices.from_team_id = ", .param (.int8 id)]
  | toTeam id => [.text "invoices.to_team_id = ", .param (.int8 id)]
  | fromTeamKind k => [.text "from_team.type = ", .param (.text (Named.name k))]
  | toTeamKind k => [.text "to_team.type = ", .param (.text (Named.name k))]
  | status s => [.text "invoices.status = ", .param (.text (Named.name s))]
  | statusIn ss =>
    [.text "invoices.status = ANY(", .param (.texts (ss.map Named.name)), .text ")"]
  | statusNotIn ss =>
    [.text "NOT (invoices.status = ANY(", .param (.texts (ss.map Named.name)), .text "))"]
  | kind k => [.text "invoices.type = ", .param (.text (Named.name k))]
  | hasSubmission true => [.text "invoices.has_submission = TRUE"]
  | hasSubmission false =>
    [.text "(invoices.has_submission = FALSE OR invoices.has_submission IS NULL)"]
  | txId id => [.text "invoices.tx_id = ", .param (.int8 id)]
  | orderId id => [.text "invoices.order_id = ", .param (.int8 id)]
  | submissionId id => [.text "payment_submissions.id = ", .param (.int8 id)]
  | createdBy id => [.text "payment_submissions.created_by_id = ", .param (.int8 id)]
  | verifiedBy id => [.text "payment_submissions.completed_by_id = ", .param (.int8 id)]
  | submissionStatus s => [.text "payment_submissions.status = ", .param (.text (Named.name s))]
  | submittedFrom t => [.text "payment_submissions.created_at >= ", .param (.timestamp t)]
  | submittedUntil t => [.text "payment_submissions.created_at <= ", .param (.timestamp t)]
  | paidFrom t => [.text "payment_histories.created_at >= ", .param (.timestamp t)]
  | paidUntil t => [.text "payment_histories.created_at <= ", .param (.timestamp t)]

/-- The text of a join. -/
def JoinStep.sql (s : JoinStep) : String :=
  " " ++ s.kind.words ++ " " ++ s.table.source ++ " ON " ++ ((s.parent.on? s.table).getD "TRUE")

/-- The order in which the rows of a root come. -/
def Root.orderSql : Root → String
  | invoice => " ORDER BY invoices.created ASC, invoices.id ASC"
  | root => " ORDER BY " ++ root.table.alias ++ ".id ASC"

namespace Query

variable {root : Root}

/-- The pieces of a query. -/
def pieces (q : Query root) : List Piece :=
  let name := root.table.alias
  [.text ("SELECT " ++ name ++ ".* FROM " ++ root.table.source ++ " WHERE " ++ name ++
      ".id IN (SELECT " ++ name ++ ".id FROM " ++ root.table.source)] ++
    q.plan.map (fun s => .text s.sql) ++
    [.text " WHERE TRUE"] ++
    q.filters.flatMap (fun f => .text " AND " :: f.pieces) ++
    [.text ")", .text root.orderSql] ++
    if q.locked then [.text " FOR UPDATE NOWAIT"] else []

/-- The statement that asks a query. -/
def statement (q : Query root) : Statement := .ofPieces q.pieces

end Query

end TeamLedger
