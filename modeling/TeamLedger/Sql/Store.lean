/-
A database as a store.

Every call to the store is one statement and one way to read its reply, except that a call about no
rows at all is answered at once. Most calls are timed, and a timed call counts whether or not it
succeeds. A conversation is what has been sent and the replies still to come.
-/
import TeamLedger.Sql.Records
import TeamLedger.Query.Statement
import TeamLedger.Program

set_option autoImplicit false

namespace TeamLedger.Sql

/-- A statement and how its reply is read. -/
structure Exchange (α : Type) where
  statement : Statement
  read : Reply → Except Fault α
  /-- The time it takes is measured. -/
  timed : Bool

/-- How a call is answered: at once, or by an exchange. -/
inductive Plan (α : Type)
  | atOnce (answer : α)
  | exchange (e : Exchange α)

/-- The exchange about a list of rows; about none the answer is given at once. -/
def Plan.unlessEmpty {α : Type} (ids : List Ident) (answer : α) (e : Exchange α) : Plan α :=
  if ids.isEmpty then .atOnce answer else .exchange e

/-- A limit is read from the table of limits. -/
def limitsWhere : String := "SELECT * FROM invoice_limit_configurations WHERE "

/-- The exchange that stores a row and reads it back. -/
def Plan.storing {α : Type} [RowForm α] (s : Statement) (timed : Bool) : Plan α :=
  .exchange ⟨s, Reply.one, timed⟩

/-- How a call is answered. -/
def plan : (call : StoreCall) → Plan call.Answer
  | .find root q => .exchange ⟨q.statement, Reply.all (α := root.Row), true⟩
  | .insertInvoice i => .storing (insertInvoice i) true
  | .updateInvoiceStatus id status => .exchange
    ⟨.ofPieces [.text "UPDATE invoices SET status = ", .param (.text (Named.name status)),
      .text " WHERE id = ", .param (.int8 id)], Reply.count, true⟩
  | .setHasSubmission ids value => .unlessEmpty ids 0
    ⟨.ofPieces [.text "UPDATE invoices SET has_submission = ", .param (.bool value),
      .text " WHERE id = ANY(", .param (.int8s ids), .text ")"], Reply.count, true⟩
  | .markPaid ids s => .unlessEmpty ids 0
    ⟨.ofPieces [.text "UPDATE invoices SET status = ",
      .param (.text (Named.name Invoice.Status.paid)), .text ", hist_id = ",
      .param (.int8 s.historyId), .text ", paid_at = ", .param (.timestamp s.paidAt),
      .text ", accepted_at = ", .param (.timestamp s.acceptedAt), .text " WHERE id = ANY(",
      .param (.int8s ids), .text ") AND status = ",
      .param (.text (Named.name Invoice.Status.notPaid))], Reply.count, true⟩
  | .insertSubmission s => .storing (insertSubmission s) true
  | .linkInvoices submission ids => .unlessEmpty ids ()
    ⟨.ofPieces [.text ("INSERT INTO invoice_payment_submission (invoice_id, " ++
        "payment_submission_id) SELECT UNNEST("), .param (.int8s ids), .text "::BIGINT[]), ",
      .param (.int8 submission)], fun r => r.count.map fun _ => (), true⟩
  | .updateSubmissionStatus id status completedBy => .exchange
    ⟨.ofPieces [.text "UPDATE payment_submissions SET status = ",
      .param (.text (Named.name status)), .text ", completed_by_id = ",
      .param (.int8 completedBy), .text " WHERE id = ", .param (.int8 id)], Reply.count, true⟩
  | .insertLogEntry e => .storing (insertLogEntry e) false
  | .insertHistory h => .storing (insertHistory h) false
  | .team id => .exchange
    ⟨.ofPieces [.text "SELECT * FROM teams WHERE id = ", .param (.int8 id)], Reply.optional, false⟩
  | .teams ids => .unlessEmpty ids []
    ⟨.ofPieces [.text "SELECT * FROM teams WHERE id = ANY(", .param (.int8s ids),
      .text ") ORDER BY id"], Reply.all, false⟩
  | .unpaidAmount fromTeam toTeam => .exchange
    ⟨.ofPieces [.text "SELECT COALESCE(SUM(amount), 0) FROM invoices WHERE from_team_id = ",
      .param (.int8 fromTeam), .text " AND to_team_id = ", .param (.int8 toTeam),
      .text " AND status = ", .param (.text (Named.name Invoice.Status.notPaid))],
      fun r => do (← r.oneRow).first, true⟩
  | .applicableLimits teamId forTeam => .exchange
    ⟨.ofPieces [.text (limitsWhere ++ "team_id = "), .param (.int8 teamId),
      .text " AND (limit_type = ", .param (.text (Named.name Limit.Scope.default)),
      .text " OR (limit_type = ", .param (.text (Named.name Limit.Scope.team)),
      .text " AND for_team_id = ", .param (.int8 forTeam), .text ")) ORDER BY id"],
      Reply.all, false⟩
  | .findLimit teamId scope forTeam => .exchange
    ⟨.ofPieces [.text (limitsWhere ++ "team_id = "), .param (.int8 teamId),
      .text " AND limit_type = ", .param (.text (Named.name scope)),
      .text " AND for_team_id IS NOT DISTINCT FROM ", .param (.int8 forTeam)],
      Reply.optional, false⟩
  | .saveLimit l =>
    if l.id = 0 then .storing (insertLimit l) false
    else .exchange
      ⟨.ofPieces [.text "UPDATE invoice_limit_configurations SET threshold = ",
        .param (.numeric l.threshold), .text " WHERE id = ", .param (.int8 l.id),
        .text " RETURNING *"], Reply.one, false⟩
  | .deleteLimits teamId forTeam => .exchange
    ⟨.ofPieces ([.text "DELETE FROM invoice_limit_configurations WHERE team_id = ",
      .param (.int8 teamId)] ++
      forTeam.elim [] fun f => [.text " AND for_team_id = ", .param (.int8 f)]),
      Reply.count, false⟩
  | .limitsOf teamId => .exchange
    ⟨.ofPieces [.text (limitsWhere ++ "team_id = "), .param (.int8 teamId),
      .text " ORDER BY id"], Reply.all, false⟩
  | .limitsForCounterpart forTeam teamIds => .exchange
    ⟨.ofPieces [.text (limitsWhere ++ "for_team_id = "), .param (.int8 forTeam),
      .text " AND team_id = ANY(", .param (.int8s teamIds), .text ") ORDER BY id"],
      Reply.all, false⟩
  | .debts fromTeam toTeams => .exchange
    ⟨.ofPieces [.text ("SELECT to_team_id, COALESCE(SUM(amount), 0) AS total, " ++
        "COALESCE(SUM(amount) FILTER (WHERE has_submission IS NOT TRUE), 0) AS unpaid_amount, " ++
        "COALESCE(SUM(amount) FILTER (WHERE has_submission = TRUE), 0) AS submission_amount " ++
        "FROM invoices WHERE from_team_id = "), .param (.int8 fromTeam),
      .text " AND to_team_id = ANY(", .param (.int8s toTeams), .text ") AND status = ",
      .param (.text (Named.name Invoice.Status.notPaid)),
      .text " GROUP BY to_team_id ORDER BY to_team_id"], Reply.all, true⟩

/-! ## Conversations -/

/-- What has been sent to a database, and its replies still to come. -/
structure Conversation where
  sent : List Statement := []
  replies : List Reply
deriving DecidableEq, Repr

/-- Sends a statement and takes the next reply. Without one, no row was changed. -/
def Conversation.send (c : Conversation) (s : Statement) : Reply × Conversation :=
  match c.replies with
  | [] => (.affected 0, { c with sent := c.sent ++ [s] })
  | r :: rs => (r, { sent := c.sent ++ [s], replies := rs })

/-- A database as a store. -/
def backend : Backend Conversation where
  answer call c m :=
    match plan call with
    | .atOnce a => (.ok a, c, m)
    | .exchange e =>
      let (reply, c) := c.send e.statement
      let answer := (e.read reply).mapError Failure.ofFault
      let m := if e.timed then m.bump .queryDuration call.operation else m
      (answer, c, m.noteConflict call.operation answer)

end TeamLedger.Sql
