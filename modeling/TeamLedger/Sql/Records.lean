/-
The records of the ledger as rows of a database.

A record is read column by column in one fixed order, and the first column that cannot be read
decides what is reported. A new record is stored by a statement whose text lists the columns and,
apart from them, a placeholder for each. What the placeholders stand for comes in a third list.
-/
import TeamLedger.Sql.Reply
import TeamLedger.Query
import TeamLedger.Limit

set_option autoImplicit false

namespace TeamLedger.Sql

/-! ## Reading -/

instance : RowForm Team where
  ofRow r := do
    return { id := ← r.get "id", name := ← r.get "name", code := ← r.get "team_code",
             kind := ← r.getNamed "type", createdAt := ← r.get "created_at" }

instance : RowForm Invoice where
  ofRow r := do
    return { id := ← r.get "id", fromTeam := ← r.get "from_team_id", toTeam := ← r.get "to_team_id",
             kind := ← r.getNamed "type", status := ← r.getNamed "status",
             amount := ← r.get "amount", txId := ← r.get "tx_id", orderId := ← r.get "order_id",
             hasSubmission := ← r.get "has_submission",
             needAdjustment := ← r.get "need_adjustment", historyId := ← r.get "hist_id",
             created := ← r.get "created", paidAt := ← r.get "paid_at",
             acceptedAt := ← r.get "accepted_at" }

instance : RowForm Submission where
  ofRow r := do
    return { id := ← r.get "id", createdBy := ← r.get "created_by_id",
             completedBy := ← r.get "completed_by_id", status := ← r.getNamed "status",
             amount := ← r.get "amount", receipt := ← r.get "receipt",
             createdAt := ← r.get "created_at" }

instance : RowForm LogEntry where
  ofRow r := do
    return { id := ← r.get "id", submissionId := ← r.get "payment_submission_id",
             status := ← r.getNamed "status", fromAgent := ← r.getNamed "from_agent",
             byUser := ← r.get "by_user_id", createdAt := ← r.get "created_at" }

instance : RowForm History where
  ofRow r := do
    return { id := ← r.get "id", amount := ← r.get "amount", createdBy := ← r.get "created_by_id",
             createdAt := ← r.get "created_at" }

instance : RowForm Limit where
  ofRow r := do
    return { id := ← r.get "id", teamId := ← r.get "team_id", scope := ← r.getNamed "limit_type",
             forTeam := ← r.get "for_team_id", threshold := ← r.get "threshold" }

instance : RowForm Debt where
  ofRow r := do
    return { toTeam := ← r.get "to_team_id", total := ← r.get "total",
             unpaid := ← r.get "unpaid_amount", submitted := ← r.get "submission_amount" }

/-- The rows of a root are read as what they are. -/
instance rootRowForm : (root : Root) → RowForm root.Row
  | .invoice => inferInstanceAs (RowForm Invoice)
  | .submission => inferInstanceAs (RowForm Submission)
  | .history => inferInstanceAs (RowForm History)

/-! ## Storing -/

/-- Stores a new invoice. -/
def insertInvoice (i : NewInvoice) : Statement where
  sql := "INSERT INTO invoices (from_team_id, to_team_id, type, status, amount, tx_id, order_id, " ++
    "need_adjustment, created) VALUES ($1, $2, $3, $4, $5, $6, $7, $8, $9) RETURNING *"
  params := [.int8 i.fromTeam, .int8 i.toTeam, .text (Named.name i.kind),
    .text (Named.name i.status), .numeric i.amount, .int8 i.txId, .int8 i.orderId,
    .bool i.needAdjustment, .timestamp i.created]

@[simp]
theorem insertInvoice_params (i : NewInvoice) : (insertInvoice i).params =
    [.int8 i.fromTeam, .int8 i.toTeam, .text (Named.name i.kind), .text (Named.name i.status),
      .numeric i.amount, .int8 i.txId, .int8 i.orderId, .bool i.needAdjustment,
      .timestamp i.created] := rfl

/-- Stores a new submission. -/
def insertSubmission (s : NewSubmission) : Statement where
  sql := "INSERT INTO payment_submissions (created_by_id, status, amount, receipt, created_at) " ++
    "VALUES ($1, $2, $3, $4, $5) RETURNING *"
  params := [.int8 s.createdBy, .text (Named.name Submission.Status.submitted),
    .numeric s.amount, .text s.receipt, .timestamp s.createdAt]

@[simp]
theorem insertSubmission_params (s : NewSubmission) : (insertSubmission s).params =
    [.int8 s.createdBy, .text (Named.name Submission.Status.submitted), .numeric s.amount,
      .text s.receipt, .timestamp s.createdAt] := rfl

/-- Stores a new log entry. -/
def insertLogEntry (e : NewLogEntry) : Statement where
  sql := "INSERT INTO payment_submission_logs (payment_submission_id, status, from_agent, " ++
    "by_user_id, created_at) VALUES ($1, $2, $3, $4, $5) RETURNING *"
  params := [.int8 e.submissionId, .text (Named.name e.status), .text (Named.name e.fromAgent),
    .int8 e.byUser, .timestamp e.createdAt]

@[simp]
theorem insertLogEntry_params (e : NewLogEntry) : (insertLogEntry e).params =
    [.int8 e.submissionId, .text (Named.name e.status), .text (Named.name e.fromAgent),
      .int8 e.byUser, .timestamp e.createdAt] := rfl

/-- Stores a new payment. -/
def insertHistory (h : NewHistory) : Statement where
  sql := "INSERT INTO payment_histories (amount, created_by_id, created_at) VALUES ($1, $2, $3) " ++
    "RETURNING id, amount, created_by_id, created_at"
  params := [.numeric h.amount, .int8 h.createdBy, .timestamp h.createdAt]

@[simp]
theorem insertHistory_params (h : NewHistory) : (insertHistory h).params =
    [.numeric h.amount, .int8 h.createdBy, .timestamp h.createdAt] := rfl

/-- Stores a new limit. -/
def insertLimit (l : Limit) : Statement where
  sql := "INSERT INTO invoice_limit_configurations (team_id, limit_type, for_team_id, threshold) " ++
    "VALUES ($1, $2, $3, $4) RETURNING *"
  params := [.int8 l.teamId, .text (Named.name l.scope), .int8 l.forTeam, .numeric l.threshold]

@[simp]
theorem insertLimit_params (l : Limit) : (insertLimit l).params =
    [.int8 l.teamId, .text (Named.name l.scope), .int8 l.forTeam, .numeric l.threshold] := rfl

end TeamLedger.Sql
