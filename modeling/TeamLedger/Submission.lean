/-
Submissions: batches of unpaid invoices that are declared and paid as one amount.

A submission is submitted, and ends by being accepted or rejected. Links say which invoices it holds;
its log has one entry for every step.
-/
import TeamLedger.Team

set_option autoImplicit false

namespace TeamLedger

namespace Submission

/-- How far a submission has got. -/
inductive Status
  | submitted
  | accepted
  | rejected
deriving DecidableEq, Repr, Inhabited

instance : Named Status where
  title
    | .submitted => "Submitted"
    | .accepted => "Accepted"
    | .rejected => "Rejected"
  noun := "submission status"
  all := [.submitted, .accepted, .rejected]
  name
    | .submitted => "submitted"
    | .accepted => "accepted"
    | .rejected => "rejected"
  names := [("submitted", .submitted), ("accepted", .accepted), ("rejected", .rejected)]
  mem_all a := by cases a <;> decide
  lookup_name a := by cases a <;> decide
  name_of_mem := by decide
  name_title a := by cases a <;> decide

/-- No step leads on from here. -/
def Status.isTerminal : Status → Bool
  | submitted => false
  | accepted | rejected => true

end Submission

/-- A batch of invoices declared as one amount. -/
structure Submission where
  id : Ident
  createdBy : Ident
  /-- Who accepted or rejected it. -/
  completedBy : Option Ident
  status : Submission.Status
  amount : Money
  receipt : String
  createdAt : Instant
deriving DecidableEq, Repr, Inhabited

/-- A submission that is still to be stored. -/
structure NewSubmission where
  createdBy : Ident
  amount : Money
  receipt : String
  createdAt : Instant
deriving DecidableEq, Repr, Inhabited

/-- The stored form of a new submission. -/
def NewSubmission.withId (s : NewSubmission) (id : Ident) : Submission where
  id
  createdBy := s.createdBy
  completedBy := none
  status := .submitted
  amount := s.amount
  receipt := s.receipt
  createdAt := s.createdAt

/-- An invoice is part of a submission. -/
structure Link where
  invoiceId : Ident
  submissionId : Ident
deriving DecidableEq, Repr, Inhabited

/-- One step of a submission. -/
structure LogEntry where
  id : Ident
  submissionId : Ident
  status : Submission.Status
  fromAgent : Agent.Kind
  byUser : Ident
  createdAt : Instant
deriving DecidableEq, Repr, Inhabited

/-- A log entry that is still to be stored. -/
structure NewLogEntry where
  submissionId : Ident
  status : Submission.Status
  fromAgent : Agent.Kind
  byUser : Ident
  createdAt : Instant
deriving DecidableEq, Repr, Inhabited

/-- The stored form of a new log entry. -/
def NewLogEntry.withId (e : NewLogEntry) (id : Ident) : LogEntry where
  id
  submissionId := e.submissionId
  status := e.status
  fromAgent := e.fromAgent
  byUser := e.byUser
  createdAt := e.createdAt

/-! ## JSON -/

instance : JsonForm Submission where
  toJson s := .object [("id", toJson s.id), ("created_by_id", toJson s.createdBy),
    ("completed_by_id", toJson s.completedBy), ("status", toJson s.status),
    ("amount", toJson s.amount), ("receipt", toJson s.receipt),
    ("created_at", toJson s.createdAt)]
  ofJson? j := do
    let ms ← j.members? ["id", "created_by_id", "completed_by_id", "status", "amount", "receipt",
      "created_at"]
    some { id := ← ms.get? "id", createdBy := ← ms.get? "created_by_id",
           completedBy := ← ms.get? "completed_by_id", status := ← ms.get? "status",
           amount := ← ms.get? "amount", receipt := ← ms.get? "receipt",
           createdAt := ← ms.get? "created_at" }

instance : JsonForm Link where
  toJson l := .object [("invoice_id", toJson l.invoiceId),
    ("payment_submission_id", toJson l.submissionId)]
  ofJson? j := do
    let ms ← j.members? ["invoice_id", "payment_submission_id"]
    some { invoiceId := ← ms.get? "invoice_id", submissionId := ← ms.get? "payment_submission_id" }

instance : JsonForm LogEntry where
  toJson e := .object [("id", toJson e.id), ("payment_submission_id", toJson e.submissionId),
    ("status", toJson e.status), ("from_agent", toJson e.fromAgent),
    ("by_user_id", toJson e.byUser), ("created_at", toJson e.createdAt)]
  ofJson? j := do
    let ms ← j.members? ["id", "payment_submission_id", "status", "from_agent", "by_user_id",
      "created_at"]
    some { id := ← ms.get? "id", submissionId := ← ms.get? "payment_submission_id",
           status := ← ms.get? "status", fromAgent := ← ms.get? "from_agent",
           byUser := ← ms.get? "by_user_id", createdAt := ← ms.get? "created_at" }

end TeamLedger
