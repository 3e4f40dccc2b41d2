/-
What the services ask of a store.

A store keeps teams, invoices, submissions, payments and limits, and answers calls. The answer of a
call has a type of its own. A store works inside one transaction that belongs to the caller: no call
begins or ends one.
-/
import TeamLedger.Query
import TeamLedger.Limit
import TeamLedger.Error

set_option autoImplicit false

namespace TeamLedger

/-- A call to a store. -/
inductive StoreCall
  /-- The rows that a query returns; invoices come oldest first, everything else by id. -/
  | find (root : Root) (query : Query root)
  | insertInvoice (invoice : NewInvoice)
  | updateInvoiceStatus (id : Ident) (status : Invoice.Status)
  | setHasSubmission (ids : List Ident) (value : Bool)
  /-- Settles those of the invoices that are not paid. -/
  | markPaid (ids : List Ident) (settlement : Settlement)
  | insertSubmission (submission : NewSubmission)
  | linkInvoices (submission : Ident) (ids : List Ident)
  | updateSubmissionStatus (id : Ident) (status : Submission.Status) (completedBy : Ident)
  | insertLogEntry (entry : NewLogEntry)
  | insertHistory (history : NewHistory)
  | team (id : Ident)
  | teams (ids : List Ident)
  /-- What one team owes another and has not paid. -/
  | unpaidAmount (fromTeam toTeam : Ident)
  /-- The limits of a team that a counterpart may come under. -/
  | applicableLimits (teamId forTeam : Ident)
  | findLimit (teamId : Ident) (scope : Limit.Scope) (forTeam : Option Ident)
  /-- Adds the limit if its id is 0; otherwise changes the threshold of the stored one. -/
  | saveLimit (limit : Limit)
  | deleteLimits (teamId : Ident) (forTeam : Option Ident)
  | limitsOf (teamId : Ident)
  /-- The limits that some of the given teams have set for a counterpart. -/
  | limitsForCounterpart (forTeam : Ident) (teamIds : List Ident)
  /-- What a team owes each of the given teams. -/
  | debts (fromTeam : Ident) (toTeams : List Ident)
deriving Repr

namespace StoreCall

/-- What a call answers. Changes answer the number of rows they matched. -/
abbrev Answer : StoreCall → Type
  | find root _ => List root.Row
  | insertInvoice _ => Invoice
  | updateInvoiceStatus .. => Nat
  | setHasSubmission .. => Nat
  | markPaid .. => Nat
  | insertSubmission _ => Submission
  | linkInvoices .. => Unit
  | updateSubmissionStatus .. => Nat
  | insertLogEntry _ => LogEntry
  | insertHistory _ => History
  | team _ => Option Team
  | teams _ => List Team
  | unpaidAmount .. => Money
  | applicableLimits .. => List Limit
  | findLimit .. => Option Limit
  | saveLimit _ => Limit
  | deleteLimits .. => Nat
  | limitsOf _ => List Limit
  | limitsForCounterpart .. => List Limit
  | debts .. => List Debt

/-- The name that a call is counted by. -/
def operation : StoreCall → String
  | find .invoice _ => "find_invoices"
  | find .submission _ => "find_submissions"
  | find .history _ => "find_histories"
  | insertInvoice _ => "insert_invoice"
  | updateInvoiceStatus .. => "update_invoice_status"
  | setHasSubmission .. => "set_has_submission"
  | markPaid .. => "mark_invoices_paid"
  | insertSubmission _ => "insert_submission"
  | linkInvoices .. => "link_invoices"
  | updateSubmissionStatus .. => "update_submission_status"
  | insertLogEntry _ => "insert_submission_log"
  | insertHistory _ => "insert_history"
  | team _ => "get_team"
  | teams _ => "teams_by_ids"
  | unpaidAmount .. => "unpaid_amount"
  | applicableLimits .. => "applicable_limits"
  | findLimit .. => "find_limit"
  | saveLimit _ => "save_limit"
  | deleteLimits .. => "delete_limits"
  | limitsOf _ => "list_limits"
  | limitsForCounterpart .. => "limits_for_counterpart"
  | debts .. => "team_invoice_status"

end StoreCall

end TeamLedger
