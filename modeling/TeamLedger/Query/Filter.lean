/-
The conditions that a query puts on rows. Every condition is about the columns of one table.
-/
import TeamLedger.Query.Table
import TeamLedger.Invoice
import TeamLedger.Submission

set_option autoImplicit false

namespace TeamLedger

/-- A condition on the rows of one table. -/
inductive Filter
  | invoiceIds (ids : List Ident)
  | fromTeam (id : Ident)
  | toTeam (id : Ident)
  | fromTeamKind (kind : Team.Kind)
  | toTeamKind (kind : Team.Kind)
  | status (status : Invoice.Status)
  | statusIn (statuses : List Invoice.Status)
  | statusNotIn (statuses : List Invoice.Status)
  | kind (kind : Invoice.Kind)
  | hasSubmission (wanted : Bool)
  | txId (id : Ident)
  | orderId (id : Ident)
  | submissionId (id : Ident)
  | createdBy (id : Ident)
  | verifiedBy (id : Ident)
  | submissionStatus (status : Submission.Status)
  | submittedFrom (at' : Instant)
  | submittedUntil (at' : Instant)
  | paidFrom (at' : Instant)
  | paidUntil (at' : Instant)
deriving DecidableEq, Repr

namespace Filter

/-- The table that a condition is about. -/
def table : Filter → Table
  | fromTeamKind _ => .fromTeam
  | toTeamKind _ => .toTeam
  | submissionId _ | createdBy _ | verifiedBy _ | submissionStatus _ | submittedFrom _
  | submittedUntil _ => .submission
  | paidFrom _ | paidUntil _ => .history
  | invoiceIds _ | fromTeam _ | toTeam _ | status _ | statusIn _ | statusNotIn _ | kind _
  | hasSubmission _ | txId _ | orderId _ => .invoice

/-- A condition in words: its name and what it asks for. -/
def outline : Filter → String × Json
  | invoiceIds ids => ("invoice_ids", toJson ids)
  | fromTeam id => ("from_team", toJson id)
  | toTeam id => ("to_team", toJson id)
  | fromTeamKind k => ("from_team_type", toJson k)
  | toTeamKind k => ("to_team_type", toJson k)
  | status s => ("status", toJson s)
  | statusIn ss => ("status_in", toJson ss)
  | statusNotIn ss => ("status_not_in", toJson ss)
  | kind k => ("kind", toJson k)
  | hasSubmission b => ("has_submission", toJson b)
  | txId id => ("tx_id", toJson id)
  | orderId id => ("order_id", toJson id)
  | submissionId id => ("submission_id", toJson id)
  | createdBy id => ("created_by", toJson id)
  | verifiedBy id => ("verified_by", toJson id)
  | submissionStatus s => ("submission_state", toJson s)
  | submittedFrom t => ("submission_created_from", toJson t)
  | submittedUntil t => ("submission_created_until", toJson t)
  | paidFrom t => ("history_created_from", toJson t)
  | paidUntil t => ("history_created_until", toJson t)

end Filter

end TeamLedger
