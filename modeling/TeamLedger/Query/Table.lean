/-
The tables that queries go over, and how they are joined.

The tables form a tree with invoices in its middle: submissions hang on by the links, and
histories and the two teams of an invoice directly. Two neighbours are joined by one equation,
whichever of them comes first.
-/
import TeamLedger.Named

set_option autoImplicit false

namespace TeamLedger

/-- A table, or for teams one of the two parts that it plays. -/
inductive Table
  | invoice
  | link
  | submission
  | history
  | fromTeam
  | toTeam
deriving DecidableEq, Repr, Inhabited

instance : Named Table where
  title
    | .invoice => "Invoice"
    | .link => "InvoiceSubmission"
    | .submission => "PaymentSubmission"
    | .history => "PaymentHistory"
    | .fromTeam => "FromTeam"
    | .toTeam => "ToTeam"
  noun := "table"
  all := [.invoice, .link, .submission, .history, .fromTeam, .toTeam]
  name
    | .invoice => "invoice"
    | .link => "invoice_submission"
    | .submission => "payment_submission"
    | .history => "payment_history"
    | .fromTeam => "from_team"
    | .toTeam => "to_team"
  names := [("invoice", .invoice), ("invoice_submission", .link),
    ("payment_submission", .submission), ("payment_history", .history), ("from_team", .fromTeam),
    ("to_team", .toTeam)]
  mem_all a := by cases a <;> decide
  lookup_name a := by cases a <;> decide
  name_of_mem := by decide
  name_title a := by cases a <;> decide

namespace Table

/-- All tables, in order. -/
def all : List Table := Named.all

/-- The name that columns of the table are qualified by. -/
def «alias» : Table → String
  | invoice => "invoices"
  | link => "invoice_payment_submission"
  | submission => "payment_submissions"
  | history => "payment_histories"
  | fromTeam => "from_team"
  | toTeam => "to_team"

/-- The reference to the table where it is brought in. -/
def source : Table → String
  | fromTeam => "teams AS from_team"
  | toTeam => "teams AS to_team"
  | t => t.alias

/-- The tables that can be joined to this one. -/
def neighbours : Table → List Table
  | invoice => [link, history, fromTeam, toTeam]
  | link => [invoice, submission]
  | submission => [link]
  | history => [invoice]
  | fromTeam => [invoice]
  | toTeam => [invoice]

/-- The equation that joins two neighbours. -/
def on? : Table → Table → Option String
  | invoice, link | link, invoice => some "invoice_payment_submission.invoice_id = invoices.id"
  | link, submission | submission, link =>
    some "payment_submissions.id = invoice_payment_submission.payment_submission_id"
  | invoice, history | history, invoice => some "payment_histories.id = invoices.hist_id"
  | invoice, fromTeam | fromTeam, invoice => some "from_team.id = invoices.from_team_id"
  | invoice, toTeam | toTeam, invoice => some "to_team.id = invoices.to_team_id"
  | _, _ => none

/-- The equation does not depend on which table comes first. -/
theorem on?_comm (a b : Table) : on? a b = on? b a := by
  cases a <;> cases b <;> rfl

/-- Exactly the neighbours have an equation. -/
theorem isSome_on?_iff (a b : Table) : (on? a b).isSome ↔ b ∈ a.neighbours := by
  cases a <;> cases b <;> decide

end Table

/-- What becomes of a row that finds no partner: an inner join drops it, a left join keeps it. -/
inductive JoinKind
  | inner
  | left
deriving DecidableEq, Repr, Inhabited

instance : Named JoinKind where
  title
    | .inner => "Inner"
    | .left => "Left"
  noun := "join kind"
  all := [.inner, .left]
  name
    | .inner => "inner"
    | .left => "left"
  names := [("inner", .inner), ("left", .left)]
  mem_all a := by cases a <;> decide
  lookup_name a := by cases a <;> decide
  name_of_mem := by decide
  name_title a := by cases a <;> decide

/-- The words that bring in a joined table. -/
def JoinKind.words : JoinKind → String
  | .inner => "JOIN"
  | .left => "LEFT JOIN"

end TeamLedger
