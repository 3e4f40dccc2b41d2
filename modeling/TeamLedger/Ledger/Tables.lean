/-
The tables of the ledger, and changes laid over them.
-/
import TeamLedger.Rows
import TeamLedger.Query
import TeamLedger.Limit
import TeamLedger.Error

set_option autoImplicit false

namespace TeamLedger

/-- The tables of the ledger. Links come in the order in which they were committed. -/
structure Tables where
  teams : Rows Team := .empty
  invoices : Rows Invoice := .empty
  submissions : Rows Submission := .empty
  links : List Link := []
  logs : Rows LogEntry := .empty
  histories : Rows History := .empty
  limits : Rows Limit := .empty

instance : Inhabited Tables := ⟨{}⟩

/-- Rows written but not committed, and limits deleted. -/
structure Changes where
  invoices : Rows Invoice := .empty
  submissions : Rows Submission := .empty
  links : List Link := []
  logs : Rows LogEntry := .empty
  histories : Rows History := .empty
  limits : Rows Limit := .empty
  deletedLimits : IdSet := .empty

instance : Inhabited Changes := ⟨{}⟩

/-- The tables with changes laid over them. -/
def Tables.apply (t : Tables) (c : Changes) : Tables where
  teams := t.teams
  invoices := t.invoices.overlay c.invoices
  submissions := t.submissions.overlay c.submissions
  links := t.links ++ c.links
  logs := t.logs.overlay c.logs
  histories := t.histories.overlay c.histories
  -- deleted last: a limit written before it was deleted is gone
  limits := (t.limits.overlay c.limits).eraseAll c.deletedLimits.ids

/-- A row whose changes are checked for conflicts. -/
structure RowKey where
  kind : RowKind
  id : Ident
deriving DecidableEq, Repr

/-- The rows that changes write and that are checked for conflicts, in the order of the check. -/
def Changes.written (c : Changes) : List RowKey :=
  c.invoices.ids.map (⟨.invoice, ·⟩) ++ c.submissions.ids.map (⟨.submission, ·⟩) ++
    c.limits.ids.map (⟨.limit, ·⟩) ++ c.deletedLimits.ids.map (⟨.limit, ·⟩)

/-! ## Rows of a root -/

namespace Root

/-- The rows of a root. -/
def rows (t : Tables) : (root : Root) → Rows root.Row
  | invoice => t.invoices
  | submission => t.submissions
  | history => t.histories

/-- The id of a row. -/
def idOf : (root : Root) → root.Row → Ident
  | invoice => Invoice.id
  | submission => Submission.id
  | history => History.id

end Root

/-- The first invoice is older than the second, or as old and has no larger id. -/
def Invoice.notYounger (a b : Invoice) : Prop :=
  a.created < b.created ∨ a.created = b.created ∧ a.id ≤ b.id

instance (a b : Invoice) : Decidable (a.notYounger b) :=
  inferInstanceAs (Decidable (a.created < b.created ∨ a.created = b.created ∧ a.id ≤ b.id))

/-- Puts an invoice in front of the first one that is younger. -/
def Invoice.insertByAge (a : Invoice) : List Invoice → List Invoice
  | [] => [a]
  | b :: bs => if a.notYounger b then a :: b :: bs else b :: insertByAge a bs

/-- Invoices, oldest first; of the same age the smallest id first. -/
def Invoice.oldestFirst (is : List Invoice) : List Invoice := is.foldr insertByAge []

/-- The order in which the rows of a root are returned, given that they come by id. -/
def Root.inOrder : (root : Root) → List root.Row → List root.Row
  | .invoice => Invoice.oldestFirst
  | .submission => fun rows => rows
  | .history => fun rows => rows

end TeamLedger
