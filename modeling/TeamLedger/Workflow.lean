/-
The life of a submission: it is created from unpaid invoices, and ends by being accepted or rejected.

A workflow acts for an agent and keeps the submission that it created or loaded, together with the
steps that it has written. Creating checks everything before it writes anything. Accepting settles
the invoices of the submission, provided that they still add up to its amount. Rejecting sets them
free for a later submission; their links stay.
-/
import TeamLedger.Selection
import TeamLedger.Adjustments

set_option autoImplicit false

namespace TeamLedger

/-- The state of a workflow. -/
structure Workflow where
  agent : Agent
  /-- The submission that was created or loaded last, as the workflow left it. -/
  data : Option Submission := none
  /-- The steps that were written. They count once the transaction is committed. -/
  transitions : List Submission.Status := []
deriving DecidableEq, Repr

/-- What accepting a submission brought about. -/
structure AcceptOutcome where
  history : History
  paidInvoices : List Ident
  adjustments : List Invoice
deriving DecidableEq, Repr

instance : JsonForm AcceptOutcome where
  toJson o := .object [("history", toJson o.history), ("paid_invoice_ids", toJson o.paidInvoices),
    ("adjustments", toJson o.adjustments)]
  ofJson? j := do
    let ms ← j.members? ["history", "paid_invoice_ids", "adjustments"]
    some { history := ← ms.get? "history", paidInvoices := ← ms.get? "paid_invoice_ids",
           adjustments := ← ms.get? "adjustments" }

namespace Workflow

/-- A service that keeps the state of a workflow. -/
abbrev Flow := Service Workflow

/-- The submission that the workflow is about. -/
def loaded : Flow Submission := do
  match (← get).data with
  | some s => pure s
  | none => Service.refuse (.consistency .notLoaded)

/-- Loads the first submission that a query returns. -/
def load (query : Query .submission) : Flow Submission := do
  match ← Service.call (.find .submission query) with
  | [] => Service.refuse (.notFound .anySubmission)
  | s :: _ =>
    modify fun w => { w with data := some s }
    pure s

/-- Writes a log entry about the loaded submission, and remembers the step. -/
def log (status : Submission.Status) : Flow Unit := do
  let submission ← loaded
  let agent := (← get).agent
  let now ← Service.now
  let _ ← Service.call (.insertLogEntry
    { submissionId := submission.id, status, fromAgent := agent.kind, byUser := agent.userId,
      createdAt := now })
  modify fun w => { w with transitions := w.transitions ++ [status] }

/-! ## Creating -/

/-- Those of the invoices that are part of a batch still under way. -/
def activeAmong (invoices : List Invoice) : Flow (List Ident) := do
  if invoices.isEmpty then return []
  let active ← Service.call (.find .invoice (Query.activeInvoices (invoices.map (·.id))))
  return active.map (·.id)

/-- The amount to be reached: the given one, or for zero the sum of all invoices. -/
def targetOf (invoices : List Invoice) (amount : Money) : Except Money.Overflow Money :=
  if amount.isZero then Money.total (invoices.map (·.amount)) else .ok amount

/-- The result of a selection. -/
def ofSelection {α : Type} (r : Except Failure α) : Flow α :=
  match r with
  | .ok a => pure a
  | .error e => throw e

/-- Creates a submission of the given amount from the unpaid invoices that a query returns. -/
def create (query : Query .invoice) (receipt : String) (amount : Money) : Flow Submission := do
  if amount.isNegative then Service.refuse (.validation (.negativePayment amount))
  let invoices ← Service.call (.find .invoice query)
  let target ← Service.ofMoney (targetOf invoices amount)
  let active ← activeAmong invoices
  let selected ← ofSelection (Selection.select invoices active target)
  let now ← Service.now
  -- nothing has been written up to here
  let submission ← Service.call (.insertSubmission
    { createdBy := (← get).agent.userId, amount := target, receipt, createdAt := now })
  let _ ← Service.call (.setHasSubmission selected true)
  Service.call (.linkInvoices submission.id selected)
  modify fun w => { w with data := some submission }
  log .submitted
  return submission

/-- Creates a submission of all the invoices that a query returns. -/
def createAll (query : Query .invoice) (receipt : String) : Flow Submission :=
  create query receipt .zero

/-! ## Ending -/

/-- Moves the loaded submission to a status. -/
def updateStatus (status : Submission.Status) : Flow Unit := do
  let submission ← loaded
  -- this is the workflow's copy, as old as its loading
  if submission.status.isTerminal then
    Service.refuse (.consistency (.alreadyEnded submission.id submission.status))
  let user := (← get).agent.userId
  let updated ← Service.call (.updateSubmissionStatus submission.id status user)
  if updated = 0 then Service.refuse (.notFound (.submission submission.id))
  modify fun w =>
    { w with data := w.data.map fun s => { s with status, completedBy := some user } }
  log status

/-- What is found while the invoices of a submission are gone through. -/
structure Settling where
  payable : List Ident := []
  total : Money := .zero
  toAdjust : List Invoice := []
deriving DecidableEq, Repr

/-- Takes one more invoice of a submission into account. -/
def Settling.add (s : Settling) (i : Invoice) : Except Failure Settling :=
  match i.status with
  | .notFinal => .error (.refused (.consistency (.notFinal i.id)))
  | .paid => .error (.refused (.consistency (.alreadyPaid i.id)))
  -- passed over, so that the sum falls short of the amount
  | .cancelled => .ok s
  | .notPaid =>
    match s.total.add i.amount with
    | .error operation => .error (.overflow operation)
    | .ok total => .ok
        { payable := s.payable ++ [i.id]
          total
          toAdjust :=
            if i.needAdjustment && !i.kind.isAdjustment then s.toAdjust ++ [i] else s.toAdjust }

/-- Accepts the loaded submission and settles its invoices. -/
def accept : Flow AcceptOutcome := do
  let submission ← loaded
  -- again the copy; the row itself is not looked at
  if submission.status ≠ .submitted then
    Service.refuse (.consistency (.notSubmitted submission.id submission.status))
  -- this locks the invoices, and takes a new snapshot of everything
  let linked ← Service.call (.find .invoice (Query.invoicesOf submission.id true))
  let settling ← ofSelection (linked.foldlM Settling.add {})
  if ¬ settling.total ≈ submission.amount then
    Service.refuse (.amount (.declaredMismatch submission.id submission.amount settling.total))
  updateStatus .accepted
  let now ← Service.now
  let history ← Service.call (.insertHistory
    { amount := submission.amount, createdBy := (← get).agent.userId, createdAt := now })
  let _ ← Service.call (.markPaid settling.payable
    { historyId := history.id, paidAt := submission.createdAt, acceptedAt := now })
  let adjustments ← Adjustments.create settling.toAdjust
  return { history, paidInvoices := settling.payable, adjustments }

/-- Rejects the loaded submission and sets its invoices free. The result is how many there were. -/
def reject : Flow Nat := do
  updateStatus .rejected
  let submission ← loaded
  -- rejected batches keep their links, by which their invoices are found
  let linked ← Service.call (.find .invoice (Query.invoicesOf submission.id false))
  Service.call (.setHasSubmission (linked.map (·.id)) false)

end Workflow

end TeamLedger
