/-
Which invoices a payment of a given amount is for.

Invoices are taken in the given order until their amounts reach the target. Cancelled ones and those
of a batch still under way are passed over. An invoice that is not final or already paid stops the
selection, and so does one whose amount leads beyond the target; behind the last invoice taken
nothing is looked at.
-/
import TeamLedger.Error

set_option autoImplicit false

namespace TeamLedger.Selection

/-- Takes invoices, beginning with a sum reached before. The result is what was taken and the sum. -/
def gather (active : List Ident) (target : Money) :
    Money → List Invoice → Except Failure (List Ident × Money)
  | total, [] => .ok ([], total)
  | total, i :: rest =>
    match i.status with
    | .notFinal => .error (.refused (.consistency (.notFinal i.id)))
    | .paid => .error (.refused (.consistency (.alreadyPaid i.id)))
    | .cancelled => gather active target total rest
    | .notPaid =>
      if active.contains i.id then gather active target total rest
      else
        match total.add i.amount with
        | .error operation => .error (.overflow operation)
        | .ok total =>
          -- an invoice is paid in full or not at all
          if target < total then .error (.refused (.amount (.overshoot target i.id)))
          else if total ≈ target then .ok ([i.id], total)
          else (gather active target total rest).map fun taken => (i.id :: taken.1, taken.2)

/-- The invoices that a payment of `target` is for. They have to reach it, and there has to be one. -/
def select (invoices : List Invoice) (active : List Ident) (target : Money) :
    Except Failure (List Ident) := do
  let (selected, total) ← gather active target .zero invoices
  if total < target then throw (.refused (.amount (.shortfall target total)))
  else if selected.isEmpty then throw (.refused (.amount .nothingToSubmit))
  else pure selected

end TeamLedger.Selection
