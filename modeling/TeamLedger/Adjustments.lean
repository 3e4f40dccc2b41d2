/-
Storing the adjustments that settled invoices call for.
-/
import TeamLedger.Program

set_option autoImplicit false

namespace TeamLedger.Adjustments

variable {σ : Type}

/-- Stores the adjustments of invoices, all created at one time, and counts them. -/
def insertAll (now : Instant) : List Invoice → Service σ (List Invoice)
  | [] => pure []
  | i :: rest => do
    match i.adjustment? now with
    | none => insertAll now rest
    | some adjustment =>
      let stored ← Service.call (.insertInvoice adjustment)
      Service.count .invoicesCreated (Named.name stored.kind)
      return stored :: (← insertAll now rest)

/-- Stores the adjustments of invoices. -/
def create (invoices : List Invoice) : Service σ (List Invoice) := do
  insertAll (← Service.now) invoices

end TeamLedger.Adjustments
