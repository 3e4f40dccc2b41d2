/-
Bringing what one team owes another to a target.

A readjustment works on a set of invoices loaded before. The open ones are cancelled, the paid ones
count towards the target, and for what remains one new invoice is stored: in the direction of the
target, or the other way round if too much has been paid.
-/
import TeamLedger.Program

set_option autoImplicit false

namespace TeamLedger

/-- The amount that `fromTeam` shall owe `toTeam` in all, for a transaction or an order. -/
structure Readjustment where
  fromTeam : Ident
  toTeam : Ident
  amount : Money
  txId : Option Ident
  orderId : Option Ident
deriving DecidableEq, Repr, Inhabited

instance : JsonForm Readjustment where
  toJson r := .object [("from_team_id", toJson r.fromTeam), ("to_team_id", toJson r.toTeam),
    ("amount", toJson r.amount), ("tx_id", toJson r.txId), ("order_id", toJson r.orderId)]
  ofJson? j := do
    let ms ← j.members? ["from_team_id", "to_team_id", "amount", "tx_id", "order_id"]
    some { fromTeam := ← ms.get? "from_team_id", toTeam := ← ms.get? "to_team_id",
           amount := ← ms.get? "amount", txId := ← ms.get? "tx_id",
           orderId := ← ms.get? "order_id" }

namespace Readjustment

/-- What a readjustment brought about. -/
structure Outcome where
  cancelled : List Ident := []
  /-- What had been paid and was taken off the target. -/
  paid : Money := .zero
  created : Option Invoice := none
deriving DecidableEq, Repr

instance : JsonForm Outcome where
  toJson o := .object [("cancelled", toJson o.cancelled), ("paid_amount", toJson o.paid),
    ("created", toJson o.created)]
  ofJson? j := do
    let ms ← j.members? ["cancelled", "paid_amount", "created"]
    some { cancelled := ← ms.get? "cancelled", paid := ← ms.get? "paid_amount",
           created := ← ms.get? "created" }

/-- The invoices that a readjustment works on. -/
abbrev WorkingSet := List Invoice

/-- A service that keeps a working set. -/
abbrev Managing := Service WorkingSet

/-- Replaces the working set by what a query returns. -/
def load (query : Query .invoice) : Managing (List Invoice) := do
  let invoices ← Service.call (.find .invoice query)
  -- not reached when the call fails: the set is then the one before
  set invoices
  return invoices

/-- A correlation id; zero stands for none. -/
def correlation (id : Option Ident) : Option Ident := id.filter (· ≠ 0)

/-- What has been found and done on the way through the working set. -/
structure Progress where
  residual : Money
  paid : Money := .zero
  cancelled : List Ident := []
deriving DecidableEq, Repr

/-- Goes through the invoices behind those passed already. Whatever is cancelled is so in the
working set at once. -/
def walk (r : Readjustment) : List Invoice → List Invoice → Progress → Managing Progress
  | _, [], p => pure p
  | passed, i :: rest, p => do
    if i.fromTeam ≠ r.fromTeam then
      Service.refuse (.consistency (.fromTeamMismatch i.id i.fromTeam r.fromTeam))
    if i.toTeam ≠ r.toTeam then
      Service.refuse (.consistency (.toTeamMismatch i.id i.toTeam r.toTeam))
    match i.status with
    | .paid =>
      let residual ← Service.ofMoney (p.residual.sub i.amount)
      let paid ← Service.ofMoney (p.paid.add i.amount)
      walk r (passed ++ [i]) rest { p with residual, paid }
    | .notFinal | .notPaid =>
      let _ ← Service.call (.updateInvoiceStatus i.id .cancelled)
      let cancelled := { i with status := .cancelled }
      -- kept at once, in case a later invoice stops the walk
      set (passed ++ cancelled :: rest)
      walk r (passed ++ [cancelled]) rest { p with cancelled := p.cancelled ++ [i.id] }
    | .cancelled => walk r (passed ++ [i]) rest p

/-- The invoice for an amount that remains: the other way round if it is below zero. -/
def remainder (r : Readjustment) (residual : Money) (now : Instant) : NewInvoice where
  fromTeam := if residual.isNegative then r.toTeam else r.fromTeam
  toTeam := if residual.isNegative then r.fromTeam else r.toTeam
  kind := .shipFee
  amount := residual.abs
  txId := correlation r.txId
  orderId := correlation r.orderId
  created := now

/-- Brings what one team owes the other to the target. -/
def apply (r : Readjustment) : Managing Outcome := do
  if (correlation r.txId).isNone ∧ (correlation r.orderId).isNone then
    Service.refuse (.validation .noCorrelation)
  let p ← walk r [] (← get) { residual := r.amount }
  if p.residual.isZero then return { cancelled := p.cancelled, paid := p.paid }
  let now ← Service.now
  let invoice ← Service.call (.insertInvoice (remainder r p.residual now))
  -- counted when stored, whether or not it is committed later
  Service.count .invoicesCreated (Named.name invoice.kind)
  modify (· ++ [invoice])
  return { cancelled := p.cancelled, paid := p.paid, created := some invoice }

end Readjustment

end TeamLedger
