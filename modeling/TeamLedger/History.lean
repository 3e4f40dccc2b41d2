/-
Payment histories: one entry for every submission that was accepted.
-/
import TeamLedger.Agent

set_option autoImplicit false

namespace TeamLedger

/-- A payment that settled a batch of invoices. -/
structure History where
  id : Ident
  amount : Money
  createdBy : Ident
  createdAt : Instant
deriving DecidableEq, Repr, Inhabited

/-- A payment that is still to be stored. -/
structure NewHistory where
  amount : Money
  createdBy : Ident
  createdAt : Instant
deriving DecidableEq, Repr, Inhabited

/-- The stored form of a new payment. -/
def NewHistory.withId (h : NewHistory) (id : Ident) : History where
  id
  amount := h.amount
  createdBy := h.createdBy
  createdAt := h.createdAt

instance : JsonForm History where
  toJson h := .object [("id", toJson h.id), ("amount", toJson h.amount),
    ("created_by_id", toJson h.createdBy), ("created_at", toJson h.createdAt)]
  ofJson? j := do
    let ms ← j.members? ["id", "amount", "created_by_id", "created_at"]
    some { id := ← ms.get? "id", amount := ← ms.get? "amount",
           createdBy := ← ms.get? "created_by_id", createdAt := ← ms.get? "created_at" }

end TeamLedger
