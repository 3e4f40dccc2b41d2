/-
Invoices: what one team owes another.

An invoice is open until it is paid or cancelled. Settling an invoice may call for an adjustment, a
new invoice in the opposite direction; adjustments themselves are never adjusted.
-/
import TeamLedger.Team

set_option autoImplicit false

namespace TeamLedger

namespace Invoice

/-- What an invoice is for. -/
inductive Kind
  | shipFee
  | product
  | warehouseFee
  | warehouseAdjustment
  | productAdjustment
  | commonAdjustment
deriving DecidableEq, Repr, Inhabited

instance : Named Kind where
  title
    | .shipFee => "ShipFee"
    | .product => "Product"
    | .warehouseFee => "WarehouseFee"
    | .warehouseAdjustment => "WarehouseAdjustment"
    | .productAdjustment => "ProductAdjustment"
    | .commonAdjustment => "CommonAdjustment"
  noun := "invoice type"
  all := [.shipFee, .product, .warehouseFee, .warehouseAdjustment, .productAdjustment,
    .commonAdjustment]
  name
    | .shipFee => "ship_fee"
    | .product => "product"
    | .warehouseFee => "warehouse_fee"
    | .warehouseAdjustment => "warehouse_adjustment"
    | .productAdjustment => "product_adjustment"
    | .commonAdjustment => "common_adjustment"
  names := [("ship_fee", .shipFee), ("product", .product), ("warehouse_fee", .warehouseFee),
    ("warehouse_adjustment", .warehouseAdjustment), ("product_adjustment", .productAdjustment),
    ("common_adjustment", .commonAdjustment)]
  mem_all a := by cases a <;> decide
  lookup_name a := by cases a <;> decide
  name_of_mem := by decide
  name_title a := by cases a <;> decide

namespace Kind

/-- The invoice is itself an adjustment. -/
def isAdjustment : Kind → Bool
  | warehouseAdjustment | productAdjustment | commonAdjustment => true
  | shipFee | product | warehouseFee => false

/-- The kind of the invoice that adjusts one of this kind. -/
def adjustment : Kind → Kind
  | product => productAdjustment
  | warehouseFee => warehouseAdjustment
  | shipFee => commonAdjustment
  | k => k

end Kind

/-- How far an invoice has got. -/
inductive Status
  | notFinal
  | notPaid
  | paid
  | cancelled
deriving DecidableEq, Repr, Inhabited

instance : Named Status where
  title
    | .notFinal => "NotFinal"
    | .notPaid => "NotPaid"
    | .paid => "Paid"
    | .cancelled => "Cancel"
  noun := "invoice status"
  all := [.notFinal, .notPaid, .paid, .cancelled]
  name
    | .notFinal => "not_final"
    | .notPaid => "not_paid"
    | .paid => "paid"
    | .cancelled => "cancel"
  names := [("not_final", .notFinal), ("not_paid", .notPaid), ("paid", .paid),
    ("cancel", .cancelled)]
  mem_all a := by cases a <;> decide
  lookup_name a := by cases a <;> decide
  name_of_mem := by decide
  name_title a := by cases a <;> decide

end Invoice

/-- What `fromTeam` owes `toTeam`. -/
structure Invoice where
  id : Ident
  fromTeam : Ident
  toTeam : Ident
  kind : Invoice.Kind
  status : Invoice.Status
  amount : Money
  txId : Option Ident
  orderId : Option Ident
  /-- The invoice is part of a submission that has not been rejected. -/
  hasSubmission : Bool
  /-- Settling the invoice calls for an adjustment. -/
  needAdjustment : Bool
  /-- The payment that settled the invoice. -/
  historyId : Option Ident
  created : Instant
  paidAt : Option Instant
  acceptedAt : Option Instant
deriving DecidableEq, Repr, Inhabited

/-- An invoice that is still to be stored. -/
structure NewInvoice where
  fromTeam : Ident
  toTeam : Ident
  kind : Invoice.Kind
  status : Invoice.Status := .notPaid
  amount : Money
  txId : Option Ident := none
  orderId : Option Ident := none
  needAdjustment : Bool := false
  created : Instant
deriving DecidableEq, Repr, Inhabited

/-- The stored form of a new invoice. -/
def NewInvoice.withId (i : NewInvoice) (id : Ident) : Invoice where
  id
  fromTeam := i.fromTeam
  toTeam := i.toTeam
  kind := i.kind
  status := i.status
  amount := i.amount
  txId := i.txId
  orderId := i.orderId
  hasSubmission := false
  needAdjustment := i.needAdjustment
  historyId := none
  created := i.created
  paidAt := none
  acceptedAt := none

/-- What settling writes on an invoice. -/
structure Settlement where
  historyId : Ident
  paidAt : Instant
  acceptedAt : Instant
deriving DecidableEq, Repr, Inhabited

namespace Invoice

/-- The invoice, settled. -/
def settled (i : Invoice) (s : Settlement) : Invoice :=
  { i with
    status := .paid
    historyId := some s.historyId
    paidAt := some s.paidAt
    acceptedAt := some s.acceptedAt }

/-- The adjustment that settling an invoice calls for, created at the given time: the same amount in
the opposite direction. -/
def adjustment? (i : Invoice) (now : Instant) : Option NewInvoice :=
  if i.kind.isAdjustment then none
  else some
    { fromTeam := i.toTeam
      toTeam := i.fromTeam
      kind := i.kind.adjustment
      amount := i.amount
      orderId := i.orderId
      created := now }

instance : JsonForm Invoice where
  toJson i := .object [("id", toJson i.id), ("from_team_id", toJson i.fromTeam),
    ("to_team_id", toJson i.toTeam), ("invoice_type", toJson i.kind),
    ("status", toJson i.status), ("amount", toJson i.amount), ("tx_id", toJson i.txId),
    ("order_id", toJson i.orderId), ("has_submission", toJson i.hasSubmission),
    ("need_adjustment", toJson i.needAdjustment), ("hist_id", toJson i.historyId),
    ("created", toJson i.created), ("paid_at", toJson i.paidAt),
    ("accepted_at", toJson i.acceptedAt)]
  ofJson? j := do
    let ms ← j.members? ["id", "from_team_id", "to_team_id", "invoice_type", "status", "amount",
      "tx_id", "order_id", "has_submission", "need_adjustment", "hist_id", "created", "paid_at",
      "accepted_at"]
    some { id := ← ms.get? "id", fromTeam := ← ms.get? "from_team_id",
           toTeam := ← ms.get? "to_team_id", kind := ← ms.get? "invoice_type",
           status := ← ms.get? "status", amount := ← ms.get? "amount", txId := ← ms.get? "tx_id",
           orderId := ← ms.get? "order_id", hasSubmission := ← ms.get? "has_submission",
           needAdjustment := ← ms.get? "need_adjustment", historyId := ← ms.get? "hist_id",
           created := ← ms.get? "created", paidAt := ← ms.get? "paid_at",
           acceptedAt := ← ms.get? "accepted_at" }

end Invoice

instance : JsonForm NewInvoice where
  toJson i := .object [("from_team_id", toJson i.fromTeam), ("to_team_id", toJson i.toTeam),
    ("invoice_type", toJson i.kind), ("status", toJson i.status), ("amount", toJson i.amount),
    ("tx_id", toJson i.txId), ("order_id", toJson i.orderId),
    ("need_adjustment", toJson i.needAdjustment), ("created", toJson i.created)]
  ofJson? j := do
    let ms ← j.members? ["from_team_id", "to_team_id", "invoice_type", "status", "amount", "tx_id",
      "order_id", "need_adjustment", "created"]
    some { fromTeam := ← ms.get? "from_team_id", toTeam := ← ms.get? "to_team_id",
           kind := ← ms.get? "invoice_type", status := ← ms.get? "status",
           amount := ← ms.get? "amount", txId := ← ms.get? "tx_id",
           orderId := ← ms.get? "order_id", needAdjustment := ← ms.get? "need_adjustment",
           created := ← ms.get? "created" }

end TeamLedger
