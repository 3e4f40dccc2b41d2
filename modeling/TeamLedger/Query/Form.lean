/-
Queries in JSON: a root, whether rows are to be locked, and a chain of named steps.

A step is an array of its name and its arguments. Which names there are depends on the root at that
point of the chain; a step to another root changes them for the steps that follow.
-/
import TeamLedger.Query.Statement

set_option autoImplicit false

namespace TeamLedger

instance : Named Root where
  title
    | .invoice => "Invoice"
    | .submission => "PaymentSubmission"
    | .history => "PaymentHistory"
  noun := "root"
  all := [.invoice, .submission, .history]
  name
    | .invoice => "invoice"
    | .submission => "payment_submission"
    | .history => "payment_history"
  names := [("invoice", .invoice), ("payment_submission", .submission),
    ("payment_history", .history)]
  mem_all a := by cases a <;> decide
  lookup_name a := by cases a <;> decide
  name_of_mem := by decide
  name_title a := by cases a <;> decide

namespace Query

/-- The condition on having a submission: any, `have` or `no`. -/
def wantedSubmission? : Json → Option (Option Bool)
  | .text "any" => some none
  | .text "have" => some (some true)
  | .text "no" => some (some false)
  | _ => none

/-- A step with the root it leads to. -/
abbrev AnyStep (a : Root) := (b : Root) × Step a b

namespace Step

/-- The step on invoices with a name and arguments. -/
def ofInvoiceCall? : String → List Json → Option (AnyStep .invoice)
  | "with_ids", [x] => do some ⟨_, ids (← ofJson? x)⟩
  | "from_team", [x] => do some ⟨_, fromTeam (← ofJson? x)⟩
  | "to_team", [x] => do some ⟨_, toTeam (← ofJson? x)⟩
  | "from_team_type", [x] => do some ⟨_, fromTeamKind (← ofJson? x)⟩
  | "to_team_type", [x] => do some ⟨_, toTeamKind (← ofJson? x)⟩
  | "status", [x] => do some ⟨_, status (← ofJson? x)⟩
  | "statuses", [x] => do some ⟨_, statuses (← ofJson? x)⟩
  | "exclude_statuses", [x] => do some ⟨_, excludeStatuses (← ofJson? x)⟩
  | "with_type", [x] => do some ⟨_, kind (← ofJson? x)⟩
  | "has_submission", [x] => do some ⟨_, hasSubmission (← wantedSubmission? x)⟩
  | "tx_id", [x] => do some ⟨_, txId (← ofJson? x)⟩
  | "order_id", [x] => do some ⟨_, orderId (← ofJson? x)⟩
  | "join_from_team", [x] => do some ⟨_, joinFromTeam (← ofJson? x)⟩
  | "join_to_team", [x] => do some ⟨_, joinToTeam (← ofJson? x)⟩
  | "join_payment_submission", [x] => do some ⟨_, toSubmissions (← ofJson? x)⟩
  | "join_payment_histories", [x] => do some ⟨_, toHistories (← ofJson? x)⟩
  | _, _ => none

/-- The step on submissions with a name and arguments. -/
def ofSubmissionCall? : String → List Json → Option (AnyStep .submission)
  | "with_submission", [x] => do some ⟨_, submission (← ofJson? x)⟩
  | "created_by", [x] => do some ⟨_, createdBy (← ofJson? x)⟩
  | "verify_by", [x] => do some ⟨_, verifiedBy (← ofJson? x)⟩
  | "with_status", [x] => do some ⟨_, submissionStatus (← ofJson? x)⟩
  | "created_at", [x, y] => do some ⟨_, submitted (← ofJson? x) (← ofJson? y)⟩
  | "join_invoice", [x] => do some ⟨_, submissionInvoices (← ofJson? x)⟩
  | _, _ => none

/-- The step on payments with a name and arguments. -/
def ofHistoryCall? : String → List Json → Option (AnyStep .history)
  | "created_at", [x, y] => do some ⟨_, paid (← ofJson? x) (← ofJson? y)⟩
  | "join_invoice", [x] => do some ⟨_, historyInvoices (← ofJson? x)⟩
  | _, _ => none

/-- The step with a name and arguments. -/
def ofCall? : (a : Root) → String → List Json → Option (AnyStep a)
  | .invoice => ofInvoiceCall?
  | .submission => ofSubmissionCall?
  | .history => ofHistoryCall?

end Step

/-- A query together with its root. -/
abbrev Any := (root : Root) × Query root

/-- Takes the steps of a chain. -/
def followJson? : List Json → Any → Option Any
  | [], q => some q
  | .array (.text name :: args) :: rest, ⟨a, q⟩ => do
    let ⟨b, step⟩ ← Step.ofCall? a name args
    followJson? rest ⟨b, q.take step⟩
  | _ :: _, _ => none

/-- Reads a query. -/
def Any.ofJson? (j : Json) : Option Any := do
  let root ← (← j.get? "root") |> TeamLedger.ofJson? (α := Root)
  let locked ← match j.get? "lock" with
    | some l => l.bool?
    | none => some false
  let chain ← (← j.get? "chain").items?
  followJson? chain ⟨root, start root locked⟩

/-- Reads a query for the rows of a root. -/
def ofJson? (root : Root) (j : Json) : Option (Query root) := do
  let ⟨found, q⟩ ← Any.ofJson? j
  if h : found = root then some (h ▸ q) else none

/-- A query in words: its tables, its conditions, the order of its joins, and its statement. -/
def Any.outline (q : Any) : Json :=
  .object [
    ("root", toJson q.1),
    ("locked", toJson q.2.locked),
    ("table_count", .ofInt q.2.tables.size),
    ("tables", .array (q.2.tables.tables.map fun t =>
      .array [toJson t, toJson (q.2.tables.kind t)])),
    ("predicates", .array (q.2.filters.map fun f =>
      .array [.text f.outline.1, f.outline.2, toJson f.table])),
    ("join_plan", .array (q.2.plan.map fun s =>
      .array [toJson s.parent, toJson s.table, toJson s.kind])),
    ("sql", .text q.2.statement.sql)]

end Query

end TeamLedger
