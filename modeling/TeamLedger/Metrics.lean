/-
Metrics: how often things happened, by family and label.

A family is written once one of its labels has been counted, and a label once it has been used;
families come in the order of their names, and so do labels. Of the durations only the number of
measurements is kept, for how long something took is not a matter of this library.
-/
import TeamLedger.Error

set_option autoImplicit false

namespace TeamLedger

/-- What is counted, in the order of the names. -/
inductive Metric
  | queryDuration
  | errors
  | invoicesCreated
  | limitCache
  | lockConflicts
  | submissions
deriving DecidableEq, Repr

namespace Metric

/-- All metrics, in order. -/
def all : List Metric :=
  [queryDuration, errors, invoicesCreated, limitCache, lockConflicts, submissions]

/-- The name of a metric. -/
def name : Metric → String
  | queryDuration => "invoice_db_query_duration_seconds"
  | errors => "invoice_errors_total"
  | invoicesCreated => "invoice_invoices_created_total"
  | limitCache => "invoice_limit_cache_total"
  | lockConflicts => "invoice_lock_conflicts_total"
  | submissions => "invoice_payment_submissions_total"

/-- What a metric means. -/
def help : Metric → String
  | queryDuration => "Database query duration in seconds"
  | errors => "Total number of errors by type"
  | invoicesCreated => "Total number of invoices created by type"
  | limitCache => "Total number of credit limit cache lookups by result"
  | lockConflicts => "Total number of row lock conflicts"
  | submissions => "Total number of payment submission transitions by status"

/-- What the labels of a metric tell. -/
def labelName : Metric → String
  | queryDuration => "operation"
  | errors => "error_type"
  | invoicesCreated => "type"
  | limitCache => "result"
  | lockConflicts => "operation"
  | submissions => "status"

/-- Whether a metric is a distribution of measurements or a count. -/
def isHistogram : Metric → Bool
  | queryDuration => true
  | errors | invoicesCreated | limitCache | lockConflicts | submissions => false

end Metric

/-- Labels with their counts, in the order of the labels. -/
abbrev LabelCounts := List (String × Nat)

/-- Counts a label once more. -/
def LabelCounts.bump (label : String) : LabelCounts → LabelCounts
  | [] => [(label, 1)]
  | (l, n) :: cs =>
    if label < l then (label, 1) :: (l, n) :: cs
    else if label = l then (l, n + 1) :: cs
    else (l, n) :: LabelCounts.bump label cs

/-- All counts. -/
structure Metrics where
  counts : Metric → LabelCounts

namespace Metrics

/-- Nothing has been counted. -/
def zero : Metrics := ⟨fun _ => []⟩

instance : Inhabited Metrics := ⟨zero⟩

/-- Counts something once more. -/
def bump (m : Metrics) (metric : Metric) (label : String) : Metrics :=
  ⟨fun k => if k = metric then LabelCounts.bump label (m.counts k) else m.counts k⟩

/-- How often something was counted. -/
def count (m : Metrics) (metric : Metric) (label : String) : Nat :=
  ((m.counts metric).lookup label).getD 0

/-- Counts an error that leaves the ledger. -/
def bumpError (m : Metrics) (e : LedgerError) : Metrics := m.bump .errors e.kind

/-- Counts a lock conflict, if that is what the answer to an operation is. -/
def noteConflict {α : Type} (m : Metrics) (operation : String) : Except Failure α → Metrics
  | .error (.refused (.lockConflict _)) => m.bump .lockConflicts operation
  | _ => m

/-- Counts the steps that submissions took. -/
def bumpTransitions (m : Metrics) (statuses : List Submission.Status) : Metrics :=
  statuses.foldl (fun m s => m.bump .submissions (Named.name s)) m

/-- The lines of a metric whose labels have the given counts. -/
def metricLines (metric : Metric) (counts : LabelCounts) : List String :=
  if counts.isEmpty then []
  else
    let series := if metric.isHistogram then metric.name ++ "_count" else metric.name
    ("# HELP " ++ metric.name ++ " " ++ metric.help) ::
      ("# TYPE " ++ metric.name ++ (if metric.isHistogram then " histogram" else " counter")) ::
      counts.map fun c =>
        series ++ "\x7b" ++ metric.labelName ++ "=\"" ++ c.1 ++ "\"\x7d " ++ Nat.repr c.2

/-- The metrics as text, one line each. -/
def toText (m : Metrics) : String :=
  String.join ((Metric.all.flatMap fun k => metricLines k (m.counts k)).map (· ++ "\n"))

end Metrics

end TeamLedger
