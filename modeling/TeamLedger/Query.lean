/-
Queries over invoices, submissions and payments.

A query names the table whose rows it returns, its root, the tables joined to it, the conditions on
their rows, and whether the rows are to be locked. It is built step by step. A step whose argument
is zero, empty or absent leaves the query as it is, so callers chain steps without asking first; a
condition brings in its own table; and a step to another root keeps every join and condition.

The root is part of the type of a query, so that a chain of steps is well typed exactly when each
step applies where it stands (`Query.Chain`).
-/
import TeamLedger.Query.JoinSet
import TeamLedger.Query.Filter
import TeamLedger.History

set_option autoImplicit false

namespace TeamLedger

/-- The tables whose rows a query can return. -/
inductive Root
  | invoice
  | submission
  | history
deriving DecidableEq, Repr, Inhabited

namespace Root

/-- The root as a table. -/
def table : Root → Table
  | invoice => .invoice
  | submission => .submission
  | history => .history

/-- What the rows of a root are. -/
abbrev Row : Root → Type
  | invoice => Invoice
  | submission => Submission
  | history => History

end Root

/-- A query for rows of its root. -/
structure Query (root : Root) where
  tables : JoinSet
  filters : List Filter
  locked : Bool
deriving DecidableEq, Repr

namespace Query

variable {root : Root}

/-! ## Building queries -/

/-- The query for all rows of a root. -/
def start (root : Root) (locked : Bool) : Query root :=
  ⟨JoinSet.empty.insert root.table .inner, [], locked⟩

/-- Joins a table. -/
def join (q : Query root) (t : Table) (kind : JoinKind) : Query root :=
  { q with tables := q.tables.insert t kind }

/-- Adds a condition, and its table with it. -/
def filter (q : Query root) (f : Filter) : Query root :=
  { q.join f.table .inner with filters := q.filters ++ [f] }

/-- Adds a condition on an id, unless the id is zero. -/
def filterId (q : Query root) (f : Ident → Filter) (id : Ident) : Query root :=
  if id = 0 then q else q.filter (f id)

/-- Adds a condition on a list, unless the list is empty. -/
def filterList {α : Type} (q : Query root) (f : List α → Filter) (as : List α) : Query root :=
  if as.isEmpty then q else q.filter (f as)

/-- Adds a condition, unless its argument is absent. -/
def filterSome {α : Type} (q : Query root) (f : α → Filter) (a : Option α) : Query root :=
  a.elim q fun a => q.filter (f a)

/-- The same tables and conditions with another root; the tables on the way there are joined. -/
def pivot (q : Query root) (target : Root) (path : List Table) (kind : JoinKind) : Query target :=
  ⟨path.foldl (·.insert · kind) q.tables, q.filters, q.locked⟩

/-! ## Steps -/

/-- A step from a query with the first root to one with the second. -/
inductive Step : Root → Root → Type
  | ids (ids : List Ident) : Step .invoice .invoice
  | fromTeam (id : Ident) : Step .invoice .invoice
  | toTeam (id : Ident) : Step .invoice .invoice
  | fromTeamKind (kind : Option Team.Kind) : Step .invoice .invoice
  | toTeamKind (kind : Option Team.Kind) : Step .invoice .invoice
  | status (status : Option Invoice.Status) : Step .invoice .invoice
  | statuses (statuses : List Invoice.Status) : Step .invoice .invoice
  | excludeStatuses (statuses : List Invoice.Status) : Step .invoice .invoice
  | kind (kind : Option Invoice.Kind) : Step .invoice .invoice
  | hasSubmission (wanted : Option Bool) : Step .invoice .invoice
  | txId (id : Ident) : Step .invoice .invoice
  | orderId (id : Ident) : Step .invoice .invoice
  | joinFromTeam (kind : JoinKind) : Step .invoice .invoice
  | joinToTeam (kind : JoinKind) : Step .invoice .invoice
  | toSubmissions (kind : JoinKind) : Step .invoice .submission
  | toHistories (kind : JoinKind) : Step .invoice .history
  | submission (id : Ident) : Step .submission .submission
  | createdBy (id : Ident) : Step .submission .submission
  | verifiedBy (id : Ident) : Step .submission .submission
  | submissionStatus (status : Option Submission.Status) : Step .submission .submission
  | submitted (min max : Option Instant) : Step .submission .submission
  | submissionInvoices (kind : JoinKind) : Step .submission .invoice
  | paid (min max : Option Instant) : Step .history .history
  | historyInvoices (kind : JoinKind) : Step .history .invoice
deriving Repr

/-- Takes a step. -/
def take {a b : Root} (q : Query a) : Step a b → Query b
  | .ids ids => q.filterList .invoiceIds ids
  | .fromTeam id => q.filterId .fromTeam id
  | .toTeam id => q.filterId .toTeam id
  | .fromTeamKind k => q.filterSome .fromTeamKind k
  | .toTeamKind k => q.filterSome .toTeamKind k
  | .status s => q.filterSome .status s
  | .statuses ss => q.filterList .statusIn ss
  | .excludeStatuses ss => q.filterList .statusNotIn ss
  | .kind k => q.filterSome .kind k
  | .hasSubmission b => q.filterSome .hasSubmission b
  | .txId id => q.filterId .txId id
  | .orderId id => q.filterId .orderId id
  | .joinFromTeam k => q.join .fromTeam k
  | .joinToTeam k => q.join .toTeam k
  | .toSubmissions k => q.pivot .submission [.link, .submission] k
  | .toHistories k => q.pivot .history [.history] k
  | .submission id => q.filterId .submissionId id
  | .createdBy id => q.filterId .createdBy id
  | .verifiedBy id => q.filterId .verifiedBy id
  | .submissionStatus s => q.filterSome .submissionStatus s
  | .submitted min max => (q.filterSome .submittedFrom min).filterSome .submittedUntil max
  | .submissionInvoices k => q.pivot .invoice [.link, .invoice] k
  | .paid min max => (q.filterSome .paidFrom min).filterSome .paidUntil max
  | .historyInvoices k => q.pivot .invoice [.invoice] k

/-- Steps in a row. -/
inductive Chain : Root → Root → Type
  | nil {a : Root} : Chain a a
  | cons {a b c : Root} (step : Step a b) (rest : Chain b c) : Chain a c

/-- Takes all steps of a chain. -/
def follow {a b : Root} (q : Query a) : Chain a b → Query b
  | .nil => q
  | .cons step rest => (q.take step).follow rest

/-- The query that a chain builds. -/
def build {a b : Root} (locked : Bool) (chain : Chain a b) : Query b := (start a locked).follow chain

/-! ## Queries that the workflows ask -/

/-- The invoices among the given ones that are part of a batch still under way. -/
def activeInvoices (ids : List Ident) : Query .invoice :=
  build false (.cons (.ids ids) (.cons (.toSubmissions .inner)
    (.cons (.submissionStatus (some .submitted)) (.cons (.submissionInvoices .inner) .nil))))

/-- The invoices of a submission. -/
def invoicesOf (submission : Ident) (locked : Bool) : Query .invoice :=
  build locked (.cons (.submission submission) (.cons (.submissionInvoices .inner) .nil))

end Query

end TeamLedger
