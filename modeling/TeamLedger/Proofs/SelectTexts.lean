/-
What the statement of a query says.

The text of a statement is that of a syntax: columns, the equations that join two
tables, conditions, and around them a statement of one shape
(`Query.statement_eq`). The syntax is read as a database reads it. A column of a
table without a row is NULL, a comparison with NULL is neither true nor false,
and only what is true counts. A joined table has a row that the equation holds
for, or none at all, and that only in a left join and if no row would do.

A row assigned to each table, or NULL, is a `Joined`; tables that a statement
does not bring in have none.
-/
import TeamLedger.Ledger.Select
import TeamLedger.Query.Statement

set_option autoImplicit false

namespace TeamLedger

/-! ## Rows for tables -/

/-- What the rows of a table are. -/
abbrev Table.Row : Table → Type
  | invoice => Invoice
  | link => Link
  | submission => Submission
  | history => History
  | fromTeam => Team
  | toTeam => Team

/-- The row is stored in the table. -/
def Tables.Stored (t : Tables) : (u : Table) → u.Row → Prop
  | .invoice => fun i => i ∈ t.invoices.values
  | .link => fun l => l ∈ t.links
  | .submission => fun s => s ∈ t.submissions.values
  | .history => fun h => h ∈ t.histories.values
  | .fromTeam => fun team => team ∈ t.teams.values
  | .toTeam => fun team => team ∈ t.teams.values

namespace Joined

/-- The row of a table. -/
def get (a : Joined) : (u : Table) → Option u.Row
  | .invoice => a.invoice
  | .link => a.link
  | .submission => a.submission
  | .history => a.history
  | .fromTeam => a.fromTeam
  | .toTeam => a.toTeam

/-- The same rows, but another one for a table. -/
def put (a : Joined) : (u : Table) → u.Row → Joined
  | .invoice => fun i => { a with invoice := some i }
  | .link => fun l => { a with link := some l }
  | .submission => fun s => { a with submission := some s }
  | .history => fun h => { a with history := some h }
  | .fromTeam => fun team => { a with fromTeam := some team }
  | .toTeam => fun team => { a with toTeam := some team }

/-- The row of the root. -/
def rootRow (a : Joined) : (root : Root) → Option root.Row
  | .invoice => a.invoice
  | .submission => a.submission
  | .history => a.history

@[simp] theorem get_put_self (a : Joined) (u : Table) (r : u.Row) : (a.put u r).get u = some r := by
  cases u <;> rfl

theorem get_put_of_ne (a : Joined) {u v : Table} (r : u.Row) (h : v ≠ u) :
    (a.put u r).get v = a.get v := by
  cases u <;> cases v <;> first | rfl | exact absurd rfl h

/-- Rows are the same if they are the same for every table. -/
theorem ext_get {a b : Joined} (h : ∀ u, a.get u = b.get u) : a = b := by
  obtain ⟨_, _, _, _, _, _⟩ := a
  obtain ⟨_, _, _, _, _, _⟩ := b
  exact Joined.mk.injEq .. ▸ ⟨h .invoice, h .link, h .submission, h .history, h .fromTeam, h .toTeam⟩

end Joined

namespace Sql

/-! ## Columns -/

/-- A value other than NULL. -/
inductive Value
  | int8 (value : Int)
  | text (value : String)
  | bool (value : Bool)
  | timestamp (value : Instant)
deriving DecidableEq, Repr

/-- The value as it is sent. -/
def Value.param : Value → Param
  | int8 n => .int8 n
  | text s => .text s
  | bool b => .bool b
  | timestamp t => .timestamp t

/-- Values that are sent together. -/
inductive Values
  | int8s (values : List Int)
  | texts (values : List String)

namespace Values

/-- The values as they are sent. -/
def param : Values → Param
  | int8s ns => .int8s ns
  | texts ss => .texts ss

/-- The values, one by one. -/
def list : Values → List Value
  | int8s ns => ns.map .int8
  | texts ss => ss.map .text

end Values

/-- The columns that statements name. -/
inductive Column
  | invoiceId
  | invoiceFromTeam
  | invoiceToTeam
  | invoiceKind
  | invoiceStatus
  | invoiceHasSubmission
  | invoiceTxId
  | invoiceOrderId
  | invoiceHistoryId
  | linkInvoiceId
  | linkSubmissionId
  | submissionId
  | submissionCreatedBy
  | submissionCompletedBy
  | submissionStatus
  | submissionCreatedAt
  | historyId
  | historyCreatedAt
  | fromTeamId
  | fromTeamKind
  | toTeamId
  | toTeamKind
deriving DecidableEq, Repr

namespace Column

/-- The table of a column. -/
def table : Column → Table
  | invoiceId | invoiceFromTeam | invoiceToTeam | invoiceKind | invoiceStatus
  | invoiceHasSubmission | invoiceTxId | invoiceOrderId | invoiceHistoryId => .invoice
  | linkInvoiceId | linkSubmissionId => .link
  | submissionId | submissionCreatedBy | submissionCompletedBy | submissionStatus
  | submissionCreatedAt => .submission
  | historyId | historyCreatedAt => .history
  | fromTeamId | fromTeamKind => .fromTeam
  | toTeamId | toTeamKind => .toTeam

/-- The name of a column in its table. -/
def name : Column → String
  | invoiceId | submissionId | historyId | fromTeamId | toTeamId => "id"
  | invoiceFromTeam => "from_team_id"
  | invoiceToTeam => "to_team_id"
  | invoiceKind | fromTeamKind | toTeamKind => "type"
  | invoiceStatus | submissionStatus => "status"
  | invoiceHasSubmission => "has_submission"
  | invoiceTxId => "tx_id"
  | invoiceOrderId => "order_id"
  | invoiceHistoryId => "hist_id"
  | linkInvoiceId => "invoice_id"
  | linkSubmissionId => "payment_submission_id"
  | submissionCreatedBy => "created_by_id"
  | submissionCompletedBy => "completed_by_id"
  | submissionCreatedAt | historyCreatedAt => "created_at"

/-- The text of a column. -/
def text (c : Column) : String := c.table.alias ++ "." ++ c.name

/-- What a column holds in a row of its table; nothing is NULL. -/
def read : (c : Column) → c.table.Row → Option Value
  | invoiceId => fun i => some (.int8 (Invoice.id i))
  | invoiceFromTeam => fun i => some (.int8 (Invoice.fromTeam i))
  | invoiceToTeam => fun i => some (.int8 (Invoice.toTeam i))
  | invoiceKind => fun i => some (.text (Named.name (Invoice.kind i)))
  | invoiceStatus => fun i => some (.text (Named.name (Invoice.status i)))
  | invoiceHasSubmission => fun i => some (.bool (Invoice.hasSubmission i))
  | invoiceTxId => fun i => (Invoice.txId i).map .int8
  | invoiceOrderId => fun i => (Invoice.orderId i).map .int8
  | invoiceHistoryId => fun i => (Invoice.historyId i).map .int8
  | linkInvoiceId => fun l => some (.int8 (Link.invoiceId l))
  | linkSubmissionId => fun l => some (.int8 (Link.submissionId l))
  | submissionId => fun s => some (.int8 (Submission.id s))
  | submissionCreatedBy => fun s => some (.int8 (Submission.createdBy s))
  | submissionCompletedBy => fun s => (Submission.completedBy s).map .int8
  | submissionStatus => fun s => some (.text (Named.name (Submission.status s)))
  | submissionCreatedAt => fun s => some (.timestamp (Submission.createdAt s))
  | historyId => fun h => some (.int8 (History.id h))
  | historyCreatedAt => fun h => some (.timestamp (History.createdAt h))
  | fromTeamId | toTeamId => fun team => some (.int8 (Team.id team))
  | fromTeamKind | toTeamKind => fun team => some (.text (Named.name (Team.kind team)))

/-- What a column holds where its table has a row, and NULL where it has none. -/
def value? (a : Joined) (c : Column) : Option Value := (a.get c.table).bind c.read

end Column

/-! ## Truth -/

/-- A truth value; nothing is neither true nor false. -/
abbrev Truth := Option Bool

/-- True if one of the two is, false if both are. -/
def Truth.or : Truth → Truth → Truth
  | some true, _ => some true
  | _, some true => some true
  | some false, some false => some false
  | _, _ => none

theorem Truth.or_eq_true {x y : Truth} : x.or y = some true ↔ x = some true ∨ y = some true := by
  rcases x with _ | _ | _ <;> rcases y with _ | _ | _ <;> decide

theorem Truth.none_or {x : Truth} (h : x ≠ some true) : Truth.or none x = none := by
  rcases x with _ | _ | _
  · rfl
  · rfl
  · exact absurd rfl h

@[simp] theorem Truth.some_or_some (b c : Bool) : Truth.or (some b) (some c) = some (b || c) := by
  cases b <;> cases c <;> rfl

/-- A comparison, which only values can be held to. -/
def compared (v : Option Value) (p : Value → Bool) : Truth := v.map p

/-! ## Conditions -/

/-- A condition on columns. -/
inductive Condition
  | equals (c : Column) (v : Value)
  | atLeast (c : Column) (t : Instant)
  | atMost (c : Column) (t : Instant)
  | among (c : Column) (vs : Values)
  | is (c : Column) (b : Bool)
  | isNull (c : Column)
  | not (x : Condition)
  | or (x y : Condition)

namespace Condition

/-- The pieces of a condition. -/
def pieces : Condition → List Piece
  | equals c v => [.text (c.text ++ " = "), .param v.param]
  | atLeast c t => [.text (c.text ++ " >= "), .param (.timestamp t)]
  | atMost c t => [.text (c.text ++ " <= "), .param (.timestamp t)]
  | among c vs => [.text (c.text ++ " = ANY("), .param vs.param, .text ")"]
  | is c b => [.text (c.text ++ " = " ++ if b then "TRUE" else "FALSE")]
  | isNull c => [.text (c.text ++ " IS NULL")]
  | not x => [.text "NOT ("] ++ x.pieces ++ [.text ")"]
  | or x y => [.text "("] ++ x.pieces ++ [.text " OR "] ++ y.pieces ++ [.text ")"]

/-- Whether a condition is true of the rows. A value among others is equal to one of them; among none
it is not. -/
def truth (a : Joined) : Condition → Truth
  | equals c v => compared (c.value? a) (· = v)
  | atLeast c t => compared (c.value? a) fun
    | .timestamp u => t ≤ u
    | _ => false
  | atMost c t => compared (c.value? a) fun
    | .timestamp u => u ≤ t
    | _ => false
  | among c vs => vs.list.foldr (fun v b => Truth.or (compared (c.value? a) (· = v)) b) (some false)
  | is c b => compared (c.value? a) (· = .bool b)
  | isNull c => some (c.value? a).isNone
  | not x => (x.truth a).map (!·)
  | or x y => Truth.or (x.truth a) (y.truth a)

/-- The condition is true of the rows. -/
def Holds (x : Condition) (a : Joined) : Prop := x.truth a = some true

end Condition

/-! ## Joins -/

/-- The equation of a join, if there is one. -/
abbrev On := Option (Column × Column)

namespace On

/-- The text of an equation. -/
def text : On → String
  | some (c, d) => c.text ++ " = " ++ d.text
  | none => "TRUE"

/-- Whether the equation is true of the rows. -/
def truth (a : Joined) : On → Truth
  | some (c, d) => (c.value? a).bind fun v => compared (d.value? a) (v = ·)
  | none => some true

end On

/-- A join of a table. -/
structure Join where
  kind : JoinKind
  table : Table
  on : On

namespace Join

/-- The text of a join. -/
def text (j : Join) : String :=
  " " ++ j.kind.words ++ " " ++ j.table.source ++ " ON " ++ j.on.text

/-- **What a join means.** The table has a stored row that the equation is true of, or it has none,
because the join is a left join and the equation is true of no stored row. -/
def Fits (t : Tables) (a : Joined) (j : Join) : Prop :=
  (∃ r, a.get j.table = some r ∧ t.Stored j.table r ∧ j.on.truth a = some true) ∨
    (a.get j.table = none ∧ j.kind = .left ∧
      ∀ r, t.Stored j.table r → j.on.truth (a.put j.table r) ≠ some true)

end Join

/-! ## Statements -/

/-- The statement that returns the rows of a root whose ids a subquery yields. -/
structure Select (root : Root) where
  joins : List Join
  conditions : List Condition
  locked : Bool

namespace Select

variable {root : Root}

/-- The pieces of a statement. -/
def pieces (x : Select root) : List Piece :=
  let name := root.table.alias
  [.text ("SELECT " ++ name ++ ".* FROM " ++ root.table.source ++ " WHERE " ++ name ++
      ".id IN (SELECT " ++ name ++ ".id FROM " ++ root.table.source)] ++
    x.joins.map (fun j => .text j.text) ++
    [.text " WHERE TRUE"] ++
    x.conditions.flatMap (fun c => .text " AND " :: c.pieces) ++
    [.text ")", .text root.orderSql] ++
    if x.locked then [.text " FOR UPDATE NOWAIT"] else []

/-- The statement with its values. -/
def statement (x : Select root) : Statement := .ofPieces x.pieces

/-- The subquery yields the rows: a stored row of the root, joined rows, and no others, of which all
conditions are true. -/
structure Yields (x : Select root) (t : Tables) (a : Joined) : Prop where
  others : ∀ u, u ≠ root.table → u ∉ x.joins.map (·.table) → a.get u = none
  stored : ∃ row ∈ (root.rows t).values, a.rootRow root = some row
  joins : ∀ j ∈ x.joins, j.Fits t a
  conditions : ∀ c ∈ x.conditions, c.Holds a

/-- **What a statement returns**: the stored rows of the root whose id is that of a root that the
subquery yields. -/
def Returns (x : Select root) (t : Tables) (row : root.Row) : Prop :=
  row ∈ (root.rows t).values ∧
    ∃ a, x.Yields t a ∧ (a.rootRow root).map root.idOf = some (root.idOf row)

end Select

end Sql

open Sql

/-! ## Queries as statements -/

/-- The two columns that join two neighbours. -/
def Table.onColumns : Table → Table → On
  | invoice, link | link, invoice => some (.linkInvoiceId, .invoiceId)
  | link, submission | submission, link => some (.submissionId, .linkSubmissionId)
  | invoice, history | history, invoice => some (.historyId, .invoiceHistoryId)
  | invoice, fromTeam | fromTeam, invoice => some (.fromTeamId, .invoiceFromTeam)
  | invoice, toTeam | toTeam, invoice => some (.toTeamId, .invoiceToTeam)
  | _, _ => none

/-- A step of a plan as a join. -/
def JoinStep.toJoin (s : JoinStep) : Join := ⟨s.kind, s.table, s.parent.onColumns s.table⟩

/-- What a condition of a query asks of columns. -/
def Filter.condition : Filter → Condition
  | invoiceIds ids => .among .invoiceId (.int8s ids)
  | fromTeam id => .equals .invoiceFromTeam (.int8 id)
  | toTeam id => .equals .invoiceToTeam (.int8 id)
  | fromTeamKind k => .equals .fromTeamKind (.text (Named.name k))
  | toTeamKind k => .equals .toTeamKind (.text (Named.name k))
  | status s => .equals .invoiceStatus (.text (Named.name s))
  | statusIn ss => .among .invoiceStatus (.texts (ss.map Named.name))
  | statusNotIn ss => .not (.among .invoiceStatus (.texts (ss.map Named.name)))
  | kind k => .equals .invoiceKind (.text (Named.name k))
  | hasSubmission true => .is .invoiceHasSubmission true
  | hasSubmission false => .or (.is .invoiceHasSubmission false) (.isNull .invoiceHasSubmission)
  | txId id => .equals .invoiceTxId (.int8 id)
  | orderId id => .equals .invoiceOrderId (.int8 id)
  | submissionId id => .equals .submissionId (.int8 id)
  | createdBy id => .equals .submissionCreatedBy (.int8 id)
  | verifiedBy id => .equals .submissionCompletedBy (.int8 id)
  | submissionStatus s => .equals .submissionStatus (.text (Named.name s))
  | submittedFrom t => .atLeast .submissionCreatedAt t
  | submittedUntil t => .atMost .submissionCreatedAt t
  | paidFrom t => .atLeast .historyCreatedAt t
  | paidUntil t => .atMost .historyCreatedAt t

/-- The statement of a query in its parts. -/
def Query.toSelect {root : Root} (q : Query root) : Select root where
  joins := q.plan.map JoinStep.toJoin
  conditions := q.filters.map Filter.condition
  locked := q.locked

/-! ## Texts -/

/-- The equation of two tables has the text of their columns. -/
theorem Table.text_onColumns (t u : Table) : (t.onColumns u).text = (t.on? u).getD "TRUE" := by
  cases t <;> cases u <;> decide +kernel

theorem JoinStep.text_toJoin (s : JoinStep) : s.toJoin.text = s.sql := by
  simp only [Join.text, toJoin, sql, Table.text_onColumns]

namespace Sql.Piece

/-- The pieces give the same text and the same values, wherever the placeholders begin. -/
structure Same (ps qs : List Piece) : Prop where
  render : ∀ n, render n ps = render n qs
  params : params ps = params qs

theorem params_append (ps qs : List Piece) : params (ps ++ qs) = params ps ++ params qs :=
  List.filterMap_append

theorem render_append (n : Nat) (ps qs : List Piece) :
    render n (ps ++ qs) = render n ps ++ render (n + (params ps).length) qs := by
  induction ps generalizing n with
  | nil => simp [render, params]
  | cons p ps ih =>
    cases p with
    | text s => simp [render, params, ih, String.append_assoc]
    | param v =>
      have hnext : n + 1 + (params ps).length = n + (params (.param v :: ps)).length := by
        simp only [params, List.filterMap_cons, List.length_cons]
        omega
      simp only [List.cons_append, render, ih, hnext, String.append_assoc]

namespace Same

variable {ps qs ps' qs' : List Piece}

theorem refl (ps : List Piece) : Same ps ps := ⟨fun _ => rfl, rfl⟩

theorem append (h : Same ps qs) (h' : Same ps' qs') : Same (ps ++ ps') (qs ++ qs') where
  render n := by rw [render_append, render_append, h.render, h.params, h'.render]
  params := by rw [params_append, params_append, h.params, h'.params]

theorem flatMap {α : Type} {f g : α → List Piece} (h : ∀ a, Same (f a) (g a)) (as : List α) :
    Same (as.flatMap f) (as.flatMap g) := by
  induction as with
  | nil => exact .refl []
  | cons a as ih => exact (h a).append ih

end Same

end Sql.Piece

/-- A condition of a query has the text of its columns. -/
theorem Filter.pieces_same (f : Filter) : Piece.Same f.pieces f.condition.pieces := by
  cases f with
  | hasSubmission b => cases b <;> exact ⟨fun _ => rfl, rfl⟩
  | statusNotIn ss =>
    refine ⟨fun n => ?_, rfl⟩
    -- the text before the values is one piece here, and two there
    show "NOT (invoices.status = ANY(" ++ ("$" ++ n.repr ++ "))") =
      "NOT (" ++ ("invoices.status = ANY(" ++ ("$" ++ n.repr ++ "))"))
    have opening : "NOT (invoices.status = ANY(" = "NOT (" ++ "invoices.status = ANY(" := rfl
    rw [opening, String.append_assoc]
  | _ => exact ⟨fun _ => rfl, rfl⟩

/-- **The text of a query is that of its statement in parts.** -/
theorem Query.statement_eq {root : Root} (q : Query root) : q.statement = q.toSelect.statement := by
  have same : Piece.Same q.pieces q.toSelect.pieces := by
    unfold Query.pieces Select.pieces
    refine ((((Piece.Same.append (.refl _) ?_).append (.refl _)).append ?_).append (.refl _)).append
      (.refl _)
    · have hjoins : q.toSelect.joins.map (fun j => Piece.text j.text) =
          q.plan.map fun s => Piece.text s.sql := by
        simp only [toSelect, List.map_map, Function.comp_def, JoinStep.text_toJoin]
      rw [hjoins]
      exact .refl _
    · simp only [toSelect, List.flatMap_map]
      exact .flatMap (fun f => Piece.Same.append (.refl [_]) f.pieces_same) q.filters
  simp only [Query.statement, Select.statement, Statement.ofPieces, same.render 1, same.params]

end TeamLedger
