/-
A row that has been stored is read back as it was meant.

A statement that stores a row names its columns in one list and its values in
another. Which value goes into which column is a matter of places: of the place of
a name in the first list, of the placeholder that has the same place in the second
one, and of the value that the placeholder stands for. All this is read off the
text of a statement here (`Sql.Statement.bound`), and what a database sends back is
told from it and from what the tables put into columns that are not named
(`Sql.Returned`).

The record that is made of the answer is then the one that the ledger in memory
makes of the same input, as far as a database keeps values at all: it keeps
instants in whole microseconds, and of a zero it does not keep the decimals.
-/
import TeamLedger.Ledger.Answer
import TeamLedger.Sql.Store
import TeamLedger.Text.Split
import TeamLedger.Proofs.Placeholders

set_option autoImplicit false

namespace TeamLedger

namespace Sql

/-! ## Statements that store a row -/

/-- The table that a row is stored in: the third word of the text. -/
def Statement.table (s : Statement) : String :=
  let words := (Text.cutAt ' ' (Text.cutAt ' ' s.sql.toList).2).2
  String.ofList (Text.cutAt ' ' words).1

/-- The columns that are listed: the names in the first brackets of the text. -/
def Statement.columns (s : Statement) : List String :=
  let inside := (Text.cutAt ')' (Text.cutAt '(' s.sql.toList).2).1
  ((inside.filter (· ≠ ' ')).splitOn ',').map String.ofList

/-- The columns with the values at their places: those that the placeholders stand for. -/
def Statement.bound (s : Statement) : List (String × Option Param) :=
  s.columns.zip ((placeholders s.sql.toList).map fun n => s.params[n - 1]?)

/-- Every column is listed once and has one placeholder, and every placeholder has one value. -/
structure Statement.Aligned (s : Statement) : Prop where
  nodup : s.columns.Nodup
  numbers : placeholders s.sql.toList = List.range' 1 s.columns.length
  length : s.params.length = s.columns.length

/-- What tables put into columns for which no value is given, where that is always the same. -/
def defaults (table : String) : List (String × Cell) :=
  if table = "invoices" then
    [("tx_id", .int8 none), ("order_id", .int8 none), ("has_submission", .bool false),
      ("need_adjustment", .bool false), ("hist_id", .int8 none), ("paid_at", .timestamp none),
      ("accepted_at", .timestamp none)]
  else if table = "payment_submissions" then
    [("completed_by_id", .int8 none), ("receipt", .text "")]
  else if table = "invoice_limit_configurations" then
    [("for_team_id", .int8 none), ("threshold", .numeric (Numeric.number false 0 4))]
  else []

/-- The cell that holds a value. A list is no value of a column here. -/
def Param.cell? : Param → Option Cell
  | int8 value => some (.int8 value)
  | text value => some (.text value)
  | bool value => some (.bool value)
  | numeric value => some (.numeric (value.map Numeric.ofMoney))
  | timestamp value => some (.timestamp value)
  | int8s _ => none
  | texts _ => none

/-- The row is what a statement has stored under an id: the id, in every listed column the value at
its place as a database keeps it, and in the others what the table puts there. -/
structure Returned (s : Statement) (id : Ident) (row : Row) : Prop where
  id : row.cell? "id" = some (.int8 id)
  bound : ∀ name p, (name, some p) ∈ s.bound → row.cell? name = p.kept.cell?
  unlisted : ∀ d ∈ defaults s.table, d.1 ∉ s.columns → row.cell? d.1 = some d.2

/-! ## The text of a statement -/

/-- The text names the table and lists the columns, none of them twice, with a placeholder for each of
them in order, and there is a value for each. -/
structure Statement.Lists (s : Statement) (table : String) (columns : List String) : Prop where
  table_eq : s.table = table
  columns_eq : s.columns = columns
  nodup : columns.Nodup
  numbers : placeholders s.sql.toList = List.range' 1 columns.length
  length : s.params.length = columns.length

instance (s : Statement) (table : String) (columns : List String) :
    Decidable (s.Lists table columns) :=
  decidable_of_iff
    (s.table = table ∧ s.columns = columns ∧ columns.Nodup ∧
      placeholders s.sql.toList = List.range' 1 columns.length ∧ s.params.length = columns.length)
    ⟨fun ⟨htable, hcolumns, hnodup, hnumbers, hlength⟩ =>
        ⟨htable, hcolumns, hnodup, hnumbers, hlength⟩,
      fun h => ⟨h.table_eq, h.columns_eq, h.nodup, h.numbers, h.length⟩⟩

namespace Statement.Lists

variable {s s' : Statement} {table : String} {columns : List String}

/-- Which values there are does not matter. -/
theorem of_eq (h : s.Lists table columns) (hsql : s'.sql = s.sql)
    (hlength : s'.params.length = s.params.length) : s'.Lists table columns where
  table_eq := by
    unfold Statement.table
    rw [hsql]
    exact h.table_eq
  columns_eq := by
    unfold Statement.columns
    rw [hsql]
    exact h.columns_eq
  nodup := h.nodup
  numbers := hsql ▸ h.numbers
  length := hlength.trans h.length

/-- **The lists of a statement line up.** -/
theorem aligned (h : s.Lists table columns) : s.Aligned where
  nodup := h.columns_eq ▸ h.nodup
  numbers := h.columns_eq ▸ h.numbers
  length := h.columns_eq ▸ h.length

/-- The column at a place has the value at this place. -/
theorem bound_eq (h : s.Lists table columns) :
    s.bound = (columns.zip s.params).map fun c => (c.1, some c.2) := by
  have hvalues : (List.range' 1 columns.length).map (fun n => s.params[n - 1]?) =
      s.params.map some := by
    refine List.ext_getElem (by simp [h.length]) fun k hk hk' => ?_
    have hplace : k < s.params.length := by simpa using hk'
    rw [List.getElem_map, List.getElem_map, List.getElem_range', Nat.one_mul,
      Nat.add_sub_cancel_left, List.getElem?_eq_getElem hplace]
  unfold bound
  rw [h.columns_eq, h.numbers, hvalues, List.zip_map_right]
  rfl

/-- What is sent back of a row that was stored, column by column. -/
theorem returned_iff (h : s.Lists table columns) {id : Ident} {row : Row} :
    Returned s id row ↔ row.cell? "id" = some (.int8 id) ∧
      (∀ c ∈ columns.zip s.params, row.cell? c.1 = c.2.kept.cell?) ∧
      ∀ d ∈ defaults table, d.1 ∉ columns → row.cell? d.1 = some d.2 := by
  constructor
  · intro hrow
    refine ⟨hrow.id, fun c hc => hrow.bound c.1 c.2 ?_, fun d hd hlisted => hrow.unlisted d ?_ ?_⟩
    · rw [h.bound_eq]
      exact List.mem_map_of_mem hc
    · rwa [h.table_eq]
    · rwa [h.columns_eq]
  · rintro ⟨hid, hbound, hunlisted⟩
    refine ⟨hid, fun name p hp => ?_, fun d hd hlisted => hunlisted d ?_ ?_⟩
    · rw [h.bound_eq] at hp
      obtain ⟨c, hc, ⟨⟩⟩ := List.mem_map.1 hp
      exact hbound c hc
    · rwa [h.table_eq] at hd
    · rwa [h.columns_eq] at hlisted

end Statement.Lists

/-! ## What a database keeps -/

/-- An instant is kept as it is if it is a whole number of microseconds, outside leap seconds. -/
theorem keptInstant_eq_self_iff {t : Instant} :
    keptInstant t = t ↔ t.nano % 1000 = 0 ∧ t.nano < 10 ^ 9 := by
  obtain ⟨second, nano, hnano⟩ := t
  unfold keptInstant
  rw [Instant.mk.injEq]
  dsimp only
  -- only that it is the same moment on both sides matters of the start
  generalize epoch.second = start
  constructor
  · rintro ⟨-, h⟩
    omega
  · rintro ⟨hwhole, hlt⟩
    obtain ⟨micros, rfl⟩ := Nat.dvd_of_mod_eq_zero hwhole
    have hmicros : (second - start) * 10 ^ 9 + ((1000 * micros : Nat) : Int) =
        1000 * ((second - start) * 10 ^ 6 + micros) := by omega
    rw [hmicros, Int.mul_tdiv_cancel_left _ (by decide)]
    omega

theorem keptInstant_keptInstant (t : Instant) : keptInstant (keptInstant t) = keptInstant t := by
  rw [keptInstant_eq_self_iff]
  unfold keptInstant
  dsimp only
  generalize epoch.second = start
  omega

/-- An amount is kept as it is, unless it is a zero with decimals. -/
theorem keptMoney_eq_self_iff {a : Money} : keptMoney a = a ↔ (a.mantissa = 0 → a.scale = 0) := by
  obtain ⟨mantissa, scale, hmantissa, hscale⟩ := a
  unfold keptMoney Money.isZero
  by_cases hzero : mantissa = 0
  · subst hzero
    simp [Money.zero, eq_comm]
  · simp [hzero]

theorem keptMoney_keptMoney (a : Money) : keptMoney (keptMoney a) = keptMoney a := by
  rw [keptMoney_eq_self_iff]
  unfold keptMoney
  split
  next => exact fun _ => rfl
  next hzero => exact fun h => absurd (beq_iff_eq.2 h) hzero

/-- The value is no zero with decimals, and no instant between two microseconds. -/
def Param.Precise : Param → Prop
  | numeric (some a) => a.mantissa = 0 → a.scale = 0
  | timestamp (some t) => t.nano % 1000 = 0 ∧ t.nano < 10 ^ 9
  | _ => True

theorem Param.kept_eq_self_iff {p : Param} : p.kept = p ↔ p.Precise := by
  cases p with
  | numeric value =>
    cases value with
    | none => simp [kept, Precise]
    | some a => simp [kept, Precise, keptMoney_eq_self_iff]
  | timestamp value =>
    cases value with
    | none => simp [kept, Precise]
    | some t => simp [kept, Precise, keptInstant_eq_self_iff]
  | _ => simp [kept, Precise]

/-- A record that a call has stored, as a database keeps it. -/
def keptAnswer : (call : StoreCall) → call.Answer → call.Answer
  | .insertInvoice _, i => { i with amount := keptMoney i.amount, created := keptInstant i.created }
  | .insertSubmission _, x =>
    { x with amount := keptMoney x.amount, createdAt := keptInstant x.createdAt }
  | .insertLogEntry _, e => { e with createdAt := keptInstant e.createdAt }
  | .insertHistory _, h =>
    { h with amount := keptMoney h.amount, createdAt := keptInstant h.createdAt }
  | .saveLimit _, l => { l with threshold := keptMoney l.threshold }
  | _, a => a

/-! ## Reading the columns of a returned row -/

/-- The cell of a value is read as `a`. -/
def Param.Gives {α : Type} [CellForm α] (p : Param) (a : α) : Prop :=
  ∃ c, p.kept.cell? = some c ∧ CellForm.ofCell c = .ok a

namespace Param

theorem gives_int8 (n : Int) : (int8 (some n)).Gives n := ⟨_, rfl, rfl⟩

theorem gives_int8? (n : Option Int) : (int8 n).Gives n := by
  cases n <;> exact ⟨_, rfl, rfl⟩

theorem gives_text (s : String) : (text (some s)).Gives s := ⟨_, rfl, rfl⟩

theorem gives_bool (b : Bool) : (bool (some b)).Gives b := ⟨_, rfl, rfl⟩

theorem gives_numeric (a : Money) : (numeric (some a)).Gives (keptMoney a) := by
  refine ⟨_, rfl, ?_⟩
  show (Numeric.ofMoney (keptMoney a)).toMoney = _
  rw [Numeric.toMoney_ofMoney]
  exact congrArg Except.ok (keptMoney_keptMoney a)

theorem gives_timestamp (t : Instant) : (timestamp (some t)).Gives (keptInstant t) :=
  ⟨_, rfl, congrArg Except.ok (keptInstant_keptInstant t)⟩

end Param

theorem Row.get_of_cell? {α : Type} [CellForm α] {row : Row} {name : String} {c : Cell} {a : α}
    (h : row.cell? name = some c) (ha : CellForm.ofCell c = .ok a) : row.get name = .ok a := by
  unfold get
  rw [h]
  dsimp only
  rw [ha]
  rfl

namespace Returned

variable {α : Type} {s : Statement} {table : String} {columns : List String} {id : Ident} {row : Row}
  {name : String}

theorem get_id (h : Returned s id row) : row.get "id" = .ok id :=
  Row.get_of_cell? h.id rfl

/-- A listed column is read as what was given for it. -/
theorem get [CellForm α] (h : Returned s id row) (hs : s.Lists table columns) {p : Param} {a : α}
    (hp : (name, p) ∈ columns.zip s.params) (ha : p.Gives a) : row.get name = .ok a := by
  obtain ⟨c, hc, hread⟩ := ha
  exact Row.get_of_cell? (((hs.returned_iff.1 h).2.1 _ hp).trans hc) hread

/-- A kind or status is read as the one whose name was given. -/
theorem getNamed [Named α] (h : Returned s id row) (hs : s.Lists table columns) {a : α}
    (hp : (name, .text (Named.name a)) ∈ columns.zip s.params) : row.getNamed name = .ok a := by
  unfold Row.getNamed
  rw [h.get hs hp (Param.gives_text (Named.name a))]
  simp only [bind, Except.bind, Named.ofName?_name]
  rfl

/-- A column that is not listed is read as what the table puts there. -/
theorem get_default [CellForm α] (h : Returned s id row) (hs : s.Lists table columns) {c : Cell} {a : α}
    (hd : (name, c) ∈ defaults table) (hlisted : name ∉ columns) (ha : CellForm.ofCell c = .ok a) :
    row.get name = .ok a :=
  Row.get_of_cell? ((hs.returned_iff.1 h).2.2 _ hd hlisted) ha

end Returned

/-! ## The five kinds of records -/

theorem insertInvoice_lists (n : NewInvoice) : (insertInvoice n).Lists "invoices"
    ["from_team_id", "to_team_id", "type", "status", "amount", "tx_id", "order_id",
      "need_adjustment", "created"] :=
  .of_eq (s := insertInvoice default) (by decide +kernel) rfl rfl

theorem ofRow_invoice {n : NewInvoice} {id : Ident} {row : Row}
    (h : Returned (insertInvoice n) id row) :
    RowForm.ofRow row = .ok (keptAnswer (.insertInvoice n) (n.withId id)) := by
  have hs := insertInvoice_lists n
  have hfrom : row.get "from_team_id" = .ok n.fromTeam :=
    h.get hs (by simp) (Param.gives_int8 _)
  have hto : row.get "to_team_id" = .ok n.toTeam :=
    h.get hs (by simp) (Param.gives_int8 _)
  have hkind : row.getNamed "type" = .ok n.kind := h.getNamed hs (by simp)
  have hstatus : row.getNamed "status" = .ok n.status := h.getNamed hs (by simp)
  have hamount : row.get "amount" = .ok (keptMoney n.amount) :=
    h.get hs (by simp) (Param.gives_numeric _)
  have htx : row.get "tx_id" = .ok n.txId := h.get hs (by simp) (Param.gives_int8? _)
  have horder : row.get "order_id" = .ok n.orderId :=
    h.get hs (by simp) (Param.gives_int8? _)
  have hneed : row.get "need_adjustment" = .ok n.needAdjustment :=
    h.get hs (by simp) (Param.gives_bool _)
  have hcreated : row.get "created" = .ok (keptInstant n.created) :=
    h.get hs (by simp) (Param.gives_timestamp _)
  -- the rest is what the table puts there
  have hhas : row.get "has_submission" = .ok false :=
    h.get_default hs (c := .bool false) (by simp [defaults]) (by simp) rfl
  have hhistory : row.get "hist_id" = .ok (none : Option Ident) :=
    h.get_default hs (c := .int8 none) (by simp [defaults]) (by simp) rfl
  have hpaid : row.get "paid_at" = .ok (none : Option Instant) :=
    h.get_default hs (c := .timestamp none) (by simp [defaults]) (by simp) rfl
  have haccepted : row.get "accepted_at" = .ok (none : Option Instant) :=
    h.get_default hs (c := .timestamp none) (by simp [defaults]) (by simp) rfl
  simp only [RowForm.ofRow, h.get_id, hfrom, hto, hkind, hstatus, hamount, htx, horder, hhas, hneed,
    hhistory, hcreated, hpaid, haccepted]
  rfl

theorem insertSubmission_lists (n : NewSubmission) : (insertSubmission n).Lists "payment_submissions"
    ["created_by_id", "status", "amount", "receipt", "created_at"] :=
  .of_eq (s := insertSubmission default) (by decide +kernel) rfl rfl

theorem ofRow_submission {n : NewSubmission} {id : Ident} {row : Row}
    (h : Returned (insertSubmission n) id row) :
    RowForm.ofRow row = .ok (keptAnswer (.insertSubmission n) (n.withId id)) := by
  have hs := insertSubmission_lists n
  have hcreator : row.get "created_by_id" = .ok n.createdBy :=
    h.get hs (by simp) (Param.gives_int8 _)
  have hstatus : row.getNamed "status" = .ok Submission.Status.submitted :=
    h.getNamed hs (by simp)
  have hamount : row.get "amount" = .ok (keptMoney n.amount) :=
    h.get hs (by simp) (Param.gives_numeric _)
  have hreceipt : row.get "receipt" = .ok n.receipt :=
    h.get hs (by simp) (Param.gives_text _)
  have hcreated : row.get "created_at" = .ok (keptInstant n.createdAt) :=
    h.get hs (by simp) (Param.gives_timestamp _)
  have hcompleted : row.get "completed_by_id" = .ok (none : Option Ident) :=
    h.get_default hs (c := .int8 none) (by simp [defaults]) (by simp) rfl
  simp only [RowForm.ofRow, h.get_id, hcreator, hcompleted, hstatus, hamount, hreceipt, hcreated]
  rfl

theorem insertLogEntry_lists (n : NewLogEntry) : (insertLogEntry n).Lists "payment_submission_logs"
    ["payment_submission_id", "status", "from_agent", "by_user_id", "created_at"] :=
  .of_eq (s := insertLogEntry default) (by decide +kernel) rfl rfl

theorem ofRow_logEntry {n : NewLogEntry} {id : Ident} {row : Row}
    (h : Returned (insertLogEntry n) id row) :
    RowForm.ofRow row = .ok (keptAnswer (.insertLogEntry n) (n.withId id)) := by
  have hs := insertLogEntry_lists n
  have hsubmission : row.get "payment_submission_id" = .ok n.submissionId :=
    h.get hs (by simp) (Param.gives_int8 _)
  have hstatus : row.getNamed "status" = .ok n.status := h.getNamed hs (by simp)
  have hagent : row.getNamed "from_agent" = .ok n.fromAgent :=
    h.getNamed hs (by simp)
  have huser : row.get "by_user_id" = .ok n.byUser :=
    h.get hs (by simp) (Param.gives_int8 _)
  have hcreated : row.get "created_at" = .ok (keptInstant n.createdAt) :=
    h.get hs (by simp) (Param.gives_timestamp _)
  simp only [RowForm.ofRow, h.get_id, hsubmission, hstatus, hagent, huser, hcreated]
  rfl

theorem insertHistory_lists (n : NewHistory) : (insertHistory n).Lists "payment_histories"
    ["amount", "created_by_id", "created_at"] :=
  .of_eq (s := insertHistory default) (by decide +kernel) rfl rfl

theorem ofRow_history {n : NewHistory} {id : Ident} {row : Row}
    (h : Returned (insertHistory n) id row) :
    RowForm.ofRow row = .ok (keptAnswer (.insertHistory n) (n.withId id)) := by
  have hs := insertHistory_lists n
  have hamount : row.get "amount" = .ok (keptMoney n.amount) :=
    h.get hs (by simp) (Param.gives_numeric _)
  have hcreator : row.get "created_by_id" = .ok n.createdBy :=
    h.get hs (by simp) (Param.gives_int8 _)
  have hcreated : row.get "created_at" = .ok (keptInstant n.createdAt) :=
    h.get hs (by simp) (Param.gives_timestamp _)
  simp only [RowForm.ofRow, h.get_id, hamount, hcreator, hcreated]
  rfl

theorem insertLimit_lists (l : Limit) : (insertLimit l).Lists "invoice_limit_configurations"
    ["team_id", "limit_type", "for_team_id", "threshold"] :=
  .of_eq (s := insertLimit default) (by decide +kernel) rfl rfl

theorem ofRow_limit {l : Limit} {id : Ident} {row : Row}
    (h : Returned (insertLimit l) id row) :
    RowForm.ofRow row = .ok (keptAnswer (.saveLimit l) { l with id }) := by
  have hs := insertLimit_lists l
  have hteam : row.get "team_id" = .ok l.teamId :=
    h.get hs (by simp) (Param.gives_int8 _)
  have hscope : row.getNamed "limit_type" = .ok l.scope := h.getNamed hs (by simp)
  have hfor : row.get "for_team_id" = .ok l.forTeam :=
    h.get hs (by simp) (Param.gives_int8? _)
  have hthreshold : row.get "threshold" = .ok (keptMoney l.threshold) :=
    h.get hs (by simp) (Param.gives_numeric _)
  simp only [RowForm.ofRow, h.get_id, hteam, hscope, hfor, hthreshold]
  rfl

/-! ## A database and the ledger in memory -/

/-- The call stores a new row of one of the five kinds. -/
def Inserts : StoreCall → Prop
  | .insertInvoice _ | .insertSubmission _ | .insertLogEntry _ | .insertHistory _ => True
  | .saveLimit l => l.id = 0
  | _ => False

/-- A call that stores `record id` when the row gets this id. In memory it answers the record with the
next id. To a database it goes as one statement, whose lists line up; if a row comes back as it was
stored, the answer is the record as a database keeps it. That is the record itself if and only if all
values that were sent are kept as they are. -/
structure StoresAlike (call : StoreCall) (stmt : Statement) (record : Ident → call.Answer) : Prop where
  memory : ∀ (l : Ledger) (s : Session), (s.answer l call).1 = .ok (record l.newId.1)
  sent : ∀ (c : Conversation) (m : Metrics), (backend.answer call c m).2.1.sent = c.sent ++ [stmt]
  aligned : stmt.Aligned
  database : ∀ (id : Ident) (row : Row), Returned stmt id row →
    ∀ (c : Conversation) (rows : List Row) (replies : List Reply) (m : Metrics),
      c.replies = .rows (row :: rows) :: replies →
        (backend.answer call c m).1 = .ok (keptAnswer call (record id))
  exact_iff : ∀ id, keptAnswer call (record id) = record id ↔ ∀ p ∈ stmt.params, p.Precise

section

variable {call : StoreCall} {s : Statement} {timed : Bool} [RowForm call.Answer]

theorem sent_insert (hplan : plan call = .storing s timed) (c : Conversation) (m : Metrics) :
    (backend.answer call c m).2.1.sent = c.sent ++ [s] := by
  simp only [backend, hplan, Plan.storing, Conversation.send]
  cases c.replies <;> rfl

/-- The first row of the reply is the answer. -/
theorem answer_insert (hplan : plan call = .storing s timed) {row : Row} {rows : List Row}
    {replies : List Reply} {c : Conversation} (hc : c.replies = .rows (row :: rows) :: replies)
    {a : call.Answer} (ha : RowForm.ofRow row = .ok a) (m : Metrics) :
    (backend.answer call c m).1 = .ok a := by
  have hone : Reply.one (.rows (row :: rows)) = .ok a := ha
  simp only [backend, hplan, Plan.storing, Conversation.send, hc, hone]
  rfl

theorem StoresAlike.of_lists {table : String} {columns : List String} {record : Ident → call.Answer}
    (hplan : plan call = .storing s timed) (hs : s.Lists table columns)
    (hmemory : ∀ (l : Ledger) (s : Session), (s.answer l call).1 = .ok (record l.newId.1))
    (hread : ∀ id row, Returned s id row → RowForm.ofRow row = .ok (keptAnswer call (record id)))
    (hexact : ∀ id, keptAnswer call (record id) = record id ↔ ∀ p ∈ s.params, p.kept = p) :
    StoresAlike call s record where
  memory := hmemory
  sent := sent_insert hplan
  aligned := hs.aligned
  database id row hrow _ _ _ m hc := answer_insert hplan hc (hread id row hrow) m
  exact_iff id := (hexact id).trans (forall₂_congr fun _ _ => Param.kept_eq_self_iff)

end

/-- **What is stored in a database is what is stored in memory**, as far as a database keeps it. For
every invoice, submission, log entry, payment and new limit: each column that the statement lists has
one placeholder and one value, and if the reply has in each of them the value at its place, the id, and
in all other columns what the table puts there, then the record that is read from it is the one that the
ledger in memory answers when it gives out that id, with the instant in whole microseconds and without
the decimals of a zero. Kinds and statuses, and what may be absent, are all as they were. -/
theorem stored_as_in_memory {call : StoreCall} (hcall : Inserts call) :
    ∃ (stmt : Statement) (record : Ident → call.Answer), StoresAlike call stmt record := by
  cases call with
  | insertInvoice n =>
    refine ⟨_, n.withId, .of_lists rfl (insertInvoice_lists n) (fun _ _ => rfl)
      (fun _ _ => ofRow_invoice) fun id => ?_⟩
    simp [keptAnswer, NewInvoice.withId, Param.kept]
  | insertSubmission n =>
    refine ⟨_, n.withId, .of_lists rfl (insertSubmission_lists n) (fun _ _ => rfl)
      (fun _ _ => ofRow_submission) fun id => ?_⟩
    simp [keptAnswer, NewSubmission.withId, Param.kept]
  | insertLogEntry n =>
    refine ⟨_, n.withId, .of_lists rfl (insertLogEntry_lists n) (fun _ _ => rfl)
      (fun _ _ => ofRow_logEntry) fun id => ?_⟩
    simp [keptAnswer, NewLogEntry.withId, Param.kept]
  | insertHistory n =>
    refine ⟨_, n.withId, .of_lists rfl (insertHistory_lists n) (fun _ _ => rfl)
      (fun _ _ => ofRow_history) fun id => ?_⟩
    simp [keptAnswer, NewHistory.withId, Param.kept]
  | saveLimit x =>
    have hid : x.id = 0 := hcall
    refine ⟨_, fun id => { x with id }, .of_lists (if_pos hid) (insertLimit_lists x) (fun l s => ?_)
      (fun _ _ => ofRow_limit) fun id => ?_⟩
    · simp only [Session.answer, Session.saveLimit, if_pos hid]
      rfl
    · simp [keptAnswer, Param.kept]
  | _ => cases hcall

/-- An invoice about an order, with every column different from the others. -/
def orderInvoice : NewInvoice where
  fromTeam := 3
  toTeam := 4
  kind := .warehouseFee
  status := .cancelled
  amount := ⟨105, 1, by decide, by decide⟩
  txId := some 5
  orderId := some 6
  needAdjustment := true
  created := ⟨1520139967, 123456000, by decide⟩

/-- The row of it under the id 7. -/
def orderRow : Row :=
  [("id", .int8 (some 7)), ("from_team_id", .int8 (some 3)), ("to_team_id", .int8 (some 4)),
    ("type", .text (some "warehouse_fee")), ("status", .text (some "cancel")),
    ("amount", .numeric (some (.number false 105 1))), ("tx_id", .int8 (some 5)),
    ("order_id", .int8 (some 6)), ("has_submission", .bool (some false)),
    ("need_adjustment", .bool (some true)), ("hist_id", .int8 none),
    ("created", .timestamp (some orderInvoice.created)), ("paid_at", .timestamp none),
    ("accepted_at", .timestamp none)]

/-- No team, number or time gets into the place of another. -/
theorem stored_as_in_memory_order :
    Inserts (.insertInvoice orderInvoice) ∧
      Returned (insertInvoice orderInvoice) 7 orderRow ∧
      (∀ p ∈ (insertInvoice orderInvoice).params, p.Precise) ∧
      (backend.answer (.insertInvoice orderInvoice) ⟨[], [.rows [orderRow]]⟩ .zero).1 =
        .ok (orderInvoice.withId 7) := by
  have hrow : Returned (insertInvoice orderInvoice) 7 orderRow :=
    (insertInvoice_lists _).returned_iff.2 ⟨by decide, by decide +kernel, by decide⟩
  have hprecise : ∀ p ∈ (insertInvoice orderInvoice).params, p.Precise := by
    simp [Param.Precise, orderInvoice]
  have hcall : Inserts (.insertInvoice orderInvoice) := trivial
  obtain ⟨stmt, record, h⟩ := stored_as_in_memory hcall
  -- the statement is the one that is sent, and the record the one in memory
  obtain rfl : (insertInvoice orderInvoice) = stmt :=
    List.singleton_inj.1 (h.sent ⟨[], []⟩ .zero)
  have hrecord : orderInvoice.withId 7 = record 7 :=
    Except.ok.inj (h.memory { lastId := 6 } (Ledger.begin { lastId := 6 }).1)
  refine ⟨hcall, hrow, hprecise, ?_⟩
  rw [h.database 7 orderRow hrow ⟨[], [.rows [orderRow]]⟩ [] [] .zero rfl, (h.exact_iff 7).2 hprecise,
    hrecord]

/-- A payment between two microseconds. -/
def promptPayment : NewHistory where
  amount := ⟨105, 1, by decide, by decide⟩
  createdBy := 9
  createdAt := ⟨1520139967, 123456789, by decide⟩

/-- The row of it under the id 7. -/
def promptRow : Row :=
  [("id", .int8 (some 7)), ("amount", .numeric (some (.number false 105 1))),
    ("created_by_id", .int8 (some 9)),
    ("created_at", .timestamp (some ⟨1520139967, 123456000, by decide⟩))]

/-- A limit of nothing, to one decimal. -/
def emptyLimit : Limit where
  id := 0
  teamId := 1
  scope := .default
  forTeam := none
  threshold := Money.zero.rescale 1

/-- The row of it under the id 7. -/
def emptyLimitRow : Row :=
  [("id", .int8 (some 7)), ("team_id", .int8 (some 1)), ("limit_type", .text (some "DEFAULT")),
    ("for_team_id", .int8 none), ("threshold", .numeric (some (.number false 0 0)))]

/-- What lies between two microseconds does not get into a database, nor do the decimals of a zero. In
memory both stay, so with rows that are as they were stored the records are not the same. -/
theorem stored_as_in_memory_not_exactly :
    (Returned (insertHistory promptPayment) 7 promptRow ∧
      (backend.answer (.insertHistory promptPayment) ⟨[], [.rows [promptRow]]⟩ .zero).1 =
        .ok { promptPayment.withId 7 with createdAt := ⟨1520139967, 123456000, by decide⟩ } ∧
      ((Ledger.begin { lastId := 6 }).1.answer { lastId := 6 } (.insertHistory promptPayment)).1 =
        .ok (promptPayment.withId 7) ∧
      { promptPayment.withId 7 with createdAt := ⟨1520139967, 123456000, by decide⟩ } ≠
        promptPayment.withId 7) ∧
    Returned (insertLimit emptyLimit) 7 emptyLimitRow ∧
      (backend.answer (.saveLimit emptyLimit) ⟨[], [.rows [emptyLimitRow]]⟩ .zero).1 =
        .ok { emptyLimit with id := 7, threshold := .zero } ∧
      ((Ledger.begin { lastId := 6 }).1.answer { lastId := 6 } (.saveLimit emptyLimit)).1 =
        .ok { emptyLimit with id := 7 } ∧
      { emptyLimit with id := 7, threshold := .zero } ≠ { emptyLimit with id := 7 } := by
  have hpayment : Returned (insertHistory promptPayment) 7 promptRow :=
    (insertHistory_lists _).returned_iff.2 ⟨by decide, by decide +kernel, by decide⟩
  have hlimit : Returned (insertLimit emptyLimit) 7 emptyLimitRow :=
    (insertLimit_lists _).returned_iff.2 ⟨by decide, by decide +kernel, by decide⟩
  exact ⟨⟨hpayment, answer_insert rfl rfl (ofRow_history hpayment) .zero, rfl, by decide⟩,
    hlimit, answer_insert rfl rfl (ofRow_limit hlimit) .zero, rfl, by decide⟩

end Sql

end TeamLedger
