/-
How a session of the ledger in memory answers the calls of the services.

Reading statements take a new snapshot first; changing ones work on the last one.
-/
import TeamLedger.Ledger
import TeamLedger.Program

set_option autoImplicit false

namespace TeamLedger

/-! ## Reports on debt -/

/-- The invoice is unpaid debt of one team to another. -/
def Invoice.isDebt (i : Invoice) (fromTeam toTeam : Ident) : Bool :=
  i.fromTeam = fromTeam && i.toTeam = toTeam && i.status = .notPaid

/-- The debt with one more invoice. -/
def Debt.add (d : Debt) (i : Invoice) : Except Money.Overflow Debt := do
  let total ← d.total.add i.amount
  if i.hasSubmission then return { d with total, submitted := ← d.submitted.add i.amount }
  else return { d with total, unpaid := ← d.unpaid.add i.amount }

namespace Tables

/-- What a team owes another and has not paid. -/
def unpaidAmount (t : Tables) (fromTeam toTeam : Ident) : Except Money.Overflow Money :=
  Money.total ((t.invoices.values.filter (·.isDebt fromTeam toTeam)).map (·.amount))

/-- What a team owes each of the given teams, by their ids; those it owes nothing are left out. -/
def debts (t : Tables) (fromTeam : Ident) (toTeams : List Ident) :
    Except Money.Overflow (List Debt) := do
  let owed := t.invoices.values.filter fun i =>
    toTeams.contains i.toTeam && i.isDebt fromTeam i.toTeam
  let debts ← owed.foldlM (fun (debts : Rows Debt) i => do
    let debt ← ((debts.get? i.toTeam).getD { toTeam := i.toTeam }).add i
    return debts.insert i.toTeam debt) .empty
  return debts.values

/-- The limits of a team that a counterpart may come under. -/
def applicableLimits (t : Tables) (teamId forTeam : Ident) : List Limit :=
  t.limits.values.filter fun l =>
    l.teamId = teamId && (l.scope = .default || (l.scope = .team && l.forTeam = some forTeam))

/-- The first limit of a team with a scope and a counterpart. -/
def findLimit (t : Tables) (teamId : Ident) (scope : Limit.Scope) (forTeam : Option Ident) :
    Option Limit :=
  t.limits.values.find? fun l => l.teamId = teamId && l.scope = scope && l.forTeam = forTeam

end Tables

/-! ## Answers -/

namespace Session

/-- The answer of an operation that may overflow. -/
def ofMoney {α : Type} : Except Money.Overflow α → Except Failure α
  | .ok a => .ok a
  | .error operation => .error (.overflow operation)

/-- Returns the rows of a query, and locks them if it says so. -/
def find {root : Root} (q : Query root) (l : Ledger) (s : Session) :
    Except LedgerError (List root.Row) × Ledger × Session :=
  let s := s.refresh l
  let rows := q.select s.view
  if q.locked then
    match l.lock s.id root (rows.map root.idOf) with
    | .ok l => (.ok (root.inOrder rows), l, s)
    -- the locks are refused, but the new snapshot stays
    | .error e => (.error e, l, s)
  else (.ok (root.inOrder rows), l, s)

/-- Stores a limit: a new one if its id is 0, otherwise the threshold of the one with its id. -/
def saveLimit (limit : Limit) (l : Ledger) (s : Session) :
    Except LedgerError Limit × Ledger × Session :=
  if limit.id = 0 then
    let (id, l) := l.newId
    let saved := { limit with id }
    (.ok saved, l, s.putLimit saved)
  else
    match s.view.limits.get? limit.id with
    | some stored =>
      -- whatever else the caller says of the limit, only its threshold counts
      let saved := { stored with threshold := limit.threshold }
      (.ok saved, l, s.putLimit saved)
    | none => (.error (.notFound (.limit limit.id)), l, s)

/-- The answer to a call. -/
def answer (l : Ledger) (s : Session) :
    (call : StoreCall) → Except Failure call.Answer × Ledger × Session
  | .find _ q =>
    let (rows, l, s) := find q l s
    (rows.mapError .refused, l, s)
  | .insertInvoice new =>
    let (id, l) := l.newId
    (.ok (new.withId id), l, s.putInvoice (new.withId id))
  | .updateInvoiceStatus id status =>
    let (n, s) := s.updateInvoices (fun i => some { i with status }) [id]
    (.ok n, l, s)
  | .setHasSubmission ids value =>
    let (n, s) := s.updateInvoices (fun i => some { i with hasSubmission := value }) ids
    (.ok n, l, s)
  | .markPaid ids settlement =>
    let (n, s) := s.updateInvoices
      -- what is not open is passed over in silence, and the number says so
      (fun i => if i.status = .notPaid then some (i.settled settlement) else none) ids
    (.ok n, l, s)
  | .insertSubmission new =>
    let (id, l) := l.newId
    (.ok (new.withId id), l, s.putSubmission (new.withId id))
  | .linkInvoices submission ids =>
    (.ok (), l, s.addLinks (ids.map (⟨·, submission⟩)))
  | .updateSubmissionStatus id status completedBy =>
    -- the row may have ended by now; nothing here looks at the status it has
    match s.view.submissions.get? id with
    | some x => (.ok 1, l, s.putSubmission { x with status, completedBy := some completedBy })
    | none => (.ok 0, l, s)
  | .insertLogEntry new =>
    let (id, l) := l.newId
    (.ok (new.withId id), l, s.putLogEntry (new.withId id))
  | .insertHistory new =>
    let (id, l) := l.newId
    (.ok (new.withId id), l, s.putHistory (new.withId id))
  | .team id =>
    let s := s.refresh l
    (.ok (s.view.teams.get? id), l, s)
  | .teams ids =>
    let s := s.refresh l
    (.ok (s.view.teams.values.filter fun t => ids.contains t.id), l, s)
  | .unpaidAmount fromTeam toTeam =>
    let s := s.refresh l
    (ofMoney (s.view.unpaidAmount fromTeam toTeam), l, s)
  | .applicableLimits teamId forTeam =>
    let s := s.refresh l
    (.ok (s.view.applicableLimits teamId forTeam), l, s)
  | .findLimit teamId scope forTeam =>
    let s := s.refresh l
    (.ok (s.view.findLimit teamId scope forTeam), l, s)
  | .saveLimit limit =>
    let (saved, l, s) := saveLimit limit l s
    (saved.mapError .refused, l, s)
  | .deleteLimits teamId forTeam =>
    -- a changing statement, so the limits are those of the last snapshot
    let doomed := (s.view.limits.values.filter fun x =>
      x.teamId = teamId && forTeam.all fun f => x.forTeam = some f).map (·.id)
    (.ok doomed.length, l, s.deleteLimits doomed)
  | .limitsOf teamId =>
    let s := s.refresh l
    (.ok (s.view.limits.values.filter fun x => x.teamId = teamId), l, s)
  | .limitsForCounterpart forTeam teamIds =>
    let s := s.refresh l
    (.ok (s.view.limits.values.filter fun x =>
      x.forTeam = some forTeam && teamIds.contains x.teamId), l, s)
  | .debts fromTeam toTeams =>
    let s := s.refresh l
    (ofMoney (s.view.debts fromTeam toTeams), l, s)

end Session

/-- A session of the ledger in memory as a store. -/
def Session.backend : Backend (Ledger × Session) where
  answer call st m :=
    let (answer, l, s) := Session.answer st.1 st.2 call
    (answer, (l, s), m.noteConflict call.operation answer)

end TeamLedger
