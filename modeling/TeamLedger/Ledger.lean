/-
The ledger in memory: what has been committed, who has locked what, and the sessions on it.

A session keeps its changes to itself until it commits. A statement that reads takes a new snapshot of
what is committed; every statement sees the last snapshot with the session's own changes laid over
it. With the snapshot a session notes the versions of all rows, except of those that it has written
already: for these the version noted before the first change stays. A commit is refused when a row
that it would write has another version by then.

Locks belong to sessions. A statement that locks takes all of its locks or none, and whichever way a
session ends, its locks end with it.
-/
import TeamLedger.Ledger.Tables
import TeamLedger.Ledger.Select

set_option autoImplicit false

namespace TeamLedger

/-- Sessions are numbered in the order in which they begin. -/
abbrev SessionId := Nat

/-- A row that can be locked. -/
structure LockKey where
  root : Root
  id : Ident
deriving DecidableEq, Repr

/-- The ledger as all sessions share it. -/
structure Ledger where
  tables : Tables := {}
  /-- The number of the commit that wrote a row last; 0 if none has. -/
  versions : RowKey → Nat := fun _ => 0
  commits : Nat := 0
  /-- The id that was handed out last. -/
  lastId : Nat := 0
  lastSession : SessionId := 0
  locks : LockKey → Option SessionId := fun _ => none

instance : Inhabited Ledger := ⟨{}⟩

/-- A session: the snapshot that it reads, the versions noted with it, and its own changes. -/
structure Session where
  id : SessionId
  snapshot : Tables
  base : RowKey → Nat
  changes : Changes := {}

namespace Ledger

/-- Hands out a new id. -/
def newId (l : Ledger) : Ident × Ledger := ((l.lastId + 1 : Nat), { l with lastId := l.lastId + 1 })

/-- Begins a session. -/
def begin (l : Ledger) : Session × Ledger :=
  ({ id := l.lastSession + 1, snapshot := l.tables, base := l.versions },
    { l with lastSession := l.lastSession + 1 })

/-- Adds a team, outside all sessions. -/
def addTeam (l : Ledger) (name : String) (kind : Team.Kind) (now : Instant) : Team × Ledger :=
  let (id, l) := l.newId
  let team : Team := { id, name, code := Team.codeOf l.lastId, kind, createdAt := now }
  (team, { l with tables := { l.tables with teams := l.tables.teams.insert id team } })

/-- Gives back the locks of a session. -/
def release (l : Ledger) (session : SessionId) : Ledger :=
  { l with locks := fun k => if l.locks k = some session then none else l.locks k }

/-- Locks rows of a root for a session, all of them or none. The error names the first row that
another session has locked. -/
def lock (l : Ledger) (session : SessionId) (root : Root) (ids : List Ident) :
    Except LedgerError Ledger :=
  match ids.find? fun id => (l.locks ⟨root, id⟩).any (· ≠ session) with
  | some id => .error (.lockConflict (.row id root.table))
  | none => .ok
      { l with locks := fun k => if k.root = root ∧ k.id ∈ ids then some session else l.locks k }

/-- Ends a session and drops its changes. -/
def rollback (l : Ledger) (s : Session) : Ledger := l.release s.id

/-- The first row that a session would write and that has changed since the session noted its
version. -/
def conflict? (l : Ledger) (s : Session) : Option RowKey :=
  s.changes.written.find? fun k => l.versions k ≠ s.base k

/-- Ends a session and makes its changes part of the ledger, unless there is a conflict. -/
def commit (l : Ledger) (s : Session) : Except LedgerError Unit × Ledger :=
  match l.conflict? s with
  -- the session ends all the same, so its locks go
  | some k => (.error (.consistency (.concurrentChange k.kind k.id)), l.release s.id)
  | none =>
    let l := l.release s.id
    (.ok (), { l with
      tables := l.tables.apply s.changes
      commits := l.commits + 1
      versions := fun k => if k ∈ s.changes.written then l.commits + 1 else l.versions k })

end Ledger

namespace Session

/-- What a session sees. -/
def view (s : Session) : Tables := s.snapshot.apply s.changes

/-- Takes a new snapshot. -/
def refresh (s : Session) (l : Ledger) : Session :=
  { s with
    snapshot := l.tables
    -- the version before the first change is the one a commit has to find again
    base := fun k => if k ∈ s.changes.written then s.base k else l.versions k }

/-! ## Own changes -/

/-- Writes an invoice. -/
def putInvoice (s : Session) (i : Invoice) : Session :=
  { s with changes := { s.changes with invoices := s.changes.invoices.insert i.id i } }

/-- Writes a submission. -/
def putSubmission (s : Session) (x : Submission) : Session :=
  { s with changes := { s.changes with submissions := s.changes.submissions.insert x.id x } }

/-- Writes a log entry. -/
def putLogEntry (s : Session) (e : LogEntry) : Session :=
  { s with changes := { s.changes with logs := s.changes.logs.insert e.id e } }

/-- Writes a payment. -/
def putHistory (s : Session) (h : History) : Session :=
  { s with changes := { s.changes with histories := s.changes.histories.insert h.id h } }

/-- Writes a limit. -/
def putLimit (s : Session) (l : Limit) : Session :=
  { s with changes := { s.changes with limits := s.changes.limits.insert l.id l } }

/-- Adds links. -/
def addLinks (s : Session) (links : List Link) : Session :=
  { s with changes := { s.changes with links := s.changes.links ++ links } }

/-- Deletes limits. -/
def deleteLimits (s : Session) (ids : List Ident) : Session :=
  { s with changes := { s.changes with
      limits := s.changes.limits.eraseAll ids
      deletedLimits := s.changes.deletedLimits.insertAll ids } }

/-- Changes those of the listed invoices that the session sees and that `f` gives a new form. The
result is their number; an id listed twice counts twice if it is changed twice. -/
def updateInvoices (f : Invoice → Option Invoice) : List Ident → Session → Nat × Session
  | [], s => (0, s)
  | id :: ids, s =>
    -- read through the changes made so far, an id listed twice sees the first of them
    match (s.view.invoices.get? id).bind f with
    | some i =>
      let (n, s) := updateInvoices f ids (s.putInvoice i)
      (n + 1, s)
    | none => updateInvoices f ids s

end Session

end TeamLedger
