/-
A ledger in memory with the sessions that are open on it.

Sessions go by names. Opening one under a name that is in use ends the session before it; ending one
gives back its locks, however it ends. A program runs in a session as one step, between the steps of
other sessions.
-/
import TeamLedger.Ledger.Answer
import TeamLedger.Workflow

set_option autoImplicit false

namespace TeamLedger

/-- An open session, and the workflow that ran in it last. -/
structure OpenSession where
  session : Session
  workflow : Option Workflow := none

/-- A ledger, its open sessions by name, and what is around them. -/
structure World where
  ledger : Ledger := {}
  sessions : List (String × OpenSession) := []
  around : Surroundings

namespace World

/-- The session with a name. -/
def session? (w : World) (name : String) : Option OpenSession := w.sessions.lookup name

/-- The world without the session of a name. The ledger is left as it is. -/
def forget (w : World) (name : String) : World :=
  { w with sessions := w.sessions.filter (·.1 ≠ name) }

/-- Ends the session with a name and drops its changes. -/
def rollback (w : World) (name : String) : World :=
  match w.session? name with
  | some s => { w.forget name with ledger := w.ledger.rollback s.session }
  | none => w

/-- Begins a session under a name. -/
def begin (w : World) (name : String) : World :=
  -- a session that still goes by the name ends here
  let w := w.rollback name
  let (session, ledger) := w.ledger.begin
  { w with ledger, sessions := w.sessions ++ [(name, { session })] }

/-- Ends the session with a name and commits its changes, if there is no conflict. -/
def commit (w : World) (name : String) : Except LedgerError Unit × World :=
  match w.session? name with
  | some s =>
    let (result, ledger) := w.ledger.commit s.session
    (result, { w.forget name with ledger })
  | none => (.ok (), w)

/-- Adds a team. -/
def addTeam (w : World) (name : String) (kind : Team.Kind) : Team × World :=
  let (now, around) := w.around.now
  let (team, ledger) := w.ledger.addTeam name kind now
  (team, { w with ledger, around })

/-- Runs a program in the session with a name. With a number `n`, the `n`-th call to the store is
not made and finds no row. -/
def run {α : Type} (w : World) (name : String) (failAt : Option Nat) (p : Program α) :
    Option (α × World) := do
  let s ← w.session? name
  let (a, ((ledger, session), _), around) :=
    p.run Session.backend.failing ((w.ledger, s.session), failAt) w.around
  let sessions := w.sessions.map fun e => if e.1 = name then (name, { s with session }) else e
  some (a, { w with ledger, sessions, around })

/-- Remembers the workflow that ran last in the session with a name. -/
def remember (w : World) (name : String) (workflow : Workflow) : World :=
  { w with sessions := w.sessions.map fun e =>
      if e.1 = name then (name, { e.2 with workflow := some workflow }) else e }

end World

end TeamLedger
