/-
The pool of connections to a database: logging in, transactions, health and migrations.

Whatever fails here leaves the service as a database error that says what was being done.
-/
import TeamLedger.Sql.Store
import TeamLedger.Sql.Migration
import TeamLedger.Error.Response

set_option autoImplicit false

namespace TeamLedger.Sql.Pool

/-- A fault met while something was being done. -/
def failed (what : String) (report : String) : ServiceError := .database (what ++ ": " ++ report)

/-- Connects to a database, which may refuse the login. A login refused only for the moment is tried
again, until the time for it is up. -/
def connect (refusal : Option Fault) : Except ServiceError Unit :=
  match refusal with
  | some fault =>
    -- tried again until the time is up, and then only that is reported
    let fault := if fault.isPassing then .poolTimedOut else fault
    .error (failed "Failed to connect" fault.message)
  | none => .ok ()

/-- How a transaction is ended. -/
inductive Ending
  | commit
  | rollback
deriving DecidableEq, Repr

/-- The word that ends a transaction. -/
def Ending.word : Ending → String
  | commit => "COMMIT"
  | rollback => "ROLLBACK"

/-- Begins a transaction, if the database lets it, and ends it. The result comes with the words
sent. -/
def transaction (refusal : Option Fault) (ending : Ending) :
    Except ServiceError Unit × List String :=
  match refusal with
  | some fault => (.error (failed "Failed to begin transaction" fault.message), ["BEGIN"])
  | none => (.ok (), ["BEGIN", ending.word])

/-- Asks a database whether it is well. -/
def health (c : Conversation) (m : Metrics) : Except ServiceError Unit × Conversation × Metrics :=
  let (reply, c) := c.send (.ofPieces [.text "SELECT 1"])
  let m := m.bump .queryDuration "health_check"
  match reply.count with
  | .ok _ => (.ok (), c, m)
  | .error fault => (.error (failed "Health check failed" fault.message), c, m)

/-- Brings a database up to date that has seen the given migrations. Each one that is missing is
applied in a transaction of its own, if the database lets it begin. The result is what was
applied. -/
def migrate (refusal : Option Fault) (applied : List Applied) : Except ServiceError (List Nat) :=
  match Migration.pending applied with
  | .error fault => .error (failed "Migration failed" fault.message)
  | .ok [] => .ok []
  | .ok versions =>
    match refusal with
    | none => .ok versions
    | some fault =>
      .error (failed "Migration failed" ("while executing migrations: " ++ fault.message))

end TeamLedger.Sql.Pool
