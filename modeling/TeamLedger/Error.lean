/-
Why the ledger refuses something.

An error is its cause, with the rows and amounts involved. The kind of an error and its text follow
from the cause. In every kind but the last three there is also a cause that is just a stated text,
for errors that arise outside the ledger.
-/
import TeamLedger.Invoice
import TeamLedger.Submission
import TeamLedger.Query.Table
import TeamLedger.Sql.Fault
import TeamLedger.Cache.Fault

set_option autoImplicit false

namespace TeamLedger

/-- The kinds of rows whose changes are checked for conflicts. -/
inductive RowKind
  | invoice
  | submission
  | limit
deriving DecidableEq, Repr, Inhabited

/-- What a row is called in messages. -/
def RowKind.noun : RowKind → String
  | invoice => "Invoice"
  | submission => "Submission"
  | limit => "Limit"

/-! ## Causes -/

/-- A request that makes no sense. -/
inductive ValidationError
  | negativePayment (amount : Money)
  | negativeThreshold (threshold : Money)
  | noCorrelation
  | noTeam
  | stated (text : String)
deriving DecidableEq, Repr

/-- The text of a cause. -/
def ValidationError.message : ValidationError → String
  | negativePayment amount => "payment amount " ++ amount.toText ++ " must not be negative"
  | negativeThreshold threshold => "threshold " ++ threshold.toText ++ " must not be negative"
  | noCorrelation => "readjustment requires a tx_id or order_id"
  | noTeam => "team_id is required"
  | stated text => text

/-- A state of the ledger that does not allow what is asked. -/
inductive ConsistencyError
  | notFinal (invoice : Ident)
  | alreadyPaid (invoice : Ident)
  | notLoaded
  | notSubmitted (submission : Ident) (status : Submission.Status)
  | alreadyEnded (submission : Ident) (status : Submission.Status)
  | fromTeamMismatch (invoice actual wanted : Ident)
  | toTeamMismatch (invoice actual wanted : Ident)
  | concurrentChange (kind : RowKind) (id : Ident)
  | stated (text : String)
deriving DecidableEq, Repr

/-- The text of a cause. -/
def ConsistencyError.message : ConsistencyError → String
  | notFinal invoice => "invoice " ++ Int.repr invoice ++ " is not final"
  | alreadyPaid invoice => "invoice " ++ Int.repr invoice ++ " has been paid"
  | notLoaded => "payment submission is not loaded"
  | notSubmitted submission status =>
    "payment submission " ++ Int.repr submission ++ " is " ++ Named.name status
  | alreadyEnded submission status =>
    "payment submission " ++ Int.repr submission ++ " is already " ++ Named.name status
  | fromTeamMismatch invoice actual wanted =>
    "invoice " ++ Int.repr invoice ++ " from team " ++ Int.repr actual ++ " does not match " ++
      Int.repr wanted
  | toTeamMismatch invoice actual wanted =>
    "invoice " ++ Int.repr invoice ++ " to team " ++ Int.repr actual ++ " does not match " ++
      Int.repr wanted
  | concurrentChange kind id =>
    kind.noun ++ " " ++ Int.repr id ++ " was modified by a concurrent transaction"
  | stated text => text

/-- Amounts that do not add up. -/
inductive AmountError
  | overshoot (target : Money) (invoice : Ident)
  | shortfall (target payable : Money)
  | nothingToSubmit
  | declaredMismatch (submission : Ident) (declared unpaid : Money)
  | stated (text : String)
deriving DecidableEq, Repr

/-- The text of a cause. -/
def AmountError.message : AmountError → String
  | overshoot target invoice =>
    "invalid payment amount " ++ target.toText ++ ": invoice " ++ Int.repr invoice ++
      " overshoots it"
  | shortfall target payable =>
    "invalid payment amount " ++ target.toText ++ ": only " ++ payable.toText ++ " is payable"
  | nothingToSubmit => "there are no unpaid invoices to submit"
  | declaredMismatch submission declared unpaid =>
    "payment submission " ++ Int.repr submission ++ " declares " ++ declared.toText ++
      " but its unpaid invoices sum to " ++ unpaid.toText
  | stated text => text

/-- Something that is not there. -/
inductive NotFoundError
  | anySubmission
  | submission (id : Ident)
  | team (id : Ident)
  | limit (id : Ident)
  | stated (text : String)
deriving DecidableEq, Repr

/-- The text of a cause. -/
def NotFoundError.message : NotFoundError → String
  | anySubmission => "payment submission"
  | submission id => "payment submission " ++ Int.repr id
  | team id => "team " ++ Int.repr id
  | limit id => "limit configuration " ++ Int.repr id
  | stated text => text

/-- A row that someone else has locked. -/
inductive LockError
  | row (id : Ident) (table : Table)
  | stated (text : String)
deriving DecidableEq, Repr

/-- The text of a cause. -/
def LockError.message : LockError → String
  | row id table =>
    "could not obtain lock on row " ++ Int.repr id ++ " in relation \"" ++ table.alias ++ "\""
  | stated text => text

/-! ## Errors -/

/-- Why the ledger refuses something. -/
inductive LedgerError
  | validation (cause : ValidationError)
  | consistency (cause : ConsistencyError)
  | amount (cause : AmountError)
  | notFound (cause : NotFoundError)
  | lockConflict (cause : LockError)
  | database (fault : Sql.Fault)
  | cache (fault : Cache.Fault)
  /-- A stored text is not what it was stored as. -/
  | serialization
deriving DecidableEq, Repr

namespace LedgerError

/-- The name of an error's kind. -/
def kind : LedgerError → String
  | validation _ => "validation"
  | consistency _ => "consistency"
  | amount _ => "amount"
  | notFound _ => "not_found"
  | lockConflict _ => "lock_conflict"
  | database _ => "database"
  | cache _ => "cache"
  | serialization => "serialization"

/-- The text of an error's cause. A stored text that cannot be read back has none that is fixed. -/
def detail? : LedgerError → Option String
  | validation cause => cause.message
  | consistency cause => cause.message
  | amount cause => cause.message
  | notFound cause => cause.message
  | lockConflict cause => cause.message
  | database fault => fault.message
  | cache fault => fault.message
  | serialization => none

/-- What stands before the cause in the text of an error. -/
def heading : LedgerError → String
  | validation _ => "Validation error: "
  | consistency _ => "Consistency error: "
  | amount _ => "Amount error: "
  | notFound _ => "Not found: "
  | lockConflict _ => "Lock conflict: "
  | database _ => "Database error: "
  | cache _ => "Cache error: "
  | serialization => "Serialization error: "

/-- The text of an error. -/
def message? (e : LedgerError) : Option String := e.detail?.map (e.heading ++ ·)

/-- A fault of the database. A row locked by someone else is a conflict, all else a database
error. -/
def ofFault (fault : Sql.Fault) : LedgerError :=
  match fault.lockReport? with
  | some report => lockConflict (.stated report)
  | none => database fault

end LedgerError

/-- Why an operation did not finish: it was refused, or an amount overflowed on the way. -/
inductive Failure
  | refused (error : LedgerError)
  | overflow (operation : Money.Overflow)
deriving DecidableEq, Repr

/-- A fault of the database. An amount that overflowed while it was read is no refusal. -/
def Failure.ofFault : Sql.Fault → Failure
  | .decode _ (.overflow operation) => overflow operation
  | fault => refused (.ofFault fault)

end TeamLedger
