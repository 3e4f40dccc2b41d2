/-
Errors as answers to a request: a status and a JSON body.

Errors of the request are told in full. Of internal errors the body only tells that there was one,
together with a description for operators whose wording is left open.
-/
import TeamLedger.Error
import TeamLedger.Json.Form

set_option autoImplicit false

namespace TeamLedger

/-- An error as it leaves the service. -/
inductive ServiceError
  | badRequest (report : String)
  | notFound (report : String)
  | conflict (report : String)
  /-- The report of a stored text that cannot be read back has no fixed wording. -/
  | internal (report : Option String)
  | unavailable
  | database (report : String)
  | config (report : String)
deriving DecidableEq, Repr

/-- What a body says beside the error itself. -/
inductive ServiceError.Details
  | none
  | text (s : String)
  /-- A description for operators, in any wording. -/
  | forOperators
deriving DecidableEq, Repr

namespace ServiceError

/-- The name of an error's kind. -/
def kind : ServiceError → String
  | badRequest _ => "bad_request"
  | notFound _ => "not_found"
  | conflict _ => "conflict"
  | internal _ => "internal_error"
  | unavailable => "service_unavailable"
  | database _ => "database_error"
  | config _ => "config_error"

/-- The text of an error. -/
def message? : ServiceError → Option String
  | badRequest report => "Bad request: " ++ report
  | notFound report => "Not found: " ++ report
  | conflict report => "Conflict: " ++ report
  | internal report => report.map ("Internal server error: " ++ ·)
  | unavailable => "Service Unavailable"
  | database report => "Database error: " ++ report
  | config report => "Configuration error: " ++ report

/-- The status of the answer. -/
def status : ServiceError → Nat
  | badRequest _ => 400
  | notFound _ => 404
  | conflict _ => 409
  | internal _ => 500
  | unavailable => 503
  | database _ => 500
  | config _ => 500

/-- The error that the body tells. -/
def headline : ServiceError → String
  | badRequest report => report
  | notFound report => report
  | conflict report => report
  | internal _ => "Internal server error"
  | unavailable => "Service unavailable"
  | database _ => "Database error"
  | config _ => "Configuration error"

/-- What the body says beside that. -/
def details : ServiceError → Details
  | badRequest _ | notFound _ | conflict _ | unavailable => .none
  | internal _ => .forOperators
  | database report => .text report
  | config report => .text report

/-- The body of the answer. The description for operators stands in it as the value true. -/
def body (e : ServiceError) : Json :=
  .object (("error", .text e.headline) ::
    match e.details with
    | .none => []
    | .text s => [("details", .text s)]
    | .forOperators => [("details", .bool true)])

/-- How an error of the ledger leaves the service. -/
def ofLedger : LedgerError → ServiceError
  | .validation cause => badRequest cause.message
  | .amount cause => badRequest cause.message
  | .consistency cause => conflict cause.message
  | .lockConflict cause => conflict cause.message
  | .notFound cause => notFound cause.message
  | .database fault => database fault.message
  | .cache fault => internal fault.message
  | .serialization => internal none

end ServiceError

end TeamLedger
