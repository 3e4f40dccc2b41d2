/-
The id that a request goes by, from the headers it came with.

A caller may give an id. It is taken if it is visible text and not empty, and only the first header
counts; otherwise the request gets a new one. The handler of the request and the caller are told the
same id.
-/
set_option autoImplicit false

namespace TeamLedger

/-- The headers of a request: names, in any case, and values. -/
abbrev Headers := List (String × String)

/-- The id of a request. -/
inductive RequestId
  | given (id : String)
  /-- An id of its own, made for the request. -/
  | generated
deriving DecidableEq, Repr

namespace RequestId

/-- The header that carries the id. -/
def header : String := "x-request-id"

/-- The character is visible, a space or a tab. -/
def isVisible (c : Char) : Bool := (32 ≤ c.toNat && c.toNat < 127) || c == '\t'

/-- The id of a request with the given headers. -/
def ofHeaders (headers : Headers) : RequestId :=
  match headers.find? fun h => h.1.toList.map Char.toLower == header.toList with
  | some (_, id) => if !id.isEmpty && id.toList.all isVisible then given id else generated
  | none => generated

end RequestId

end TeamLedger
