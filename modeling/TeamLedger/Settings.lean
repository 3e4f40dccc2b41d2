/-
The settings of the service, from the variables of its environment.

A variable that is missing has a default, except for the address of the database. Numbers that
cannot be read count as missing; only the port has to be one. It is set by a variable whose name is
a mark, two underscores and a path of names, in any case. A path that leads into the port would make
it a table or a list of settings, which it is not; what is no path is the name of something else.
-/
import TeamLedger.Error.Response
import TeamLedger.Text.Number

set_option autoImplicit false

namespace TeamLedger

/-- The variables of an environment. -/
abbrev Variables := List (String × String)

/-- The settings of the service. -/
structure Settings where
  port : Nat
  serviceName : String
  serviceVersion : String
  logLevel : String
  telemetry : Option String
  databaseUrl : String
  maxConnections : Nat
  minConnections : Nat
  cacheUrl : Option String
  limitSeconds : Nat
deriving DecidableEq, Repr

namespace Settings

/-- Why there are no settings. -/
inductive Fault
  /-- The port is not a port. -/
  | port
  | noDatabase
deriving DecidableEq, Repr

/-- How a fault leaves the service; about the port nothing is fixed. -/
def Fault.error? : Fault → Option ServiceError
  | port => none
  | noDatabase => some (.config "DATABASE_URL is required")

/-- The name of the service. -/
def name : String := "invoice-service"

/-- The version of the service. -/
def version : String := "0.1.0"

/-! ## Paths -/

/-- A path of names: a first name, and whether anything follows. -/
structure Path where
  root : List Char
  leadsInto : Bool
deriving DecidableEq, Repr

/-- The character may stand in a name. -/
def isNameChar (c : Char) : Bool := c.isAlphanum || c == ' ' || c == '_' || c == '-'

/-- Reads a name, and gives it with what follows. -/
def name? (cs : List Char) : Option (List Char × List Char) :=
  let name := cs.takeWhile isNameChar
  if name.isEmpty then none else some (name, cs.dropWhile isNameChar)

/-- Reads a place in a list, up to the closing bracket: an integer with blanks around it. -/
def place? (cs : List Char) : Option (List Char) := do
  let isBlank (c : Char) : Bool := c == ' ' || c == '\t'
  let cs := cs.dropWhile isBlank
  let isDigit (c : Char) : Bool := c.isDigit || c == '+' || c == '-'
  let _ ← Text.integer? (cs.takeWhile isDigit)
  match (cs.dropWhile isDigit).dropWhile isBlank with
  | ']' :: rest => some rest
  | _ => none

/-- The characters are steps of a path: names behind points, and places in brackets. The first
argument bounds their number. -/
def areSteps : Nat → List Char → Bool
  | _, [] => true
  | n + 1, '.' :: cs => (name? cs).any fun read => areSteps n read.2
  | n + 1, '[' :: cs => (place? cs).any (areSteps n)
  | _, _ => false

/-- Reads a path. -/
def Path.ofChars? (cs : List Char) : Option Path := do
  let (root, rest) ← name? cs
  if areSteps rest.length rest then some ⟨root, !rest.isEmpty⟩ else none

/-! ## The port -/

/-- The port when none is set. -/
def defaultPort : Nat := 8080

/-- The words that stand for 1 and 0. -/
def switches : List (List Char × Nat) :=
  [("true", 1), ("yes", 1), ("on", 1), ("false", 0), ("no", 0), ("off", 0)].map fun s =>
    (s.1.toList, s.2)

/-- Reads a port. -/
def port? (s : String) : Option Nat := do
  -- the words come first; none of them is a number
  let n ← (switches.lookup (s.toList.map Char.toLower)).or (Text.natural? (2 ^ 64) s.toList)
  if n < 2 ^ 16 then some n else none

/-- The mark of the variables that stand for paths. -/
def mark : List Char := "app".toList

/-- The characters with a point for every two underscores. -/
def withPoints : List Char → List Char
  | '_' :: '_' :: cs => '.' :: withPoints cs
  | c :: cs => c :: withPoints cs
  | [] => []

/-- The path that the name of a variable stands for, if it stands for one. -/
def path? (name : String) : Option Path := do
  let cs := name.toList.map Char.toLower
  let start := mark ++ ['_', '_']
  if start.isPrefixOf cs then Path.ofChars? (withPoints (cs.drop start.length)) else none

/-- The port that a variable sets, if it is about the port; there is none within it. -/
def portSetting? (v : String × String) : Option (Option Nat) :=
  match path? v.1 with
  | some p => if p.root = "port".toList then some (if p.leadsInto then none else port? v.2) else none
  | none => none

/-- The port that the variables set; the last one counts. -/
def portOf? (vars : Variables) : Option Nat :=
  (vars.reverse.findSome? portSetting?).getD (some defaultPort)

/-! ## All settings -/

/-- The value of a variable. -/
def value? (vars : Variables) (name : String) : Option String := vars.lookup name

/-- The value of a variable, if it is not empty. -/
def nonEmpty? (vars : Variables) (name : String) : Option String :=
  (value? vars name).filter (!·.isEmpty)

/-- The number below a bound that a variable sets. -/
def numberOr (vars : Variables) (name : String) (bound default : Nat) : Nat :=
  ((value? vars name).bind fun s => Text.natural? bound s.toList).getD default

/-- The settings that the variables make. The port is looked at first. -/
def ofVariables (vars : Variables) : Except Fault Settings :=
  match portOf? vars with
  | none => .error .port
  | some port =>
    match value? vars "DATABASE_URL" with
    | none => .error .noDatabase
    | some databaseUrl => .ok
        { port
          serviceName := (value? vars "SERVICE_NAME").getD name
          serviceVersion := (value? vars "SERVICE_VERSION").getD version
          logLevel := (value? vars "LOG_LEVEL").getD "info"
          telemetry := nonEmpty? vars "OTLP_ENDPOINT"
          databaseUrl
          maxConnections := numberOr vars "DATABASE_MAX_CONNECTIONS" (2 ^ 32) 10
          minConnections := numberOr vars "DATABASE_MIN_CONNECTIONS" (2 ^ 32) 2
          cacheUrl := nonEmpty? vars "REDIS_URL"
          limitSeconds := numberOr vars "LIMIT_CACHE_TTL_SECONDS" (2 ^ 64) 60 }

/-- The settings in JSON. -/
def outline (s : Settings) : Json :=
  .object [("port", .ofInt s.port), ("service_name", .text s.serviceName),
    ("service_version", .text s.serviceVersion), ("log_level", .text s.logLevel),
    ("otlp_endpoint", toJson s.telemetry),
    ("database", .object [("url", .text s.databaseUrl),
      ("max_connections", .ofInt s.maxConnections), ("min_connections", .ofInt s.minConnections)]),
    ("cache", .object [("redis_url", toJson s.cacheUrl),
      ("limit_ttl_seconds", .ofInt s.limitSeconds)])]

end Settings

end TeamLedger
