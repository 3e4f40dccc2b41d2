/-
The service as an application: how it starts, and how it answers requests.

Starting takes four steps, and the first one that fails is reported: logging in to the database,
bringing its tables up to date, reaching the cache, and taking the port. Once it runs it tells its
health, whether it is ready, and its metrics. It is well if the database is, and then the cache.
-/
import TeamLedger.Sql.Pool
import TeamLedger.Cache.Address
import TeamLedger.Cache.Remote
import TeamLedger.RequestId
import TeamLedger.Settings

set_option autoImplicit false

namespace TeamLedger.Application

/-! ## Starting -/

/-- Faults of the system that the service runs on. -/
inductive SystemFault
  | addressInUse
  | networkUnreachable
  | noSuchFile
deriving DecidableEq, Repr

/-- The text of a fault. -/
def SystemFault.message : SystemFault → String
  | addressInUse => "Address already in use (os error 98)"
  | networkUnreachable => "Network is unreachable (os error 101)"
  | noSuchFile => "No such file or directory (os error 2)"

/-- What the service finds when it starts. -/
structure Site where
  /-- Why the database refuses the login, if it does. -/
  loginRefusal : Option Sql.Fault := none
  /-- The migrations that the database has seen. -/
  applied : List Sql.Applied := []
  portTaken : Bool := false
  /-- Why a place cannot be reached, if it cannot. -/
  cacheFault : Cache.Place → Option String := fun _ => none

/-- How far a start has got: its result, and whether the tables were changed. -/
structure Start where
  result : Except ServiceError Unit
  migrated : Bool

/-- The cache is reached: the one within the process always, and one with an address if that is one
and the server can be reached. -/
def reachCache (site : Site) (address : Option String) : Except Cache.Fault Unit := do
  match address with
  | none => pure ()
  | some address =>
    let address ← (Cache.Address.ofText address).mapError .badAddress
    match site.cacheFault address.place with
    | some report => throw (.unreachable report)
    | none => pure ()

/-- What leaves the service when the cache is not reached. -/
def noCache (fault : Cache.Fault) : ServiceError :=
  .internal (some ("Failed to connect to Redis: " ++ fault.message))

/-- The port is taken, unless someone else has it. -/
def takePort (site : Site) : Except ServiceError Unit :=
  if site.portTaken then .error (.internal (some SystemFault.addressInUse.message)) else .ok ()

/-- Starts the service, with a cache at an address or within the process. -/
def start (site : Site) (migrate : Bool) (cacheAddress : Option String) : Start :=
  match Sql.Pool.connect site.loginRefusal with
  | .error e => ⟨.error e, false⟩
  | .ok _ =>
    match if migrate then Sql.Pool.migrate none site.applied else .ok [] with
    | .error e => ⟨.error e, false⟩
    | .ok versions =>
      -- what fails from here on leaves the tables changed
      ⟨do (reachCache site cacheAddress).mapError noCache; takePort site, !versions.isEmpty⟩

/-! ## Running -/

/-- The cache that a running service uses. -/
inductive CacheLink
  | inProcess
  | remote (server : Cache.Remote)
deriving DecidableEq, Repr

/-- Asks the cache whether it is well. -/
def CacheLink.health : CacheLink → Except Cache.Fault Unit × CacheLink
  | inProcess => (.ok (), inProcess)
  | remote server =>
    let (result, server) := server.health
    (result, remote server)

/-- A running service. -/
structure Running where
  database : Sql.Conversation
  cache : CacheLink := .inProcess
  metrics : Metrics := .zero

/-- Whether the service is well. The cache is asked only if the database is well. -/
def Running.check (r : Running) : Except ServiceError Unit × Running :=
  let (result, database, metrics) := Sql.Pool.health r.database r.metrics
  let r := { r with database, metrics }
  match result with
  | .error e => (.error e, r)
  | .ok _ =>
    let (result, cache) := r.cache.health
    (result.mapError fun fault => .internal (some ("Cache unavailable: " ++ fault.message)),
      { r with cache })

/-- A request. -/
structure Request where
  method : String
  path : String
  headers : Headers := []
deriving DecidableEq, Repr

/-- The body of a response. -/
inductive Body
  | empty
  | json (j : Json)
  | text (s : String)

/-- A response. -/
structure Response where
  status : Nat
  contentType : Option String := none
  allow : Option String := none
  requestId : RequestId
  body : Body := .empty

/-- What is answered to a request before its id is added. -/
abbrev Reply := RequestId → Response

/-- The path of a request, without what follows a question mark or a hash. -/
def Request.route (q : Request) : String :=
  String.ofList (q.path.toList.takeWhile fun c => c != '?' && c != '#')

/-- Tells the health of the service. -/
def healthReply : Except ServiceError Unit → Reply
  | .ok _, requestId =>
    { status := 200, contentType := some "application/json", requestId
      body := .json (.object [("status", .text "ok"), ("service", .text Settings.name),
        ("version", .text Settings.version)]) }
  | .error e, requestId =>
    { status := 503, contentType := some "application/json", requestId
      body := .json (.object [("status", .text "unhealthy"), ("service", .text Settings.name),
        ("error", toJson e.message?)]) }

/-- Tells whether the service is ready. -/
def readyReply : Except ServiceError Unit → Reply
  | .ok _, requestId => { status := 200, requestId }
  | .error _, requestId => { status := 503, requestId }

/-- Tells the metrics. -/
def metricsReply (m : Metrics) : Reply := fun requestId =>
  { status := 200, contentType := some "text/plain; charset=utf-8", requestId
    body := .text m.toText }

/-- Answers a request to read something. -/
def Running.read (r : Running) (route : String) : Option (Reply × Running) :=
  match route with
  | "/health" =>
    let (result, r) := r.check
    some (healthReply result, r)
  | "/ready" =>
    let (result, r) := r.check
    some (readyReply result, r)
  | "/metrics" => some (metricsReply r.metrics, r)
  | _ => none

/-- The paths that there are. -/
def routes : List String := ["/health", "/ready", "/metrics"]

/-- Answers a request. Everything there is can be read, in full or without its body, and nothing
else. -/
def Running.respond (r : Running) (q : Request) : Response × Running :=
  -- every response has an id, those to unknown paths too
  let requestId := RequestId.ofHeaders q.headers
  if ¬ routes.contains q.route then ({ status := 404, requestId }, r)
  else if q.method = "GET" ∨ q.method = "HEAD" then
    match r.read q.route with
    | some (reply, r) =>
      let response := reply requestId
      (if q.method = "HEAD" then { response with body := .empty } else response, r)
    | none => ({ status := 404, requestId }, r)
  else ({ status := 405, allow := some "GET,HEAD", requestId }, r)

end TeamLedger.Application
