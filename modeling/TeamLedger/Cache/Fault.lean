/-
What can go wrong between this library and a cache.
-/
set_option autoImplicit false

namespace TeamLedger.Cache

/-! ## Addresses -/

/-- What is wrong with the address of a server. -/
inductive AddressFault
  /-- It is no address, or not that of a cache. -/
  | unreadable
  | noHost
  | noPath
  /-- It asks for a connection that hides what is sent. -/
  | hidden
  | noDatabase
  | noUser
  | noPassword
  /-- It chooses a version of the protocol that there is not. -/
  | noVersion (version : String)
deriving DecidableEq, Repr

/-- What is reported of an address. -/
def AddressFault.message : AddressFault → String
  | unreadable => "Redis URL did not parse- InvalidClientConfig"
  | noHost => "Missing hostname- InvalidClientConfig"
  | noPath => "Missing path- InvalidClientConfig"
  | hidden => "can't connect with TLS, the feature is not enabled- InvalidClientConfig"
  | noDatabase => "Invalid database number- InvalidClientConfig"
  | noUser => "Username is not valid UTF-8 string- InvalidClientConfig"
  | noPassword => "Password is not valid UTF-8 string- InvalidClientConfig"
  | noVersion version => "Invalid protocol version - InvalidClientConfig: " ++ version

/-! ## Replies -/

/-- The codes of a server's errors that have names. -/
def errorNames : List (String × String) :=
  [("ERR", "ResponseError"), ("EXECABORT", "ExecAbortError"), ("LOADING", "BusyLoadingError"),
    ("NOSCRIPT", "NoScriptError"), ("MOVED", "Moved"), ("ASK", "Ask"), ("TRYAGAIN", "TryAgain"),
    ("CLUSTERDOWN", "ClusterDown"), ("CROSSSLOT", "CrossSlot"), ("MASTERDOWN", "MasterDown"),
    ("READONLY", "ReadOnly"), ("NOTBUSY", "NotBusy")]

/-- What is reported of a server's error: a code and, mostly, a text behind the first blank. An error
that has a name is introduced, any other is given by its code. -/
def replyMessage (line : List Char) : String :=
  let code := String.ofList (line.takeWhile (· != ' '))
  let report := if line.contains ' '
    then some (String.ofList ((line.dropWhile (· != ' ')).drop 1))
    else none
  match errorNames.lookup code, report with
  | some name, some report => "An error was signalled by the server - " ++ name ++ ": " ++ report
  | some name, none => "An error was signalled by the server- " ++ name
  | none, some report => code ++ ": " ++ report
  | none, none => code ++ ": Unknown extension error encountered"

/-! ## Faults -/

/-- What went wrong. -/
inductive Fault
  /-- The cache could not be reached. -/
  | io (report : String)
  /-- The server answered with an error. -/
  | reply (line : String)
  | badAddress (cause : AddressFault)
  /-- The system did not let the server be reached. -/
  | unreachable (report : String)
deriving DecidableEq, Repr

/-- The text of a fault. -/
def Fault.message : Fault → String
  | io report => "Redis error: cache - IoError: " ++ report
  | reply line => "Redis error: " ++ replyMessage line.toList
  | badAddress cause => "Redis error: " ++ cause.message
  | unreachable report => "Redis error: " ++ report

end TeamLedger.Cache
