/-
A cache on a server: the commands sent to it and how its replies are read.

A server keeps an entry for whole seconds, at least one. A value that is not there is no error; only
an error of the server is.
-/
import TeamLedger.Cache.Fault
import TeamLedger.Cache.Local

set_option autoImplicit false

namespace TeamLedger.Cache

/-- A command: its words. -/
abbrev Command := List String

/-- A reply of the server. -/
inductive Reply
  | nothing
  | text (s : String)
  | refused (line : String)
deriving DecidableEq, Repr

/-- What has been sent to a server, and its replies still to come. -/
structure Remote where
  sent : List Command := []
  replies : List Reply
deriving DecidableEq, Repr

namespace Remote

/-- Sends a command and takes the next reply. Without one there is nothing. -/
def send (c : Remote) (command : Command) : Reply × Remote :=
  match c.replies with
  | [] => (.nothing, { c with sent := c.sent ++ [command] })
  | r :: rs => (r, { sent := c.sent ++ [command], replies := rs })

/-- The value that a reply brings, if there is one. -/
def read : Reply → Except Fault (Option String)
  | .nothing => .ok none
  | .text s => .ok (some s)
  | .refused line => .error (.reply line)

/-- Looks a key up. -/
def get (c : Remote) (key : String) : Except Fault (Option String) × Remote :=
  let (reply, c) := c.send ["GET", key]
  (read reply, c)

/-- Stores a value for a length of time. -/
def put (c : Remote) (key value : String) (ttl : Nanoseconds) : Except Fault Unit × Remote :=
  let (reply, c) := c.send ["SET", key, value, "EX", Nat.repr (max 1 (ttl / 10 ^ 9))]
  ((read reply).map fun _ => (), c)

/-- Asks the server whether it is well. -/
def health (c : Remote) : Except Fault Unit × Remote :=
  let (reply, c) := c.send ["PING"]
  ((read reply).map fun _ => (), c)

end Remote

end TeamLedger.Cache
