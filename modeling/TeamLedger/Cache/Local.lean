/-
A cache within the process, whose entries expire.

Time is a number of nanoseconds on a clock that never goes back and has a last moment. An entry whose
end would lie beyond that moment never expires. Expired entries are dropped when they are asked for,
and all of them whenever something is stored, so that keys nobody asks for do not pile up.
-/
import TeamLedger.Power

set_option autoImplicit false

namespace TeamLedger.Cache

/-- A moment on the cache's clock, and a length of time, in nanoseconds. -/
abbrev Nanoseconds := Nat

/-- A number of seconds. -/
def seconds (n : Nat) : Nanoseconds := n * 10 ^ 9

/-- The longest length of time. -/
def longest : Nanoseconds := seconds (2 ^ 64 - 1) + 999999999

/-- The last moment of the clock. -/
def lastMoment : Nanoseconds := seconds (2 ^ 63 - 1) + 999999999

/-- A stored value and the moment from which it no longer counts; none if it always does. -/
structure Entry where
  value : String
  expires : Option Nanoseconds
deriving DecidableEq, Repr

/-- The entry counts at a moment. -/
def Entry.isLive (e : Entry) (now : Nanoseconds) : Bool := e.expires.all (now < ·)

/-- Keys with their entries; a key occurs once. -/
structure Local where
  entries : List (String × Entry) := []
deriving DecidableEq, Repr

namespace Local

instance : Inhabited Local := ⟨{}⟩

/-- The number of entries, expired ones included. -/
def size (c : Local) : Nat := c.entries.length

/-- There are no entries. -/
def isEmpty (c : Local) : Bool := c.entries.isEmpty

/-- The value of a key at a moment. If it has expired, its entry is dropped. -/
def get (c : Local) (now : Nanoseconds) (key : String) : Option String × Local :=
  match c.entries.lookup key with
  | some e =>
    if e.isLive now then (some e.value, c) else (none, ⟨c.entries.filter (·.1 ≠ key)⟩)
  | none => (none, c)

/-- Stores a value for a length of time, and drops what has expired. -/
def put (c : Local) (now : Nanoseconds) (key value : String) (ttl : Nanoseconds) : Local :=
  let kept := c.entries.filter fun e => e.2.isLive now && e.1 ≠ key
  -- a length of time that leads beyond the clock stands for ever
  let expires := if now + ttl ≤ lastMoment then some (now + ttl) else none
  ⟨kept ++ [(key, ⟨value, expires⟩)]⟩

end Local

end TeamLedger.Cache
