/-
Programs: what a service does, step by step, without saying who answers.

A program asks for one thing at a time (a call to the store, the time, the cache, a count) and goes
on with the answer. So the same service runs over every store, and what it asks, in which order and
until which failure, can be read off the program itself.

A service is a program that keeps a state of its own and may fail. A failure ends it, but the state
it had reached stays.
-/
import TeamLedger.Store
import TeamLedger.Metrics
import TeamLedger.Cache.Local

set_option autoImplicit false

namespace TeamLedger

/-- Something that a program asks for. -/
inductive Request
  | store (call : StoreCall)
  | now
  | count (metric : Metric) (label : String)
  | cacheGet (key : String)
  | cachePut (key value : String) (ttl : Cache.Nanoseconds)

/-- What is answered. -/
abbrev Request.Answer : Request → Type
  | store call => Except Failure call.Answer
  | now => Instant
  | count .. => Unit
  | cacheGet _ => Except Failure (Option String)
  | cachePut .. => Except Failure Unit

/-- A program with a result. -/
inductive Program (α : Type) : Type
  | done (a : α)
  | ask (request : Request) (next : request.Answer → Program α)

namespace Program

/-- Goes on with the result of a program. -/
def bind {α β : Type} : Program α → (α → Program β) → Program β
  | done a, f => f a
  | ask request next, f => ask request fun answer => bind (next answer) f

instance : Monad Program where
  pure := done
  bind := bind

/-- Asks for one thing. -/
def request (r : Request) : Program r.Answer := ask r done

end Program

/-! ## Who answers -/

/-- What is around a program, apart from the store. -/
structure Surroundings where
  clock : Clock
  /-- The clock that the cache goes by. -/
  uptime : Cache.Nanoseconds := 0
  metrics : Metrics := .zero
  cache : Cache.Local := {}
  /-- Why the cache cannot be read, if it cannot. -/
  readFault : Option Cache.Fault := none
  /-- Why the cache cannot be written, if it cannot. -/
  writeFault : Option Cache.Fault := none

/-- A store with a state: how it answers a call, and what it counts. -/
structure Backend (σ : Type) where
  answer : (call : StoreCall) → σ → Metrics → Except Failure call.Answer × σ × Metrics

namespace Surroundings

/-- Looks a key up in the cache. -/
def cacheGet (s : Surroundings) (key : String) : Except Failure (Option String) × Surroundings :=
  match s.readFault with
  | some fault => (.error (.refused (.cache fault)), s)
  | none =>
    let found := s.cache.get s.uptime key
    (.ok found.1, { s with cache := found.2, uptime := s.uptime + 1 })

/-- Stores a value in the cache. -/
def cachePut (s : Surroundings) (key value : String) (ttl : Cache.Nanoseconds) :
    Except Failure Unit × Surroundings :=
  match s.writeFault with
  | some fault => (.error (.refused (.cache fault)), s)
  | none =>
    (.ok (), { s with cache := s.cache.put s.uptime key value ttl, uptime := s.uptime + 1 })

/-- Reads the clock. -/
def now (s : Surroundings) : Instant × Surroundings :=
  let read := s.clock.read
  (read.1, { s with clock := read.2 })

end Surroundings

/-- Answers one request. -/
def Backend.respond {σ : Type} (b : Backend σ) (st : σ) (s : Surroundings) :
    (r : Request) → r.Answer × σ × Surroundings
  | .store call =>
    let (answer, st, metrics) := b.answer call st s.metrics
    (answer, st, { s with metrics })
  | .now =>
    let (t, s) := s.now
    (t, st, s)
  | .count metric label => ((), st, { s with metrics := s.metrics.bump metric label })
  | .cacheGet key =>
    let (answer, s) := s.cacheGet key
    (answer, st, s)
  | .cachePut key value ttl =>
    let (answer, s) := s.cachePut key value ttl
    (answer, st, s)

/-- Runs a program over a store. -/
def Program.run {σ α : Type} (b : Backend σ) :
    Program α → σ → Surroundings → α × σ × Surroundings
  | done a, st, s => (a, st, s)
  | ask request next, st, s =>
    let (answer, st, s) := b.respond st s request
    run b (next answer) st s

/-- A store whose `n`-th call from now on, counted from 1, is not made and finds no row instead. -/
def Backend.failing {σ : Type} (b : Backend σ) : Backend (σ × Option Nat) where
  answer call st m :=
    match st.2 with
    -- the store is not asked, so neither it nor the metrics change
    | some 1 => (.error (.refused (.database .rowNotFound)), (st.1, none), m)
    | n =>
      let (answer, st, m) := b.answer call st.1 m
      (answer, (st, n.map (· - 1)), m)

/-! ## Services -/

/-- A program with a state that may fail and keeps its state when it does. -/
abbrev Service (σ : Type) := ExceptT Failure (StateT σ Program)

namespace Service

variable {σ α : Type}

/-- Asks for something that is always answered. -/
def request (r : Request) : Service σ r.Answer := fun s => do
  let a ← Program.request r
  pure (.ok a, s)

/-- Calls the store. -/
def call (c : StoreCall) : Service σ c.Answer := do
  match ← request (.store c) with
  | .ok a => pure a
  | .error e => throw e

/-- Reads the clock. -/
def now : Service σ Instant := request .now

/-- Counts something once more. -/
def count (metric : Metric) (label : String) : Service σ Unit := request (.count metric label)

/-- Looks a key up in the cache. -/
def cacheGet (key : String) : Service σ (Option String) := do
  match ← request (.cacheGet key) with
  | .ok a => pure a
  | .error e => throw e

/-- Stores a value in the cache. -/
def cachePut (key value : String) (ttl : Cache.Nanoseconds) : Service σ Unit := do
  match ← request (.cachePut key value ttl) with
  | .ok a => pure a
  | .error e => throw e

/-- Refuses to go on. -/
def refuse (e : LedgerError) : Service σ α := throw (.refused e)

/-- The result of an operation on amounts. -/
def ofMoney (r : Except Money.Overflow α) : Service σ α :=
  match r with
  | .ok a => pure a
  | .error operation => throw (.overflow operation)

/-- Runs a service over a store. -/
def run {τ : Type} (b : Backend τ) (p : Service σ α) (s : σ) (st : τ) (around : Surroundings) :
    Except Failure α × σ × τ × Surroundings :=
  let ((result, s), st, around) := Program.run b (p s) st around
  (result, s, st, around)

end Service

end TeamLedger
