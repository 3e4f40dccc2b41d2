/-
Sessions in the middle of a program.

A program waits for the answer to each of its requests, and in the meantime
other sessions go on. An office is a world together with what is left of the
program that each session is running. An event answers one request of one
session, so the sessions come in between each other wherever they can. A program
need not be finished: a session may begin another one, or end, at any point.

What a program asks for may depend on what it was answered before. Such a habit
is a discipline: what may be asked for with what is known, and what is known
after an answer. Whether a program keeps to a discipline is seen from the
program alone (`Program.Keeps`). What it says of a run is another matter, and
different for every discipline: there what is known has to be tied to the state
of the ledger, and this tie has to survive whatever the others do.
-/
import TeamLedger.Proofs.Isolation

set_option autoImplicit false

namespace TeamLedger

variable {α β σ γ : Type}

/-! ## Offices -/

/-- A world, and what is left of the programs that its sessions are running. -/
structure Office (α : Type) where
  world : World
  task : String → Option (Program α) := fun _ => none

namespace Office

/-- Something that happens in an office. -/
inductive Event (α : Type)
  | begin (name : String)
  /-- A session begins a program, and leaves the one that it was running. -/
  | start (name : String) (p : Program α)
  /-- The next request of a session is answered. -/
  | step (name : String)
  | commit (name : String)
  | rollback (name : String)
  | addTeam (name : String) (kind : Team.Kind)
  /-- The clock of the cache goes on. -/
  | wait (time : Cache.Nanoseconds)

/-- The office with another world, in which a session has another task. -/
def assign (o : Office α) (name : String) (world : World) (task : Option (Program α)) : Office α where
  world
  task := Function.update o.task name task

theorem task_assign (o : Office α) (name : String) (world : World) (task : Option (Program α))
    (k : String) : (o.assign name world task).task k = if k = name then task else o.task k :=
  Function.update_apply _ _ _ _

/-- The office after an event. Nothing is begun or answered in a session that is not open. -/
def happen (o : Office α) : Event α → Office α
  | .begin name => o.assign name (o.world.begin name) none
  | .start name p => if (o.world.open? name).isSome then o.assign name o.world (some p) else o
  | .step name =>
    match o.task name with
    | some (.ask request next) =>
      match o.world.run name none (Program.request request) with
      | some (answer, w) => o.assign name w (some (next answer))
      | none => o
    | _ => o
  | .commit name => o.assign name (o.world.commit name).2 none
  | .rollback name => o.assign name (o.world.rollback name) none
  | .addTeam name kind => { o with world := (o.world.addTeam name kind).2 }
  | .wait time => { o with world := { o.world with
      around := { o.world.around with uptime := o.world.around.uptime + time } } }

end Office

/-! ## One request -/

/-- A request of an open session is answered by the session and by what is around it. -/
theorem World.run_request {w w' : World} {name : String} {r : Request} {a : r.Answer}
    (h : w.run name none (Program.request r) = some (a, w')) : ∃ s, w.open? name = some s ∧
      a = (Session.backend.respond (w.ledger, s) w.around r).1 ∧
      w'.ledger = (Session.backend.respond (w.ledger, s) w.around r).2.1.1 ∧
      w'.around = (Session.backend.respond (w.ledger, s) w.around r).2.2 ∧
      ∀ k, w'.open? k = if k = name
        then some (Session.backend.respond (w.ledger, s) w.around r).2.1.2 else w.open? k := by
  obtain ⟨s, l, s', around', hs, hp, hledger, hopen⟩ := run_eq_some h
  have respond_eq : Session.backend.respond (w.ledger, s) w.around r = (a, (l, s'), around') := hp
  refine ⟨s, hs, ?_⟩
  rw [respond_eq]
  refine ⟨rfl, hledger, ?_, hopen⟩
  -- what is around the world afterwards is what the request has left
  unfold run at h
  obtain ⟨o, ho, h⟩ := Option.bind_eq_some_iff.1 h
  have session_eq : o.session = s := by
    rw [open?, ho] at hs
    exact Option.some.inj hs
  rw [Program.run_failing_none, session_eq, hp] at h
  cases h
  rfl

namespace Office

/-- **An answer.** A session that is open and has something to ask is answered; otherwise nothing
happens. -/
theorem step_cases (o : Office α) (name : String) :
    ((∀ s request next, o.world.open? name = some s → o.task name ≠ some (.ask request next)) ∧
      o.happen (.step name) = o) ∨
    ∃ s request next w, o.world.open? name = some s ∧ o.task name = some (.ask request next) ∧
      w.ledger = (Session.backend.respond (o.world.ledger, s) o.world.around request).2.1.1 ∧
      w.around = (Session.backend.respond (o.world.ledger, s) o.world.around request).2.2 ∧
      (∀ k, w.open? k = if k = name
        then some (Session.backend.respond (o.world.ledger, s) o.world.around request).2.1.2
        else o.world.open? k) ∧
      o.happen (.step name) = o.assign name w
        (some (next (Session.backend.respond (o.world.ledger, s) o.world.around request).1)) := by
  cases htask : o.task name with
  | none =>
    refine .inl ⟨fun _ _ _ _ h => (by cases h), ?_⟩
    simp only [happen, htask]
  | some p =>
    cases p with
    | done a =>
      refine .inl ⟨fun _ _ _ _ h => (by cases h), ?_⟩
      simp only [happen, htask]
    | ask request next =>
      have hopen := o.world.run_isSome name (Program.request request)
      cases hrun : o.world.run name none (Program.request request) with
      | none =>
        refine .inl ⟨fun s _ _ hs => ?_, ?_⟩
        · rw [hrun, hs] at hopen
          cases hopen
        · simp only [happen, htask, hrun]
      | some result =>
        obtain ⟨a, w⟩ := result
        obtain ⟨s, hs, rfl, hledger, haround, hopen⟩ := World.run_request hrun
        refine .inr ⟨s, request, next, w, hs, rfl, hledger, haround, hopen, ?_⟩
        simp only [happen, htask, hrun]

/-- What holds of every world holds of every office. -/
theorem sound_happen {o : Office α} (h : o.world.Sound) (e : Event α) : (o.happen e).world.Sound := by
  cases e with
  | begin name => exact h.begin name
  | commit name => exact h.commit name
  | rollback name => exact h.rollback name
  | addTeam name kind => exact h.addTeam name kind
  | wait time => exact h
  | start name p =>
    simp only [happen]
    split <;> exact h
  | step name =>
    simp only [happen]
    split
    · split
      next hrun => exact h.run hrun
      next => exact h
    · exact h

end Office

/-! ## Disciplines -/

/-- What may be asked for with what is known, and what may be known after an answer. -/
structure Discipline (γ : Type) where
  allows : γ → Request → Prop
  learns : γ → (r : Request) → r.Answer → γ → Prop

variable {D : Discipline γ}

namespace Program

/-- The program keeps to the discipline, and whatever it is answered, its result and what is known by
then meet `Q`. -/
def Keeps (D : Discipline γ) (Q : α → γ → Prop) : Program α → γ → Prop
  | .done a, g => Q a g
  | .ask request next, g => D.allows g request ∧
      ∀ answer g', D.learns g request answer g' → (next answer).Keeps D Q g'

/-- The program asks for nothing else, whatever it is answered. -/
def Asks (ok : Request → Prop) : Program α → Prop
  | .done _ => True
  | .ask request next => ok request ∧ ∀ answer, (next answer).Asks ok

theorem Keeps.bind {Q : β → γ → Prop} {p : Program α} {f : α → Program β} {g : γ}
    (h : p.Keeps D (fun a g => (f a).Keeps D Q g) g) : (p.bind f).Keeps D Q g := by
  induction p generalizing g with
  | done a => exact h
  | ask request next ih => exact ⟨h.1, fun answer g' hg => ih answer (h.2 answer g' hg)⟩

theorem Keeps.mono {Q Q' : α → γ → Prop} (hq : ∀ a g, Q a g → Q' a g) {p : Program α} {g : γ}
    (h : p.Keeps D Q g) : p.Keeps D Q' g := by
  induction p generalizing g with
  | done a => exact hq a g h
  | ask request next ih => exact ⟨h.1, fun answer g' hg => ih answer (h.2 answer g' hg)⟩

/-- A program that asks only for what is allowed anyway keeps to the discipline. -/
theorem Asks.keeps {ok : Request → Prop} (hok : ∀ g r, ok r → D.allows g r) {p : Program α}
    (h : p.Asks ok) (g : γ) : p.Keeps D (fun _ _ => True) g := by
  induction p generalizing g with
  | done a => trivial
  | ask request next ih => exact ⟨hok g request h.1, fun answer g' _ => ih answer (h.2 answer) g'⟩

end Program

/-! ## Services -/

namespace Service

/-- The service keeps to the discipline in whatever state it begins. -/
def Keeps (D : Discipline γ) (Q : Except Failure α → γ → Prop) (p : Service σ α) (g : γ) : Prop :=
  ∀ st, (p st).Keeps D (fun x g => Q x.1 g) g

variable {Q : Except Failure β → γ → Prop} {g : γ}

theorem Keeps.bind {p : Service σ α} {f : α → Service σ β}
    (h : p.Keeps D (fun r g => match r with
      | .ok a => (f a).Keeps D Q g
      | .error e => Q (.error e) g) g) : (p >>= f).Keeps D Q g := by
  intro st
  rw [bind_apply]
  refine Program.Keeps.bind (Program.Keeps.mono ?_ (h st))
  rintro ⟨r | r, st'⟩ g' h
  · exact h
  · exact h st'

theorem Keeps.pure {Q : Except Failure α → γ → Prop} {a : α} (h : Q (.ok a) g) :
    (Pure.pure a : Service σ α).Keeps D Q g := fun _ => h

theorem Keeps.refuse {Q : Except Failure α → γ → Prop} {e : LedgerError}
    (h : Q (.error (.refused e)) g) : (Service.refuse e : Service σ α).Keeps D Q g := fun _ => h

/-- What comes after a call goes on with its answer; a failure ends the service. -/
theorem Keeps.call_bind {c : StoreCall} {f : c.Answer → Service σ β}
    (hc : D.allows g (.store c))
    (hok : ∀ a g', D.learns g (.store c) (.ok a) g' → (f a).Keeps D Q g')
    (herror : ∀ e g', D.learns g (.store c) (.error e) g' → Q (.error e) g') :
    (Service.call c >>= f).Keeps D Q g := by
  refine Keeps.bind fun st => ⟨hc, ?_⟩
  rintro (e | a) g' hg
  · exact herror e g' hg
  · exact hok a g' hg

theorem Keeps.cacheGet_bind {key : String} {f : Option String → Service σ β}
    (hc : D.allows g (.cacheGet key))
    (hok : ∀ a g', D.learns g (.cacheGet key) (.ok a) g' → (f a).Keeps D Q g')
    (herror : ∀ e g', D.learns g (.cacheGet key) (.error e) g' → Q (.error e) g') :
    (Service.cacheGet key >>= f).Keeps D Q g := by
  refine Keeps.bind fun st => ⟨hc, ?_⟩
  rintro (e | a) g' hg
  · exact herror e g' hg
  · exact hok a g' hg

theorem Keeps.cachePut_bind {key value : String} {ttl : Cache.Nanoseconds} {f : Unit → Service σ β}
    (hc : D.allows g (.cachePut key value ttl))
    (hok : ∀ g', D.learns g (.cachePut key value ttl) (.ok ()) g' → (f ()).Keeps D Q g')
    (herror : ∀ e g', D.learns g (.cachePut key value ttl) (.error e) g' → Q (.error e) g') :
    (Service.cachePut key value ttl >>= f).Keeps D Q g := by
  refine Keeps.bind fun st => ⟨hc, ?_⟩
  rintro (e | a) g' hg
  · exact herror e g' hg
  · exact hok g' hg

theorem Keeps.count_bind {metric : Metric} {label : String} {f : Unit → Service σ β}
    (hc : D.allows g (.count metric label))
    (h : ∀ g', D.learns g (.count metric label) () g' → (f ()).Keeps D Q g') :
    (Service.count metric label >>= f).Keeps D Q g :=
  Keeps.bind fun _ => ⟨hc, fun _ g' hg => h g' hg⟩

/-- The last call of a service. -/
theorem Keeps.call {c : StoreCall} {Q : Except Failure c.Answer → γ → Prop}
    (hc : D.allows g (.store c)) (h : ∀ a g', D.learns g (.store c) a g' → Q a g') :
    (Service.call c : Service σ c.Answer).Keeps D Q g := by
  refine fun st => ⟨hc, ?_⟩
  rintro (e | a) g' hg
  · exact h (.error e) g' hg
  · exact h (.ok a) g' hg

end Service

end TeamLedger
