/-
Sessions with services at work in them.

Whoever has a session calls the store, or opens a service that borrows the
session: a workflow, or a manager with a working set. A service keeps its state
from one of its calls to the next, and it is gone as soon as the session is used
for anything else. What is open in a session lies on its desk; the world together
with all desks is the floor.

An event on the floor is one whole call, of the store or of a service, or the
beginning or the end of a session. Every order of events is a run. Two things
are kept on the side because the services do not say them: whether a submission
was created or locked by the workflow that holds it, and how a working set was
loaded. Nothing that happens depends on either.
-/
import Mathlib.Logic.Function.Basic
import TeamLedger.Readjustment
import TeamLedger.Proofs.Taking

set_option autoImplicit false

namespace TeamLedger

/-! ## Desks -/

/-- Where a working set is from: it was handed to the manager, or the manager loaded it, with locks or
without. It is current as long as no later loading has failed. -/
inductive Origin
  | given
  | loaded (locked current : Bool)

/-- The origin of a set after a loading has failed. -/
def Origin.outdated : Origin → Origin
  | given => given
  | loaded locked _ => loaded locked false

/-- What is open in a session. A workflow comes with the submissions that it created or locked. -/
inductive Desk
  | free
  | workflow (w : Workflow) (held : List Ident)
  | manager (set : Readjustment.WorkingSet) (origin : Origin)

/-- One call, of the store or of a service, or the opening of a service. -/
inductive Deed
  | call (c : StoreCall)
  | openWorkflow (agent : Agent) (copy : Option Submission)
  | load (q : Query .submission)
  | create (q : Query .invoice) (receipt : String) (amount : Money)
  | accept
  | reject
  | openManager (set : Readjustment.WorkingSet)
  | gather (q : Query .invoice)
  | readjust (r : Readjustment)

/-- After a workflow has tried to load a submission. -/
def Desk.loaded (q : Query .submission) (held : List Ident) : Except Failure Submission → Workflow → Desk
  | .ok c, w => .workflow w (if q.locked then c.id :: held else held)
  | .error _, w => .workflow w held

/-- After a workflow has tried to create a submission. -/
def Desk.created (held : List Ident) : Except Failure Submission → Workflow → Desk
  | .ok x, w => .workflow w (x.id :: held)
  | .error _, w => .workflow w held

/-- After a manager has tried to load a working set. -/
def Desk.gathered (q : Query .invoice) (origin : Origin) :
    Except Failure (List Invoice) → Readjustment.WorkingSet → Desk
  | .ok _, set => .manager set (.loaded q.locked true)
  | .error _, set => .manager set origin.outdated

/-- A service run to its end, and what becomes of it. -/
def Service.conclude {σ α β : Type} (p : Service σ α) (st : σ) (f : Except Failure α → σ → β) :
    Program β :=
  (p st).bind fun result => .done (f result.1 result.2)

/-- The copy that a workflow had, and the status that it has given to the submission, if it has. -/
def Workflow.ended {α : Type} (w : Workflow) (status : Submission.Status) :
    Except Failure α → Option (Submission × Submission.Status)
  | .ok _ => w.data.map (·, status)
  | .error _ => none

/-- What a call does on a desk: the desk afterwards, and the submission that was ended, if one was.
Calls of a service that is not open do nothing. -/
def Deed.program : Deed → Desk → Program (Desk × Option (Submission × Submission.Status))
  | .call c, _ => (Program.request (.store c)).bind fun _ => .done (.free, none)
  | .openWorkflow agent copy, _ => .done (.workflow { agent, data := copy } [], none)
  | .load q, .workflow w held =>
    (Workflow.load q).conclude w fun r w' => (.loaded q held r w', none)
  | .create q receipt amount, .workflow w held =>
    (Workflow.create q receipt amount).conclude w fun r w' => (.created held r w', none)
  | .accept, .workflow w held =>
    Workflow.accept.conclude w fun r w' => (.workflow w' held, w.ended .accepted r)
  | .reject, .workflow w held =>
    Workflow.reject.conclude w fun r w' => (.workflow w' held, w.ended .rejected r)
  | .openManager set, _ => .done (.manager set .given, none)
  | .gather q, .manager set origin =>
    (Readjustment.load q).conclude set fun r set' => (.gathered q origin r set', none)
  | .readjust r, .manager set origin =>
    r.apply.conclude set fun _ set' => (.manager set' origin, none)
  | _, desk => .done (desk, none)

/-! ## The floor -/

/-- A submission was accepted or rejected by a workflow. -/
structure Ending where
  submission : Ident
  /-- The status in the workflow's own copy. -/
  copied : Submission.Status
  /-- The status of the row, as a commit of the session would have left it just before. -/
  found : Option Submission.Status
  written : Submission.Status
deriving DecidableEq

/-- The world, what is open in its sessions, and the submissions that they have ended, the last one
first. -/
structure Floor where
  world : World
  desk : String → Desk := fun _ => .free
  endings : String → List Ending := fun _ => []

/-- Something that happens on the floor. -/
inductive Event
  | begin (name : String)
  | act (name : String) (d : Deed)
  | commit (name : String)
  | rollback (name : String)
  | addTeam (name : String) (kind : Team.Kind)

namespace Floor

/-- What is committed. -/
def tables (f : Floor) : Tables := f.world.ledger.tables

/-- What would be committed if the session could commit now. -/
def prospect (f : Floor) (name : String) : Tables :=
  (f.world.open? name).elim f.tables fun s => f.tables.apply s.changes

/-- The ending of a submission that a workflow had a copy of. -/
def ending (f : Floor) (name : String) (c : Submission) (status : Submission.Status) : Ending where
  submission := c.id
  copied := c.status
  found := ((f.prospect name).submissions.get? c.id).map (·.status)
  written := status

/-- The floor with another world, in which the session under a name is a new one or none. -/
def renew (f : Floor) (name : String) (world : World) : Floor where
  world
  desk := Function.update f.desk name .free
  endings := Function.update f.endings name []

/-- The floor after an event. Deeds in a session that is not open do nothing. -/
def happen (f : Floor) : Event → Floor
  | .begin name => f.renew name (f.world.begin name)
  | .act name d =>
    match f.world.run name none (d.program (f.desk name)) with
    | some ((desk, ended), world) => {
        world
        desk := Function.update f.desk name desk
        endings := Function.update f.endings name
          ((ended.map fun e => f.ending name e.1 e.2).toList ++ f.endings name) }
    | none => f
  | .commit name => f.renew name (f.world.commit name).2
  | .rollback name => f.renew name (f.world.rollback name)
  | .addTeam name kind => { f with world := (f.world.addTeam name kind).2 }

/-- The floor can be reached from an empty ledger by events of a kind. -/
inductive Reach (kind : Floor → Event → Prop) : Floor → Prop
  | start (around : Surroundings) : Reach kind { world := { around } }
  | step {f : Floor} (h : Reach kind f) (e : Event) (he : kind f e) : Reach kind (f.happen e)

/-! ## Kinds of runs -/

end Floor

/-- The submission of the workflow, if it has one, is one that it created or locked. -/
def Desk.Holding : Desk → Prop
  | .workflow w held => ∀ c, w.data = some c → c.id ∈ held
  | .free | .manager .. => True

/-- The working set was loaded by the manager itself. -/
def Desk.Loaded : Desk → Prop
  | .manager _ .given => False
  | .manager _ (.loaded ..) | .free | .workflow .. => True

/-- The working set is locked, or it is from the last loading that the manager has tried. -/
def Desk.Guarded : Desk → Prop
  | .manager _ (.loaded locked current) => locked = true ∨ current = true
  | .manager _ .given | .free | .workflow .. => True

instance : ∀ d : Desk, Decidable d.Holding
  | .workflow w held => inferInstanceAs (Decidable (∀ c ∈ w.data, c.id ∈ held))
  | .free | .manager .. => inferInstanceAs (Decidable True)

instance : ∀ d : Desk, Decidable d.Loaded
  | .manager _ .given => inferInstanceAs (Decidable False)
  | .manager _ (.loaded ..) | .free | .workflow .. => inferInstanceAs (Decidable True)

instance : ∀ d : Desk, Decidable d.Guarded
  | .manager _ (.loaded locked current) => inferInstanceAs (Decidable (locked = true ∨ current = true))
  | .manager _ .given | .free | .workflow .. => inferInstanceAs (Decidable True)

/-- The call reads, or it stores an invoice. -/
def StoreCall.Plain (c : StoreCall) : Prop := c.reads = true ∨ ∃ new, c = .insertInvoice new

namespace Floor

/-- Writes are those of services, and new invoices. -/
def Ordinary (_ : Floor) : Event → Prop
  | .act _ (.call c) => c.Plain
  | _ => True

/-- Submissions are ended by the workflow that created or locked them, and managers work on sets of
their own. -/
def Own (f : Floor) : Event → Prop
  | .act name .accept | .act name .reject => (f.desk name).Holding
  | .act name (.readjust _) => (f.desk name).Loaded
  | _ => True

/-- An orderly event: an ordinary one on what is one's own. -/
def Orderly (f : Floor) (e : Event) : Prop := f.Ordinary e ∧ f.Own e

/-- Amounts are positive, and where a service adds some up the sums are exact. -/
def Exact (f : Floor) : Event → Prop
  | .act _ (.call (.insertInvoice new)) => 0 < new.amount.units
  | .act name (.create q _ _) => Invoice.SumsExactly (q.select (f.prospect name))
  | .act name .accept => ∀ w held c, f.desk name = .workflow w held → w.data = some c →
      Invoice.SumsExactly ((Query.invoicesOf c.id true).select (f.prospect name))
  | _ => True

/-- Readjustments work on sets that are locked or current. -/
def Careful (f : Floor) : Event → Prop
  | .act name (.readjust _) => (f.desk name).Guarded
  | _ => True

end Floor

end TeamLedger
