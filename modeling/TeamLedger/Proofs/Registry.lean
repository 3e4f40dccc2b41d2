/-
What the workflows report, what is counted, and what the log says.

A registry is an office whose programs are workflows, together with what can be
observed of it from outside: the log entries that a session was told of, the
steps that its workflows report when they have ended, and the counts. Steps are
counted when the session that they were taken in is committed, and only if the
commit goes through.

Everything is kept by one invariant (`Registry.Kept`). It says that what is
committed is explained by its log, and of every session that its log is made of
the reports of the workflows that have ended, followed by the entries of the one
that is running. So a commit brings the entries into the tables that its reports
are counted by (`Registry.log_explains`).
-/
import Mathlib.Logic.Function.Iterate
import Mathlib.Logic.Relation
import TeamLedger.Proofs.AuditTrail
import TeamLedger.Proofs.Counting

set_option autoImplicit false

namespace TeamLedger

/-! ## Registries -/

/-- An office whose programs are workflows, and what is observed of it. -/
structure Registry where
  office : Office (Option Workflow)
  /-- The log entries that the program of a session was told of. -/
  wrote : String → List LogEntry := fun _ => []
  /-- The steps reported by the workflows of a session that ended before the last one. -/
  reported : String → List Submission.Status := fun _ => []
  /-- The steps counted at commits. -/
  counted : Metrics := .zero

namespace Registry

abbrev ledger (x : Registry) : Ledger := x.office.world.ledger

abbrev open? (x : Registry) (name : String) : Option Session := x.office.world.open? name

/-- The steps reported by the workflows of a session that have ended. -/
def reports (x : Registry) (name : String) : List Submission.Status :=
  match x.office.task name with
  | some (.done (some w)) => x.reported name ++ w.transitions
  | _ => x.reported name

/-- The answer to a request of a session, and what there is afterwards. -/
abbrev respond (x : Registry) (s : Session) (r : Request) :
    r.Answer × (Ledger × Session) × Surroundings :=
  Session.backend.respond (x.ledger, s) x.office.world.around r

/-- The log entry that the next answer to a session tells of. -/
def written? (x : Registry) (name : String) : Option LogEntry :=
  match x.office.task name, x.open? name with
  | some (.ask request _), some s => request.written? (x.respond s request).1
  | _, _ => none

/-- The registry with another office, in which a session is not the one that it was. -/
def reset (x : Registry) (name : String) (office : Office (Option Workflow)) : Registry :=
  { x with
    office
    wrote := Function.update x.wrote name []
    reported := Function.update x.reported name [] }

/-- The registry after an event of its office. -/
def happen (x : Registry) (e : Office.Event (Option Workflow)) : Registry :=
  let office := x.office.happen e
  match e with
  | .begin name | .rollback name => x.reset name office
  | .start name _ =>
    { x with
      office
      wrote := Function.update x.wrote name []
      reported := Function.update x.reported name (x.reports name) }
  | .step name =>
    { x with office, wrote := Function.update x.wrote name (x.wrote name ++ (x.written? name).toList) }
  | .commit name =>
    { x.reset name office with
      -- reported steps count once the commit has gone through
      counted := if (x.office.world.commit name).1.isOk then x.counted.bumpTransitions (x.reports name)
        else x.counted }
  | .addTeam .. | .wait _ => { x with office }

/-- No program of the session is under way. -/
def Idle (x : Registry) (name : String) : Prop :=
  match x.office.task name with
  | some (.ask ..) => False
  | _ => True

instance (x : Registry) (name : String) : Decidable (x.Idle name) := by
  unfold Idle
  split <;> infer_instance

/-- A session is not committed, and no other program begun in it, while one is under way. It may be
dropped at any time. -/
def Allows (x : Registry) : Office.Event (Option Workflow) → Prop
  | .start name p => x.Idle name ∧ p.Work
  | .commit name => x.Idle name
  | _ => True

/-- One registry comes after the other. -/
def Next (x y : Registry) : Prop := ∃ e, x.Allows e ∧ y = x.happen e

/-- The registry is reached from an empty ledger. -/
def Reached (around : Surroundings) (x : Registry) : Prop :=
  Relation.ReflTransGen Next { office := { world := { around } } } x

/-! ## The invariant -/

/-- What the books of a session are worth. -/
structure Tracks (x : Registry) (name : String) (s : Session) (g : Book) : Prop where
  trail : x.ledger.Trail s g.due
  unstarted : x.office.task name = none → g = {}
  keeps : ∀ p, x.office.task name = some p → p.Keeps bookkeeping Settled g
  logged : g.logged = (x.wrote name).map (·.status)
  wrote : ∀ e ∈ x.wrote name, e ∈ s.changes.logs.values
  logs : s.changes.logs.values.map (·.status) = x.reported name ++ g.logged

/-- What holds of every registry that is reached. -/
structure Kept (x : Registry) : Prop where
  sound : x.office.world.Sound
  audited : x.ledger.tables.Audited
  /-- Two sessions never write log entries under one id. -/
  apart : ∀ n m s t, n ≠ m → x.open? n = some s → x.open? m = some t → ∀ k,
    (s.changes.logs.get? k).isSome → t.changes.logs.get? k = none
  sessions : ∀ name s, x.open? name = some s → ∃ g, x.Tracks name s g
  closed : ∀ name, x.open? name = none → x.office.task name = none ∧ x.reported name = []
  ordered : x.counted.Ordered
  counts : ∀ status, x.counted.count .submissions (Named.name status) =
    x.ledger.tables.logs.values.countP (·.status = status)

namespace Tracks

variable {x y : Registry} {name : String} {s : Session} {g : Book}

/-- A session that is not touched. -/
theorem of_same (h : x.Tracks name s g) (htrail : y.ledger.Trail s g.due)
    (htask : y.office.task name = x.office.task name) (hwrote : y.wrote name = x.wrote name)
    (hreported : y.reported name = x.reported name) : y.Tracks name s g where
  trail := htrail
  unstarted := htask ▸ h.unstarted
  keeps := htask ▸ h.keeps
  logged := hwrote ▸ h.logged
  wrote := hwrote ▸ h.wrote
  logs := hreported ▸ h.logs

/-- New books: everything that the session has logged has been reported. -/
theorem fresh (htrail : x.ledger.Trail s none)
    (hkeeps : ∀ p, x.office.task name = some p → p.Keeps bookkeeping Settled {})
    (hwrote : x.wrote name = [])
    (hlogs : s.changes.logs.values.map (·.status) = x.reported name) : x.Tracks name s {} where
  trail := htrail
  unstarted _ := rfl
  keeps := hkeeps
  logged := by rw [hwrote]; rfl
  wrote := by rw [hwrote]; nofun
  logs := hlogs.trans (List.append_nil _).symm

/-- **Between programs** no entry is due, and the log is what has been reported. -/
theorem idle (h : x.Tracks name s g) (hidle : x.Idle name) :
    g.due = none ∧ s.changes.logs.values.map (·.status) = x.reports name := by
  rw [h.logs]
  unfold reports
  cases htask : x.office.task name with
  | none =>
    cases h.unstarted htask
    exact ⟨rfl, List.append_nil _⟩
  | some p =>
    have settled := h.keeps p htask
    cases p with
    | ask request next =>
      rw [Idle, htask] at hidle
      exact hidle.elim
    | done result =>
      cases result with
      | none =>
        cases (show g = {} from settled)
        exact ⟨rfl, List.append_nil _⟩
      | some w =>
        obtain ⟨hdue, htransitions⟩ := settled
        exact ⟨hdue, (congrArg (x.reported name ++ ·) htransitions).symm⟩

/-- **An answer to the session**, by which its books are carried on. -/
theorem respond (h : x.Tracks name s g) (audited : x.ledger.tables.Audited) (hosts : x.ledger.Hosts s)
    {request : Request} {next : request.Answer → Program (Option Workflow)}
    (htask : x.office.task name = some (.ask request next))
    (hledger : y.ledger = (x.respond s request).2.1.1)
    (htask' : y.office.task name = some (next (x.respond s request).1))
    (hwrote : y.wrote name = x.wrote name ++ (request.written? (x.respond s request).1).toList)
    (hreported : y.reported name = x.reported name) :
    y.Tracks name (x.respond s request).2.1.2 (g.enter request (x.respond s request).1) := by
  obtain ⟨hallows, hnext⟩ := h.keeps _ htask
  have log_values := hosts.log_values_respond x.office.world.around request
  have logged := g.logged_enter x.ledger s x.office.world.around request
  refine
    { trail := ?trail
      unstarted := fun hnone => nomatch htask'.symm.trans hnone
      keeps := fun p hp => ?keeps
      logged := ?logged
      wrote := fun e he => ?wrote
      logs := ?logs }
  case trail =>
    rw [hledger]
    exact h.trail.respond audited hosts _ hallows
  case keeps =>
    cases htask'.symm.trans hp
    exact hnext _ _ ⟨s.plausible_respond .., rfl⟩
  case logged => rw [logged, hwrote, List.map_append, h.logged]
  case wrote =>
    rw [hwrote] at he
    rw [log_values]
    rcases List.mem_append.1 he with he | he
    · exact List.mem_append_left _ (h.wrote e he)
    · exact List.mem_append_right _ he
  case logs => rw [log_values, logged, hreported, List.map_append, h.logs, List.append_assoc]

end Tracks

namespace Kept

variable {x y : Registry} {name : String} {s : Session}

theorem hosts (h : x.Kept) (hs : x.open? name = some s) : x.ledger.Hosts s :=
  ⟨h.sound.keyed, h.sound.within, h.sound.fits name s hs⟩

/-- A new ledger. -/
theorem empty (around : Surroundings) : Kept { office := { world := { around } } } where
  sound := World.Sound.start around
  audited := .empty
  apart _ _ _ _ _ hs := nomatch hs
  sessions _ _ hs := nomatch hs
  closed _ _ := ⟨rfl, rfl⟩
  ordered := .zero
  counts _ := rfl

/-! ## One event -/

/-- An event by which nothing is logged or counted, and no session begun or ended. -/
theorem of_quiet (h : x.Kept) (hsound : y.office.world.Sound)
    (hsubmissions : y.ledger.tables.submissions = x.ledger.tables.submissions)
    (hlogs : y.ledger.tables.logs = x.ledger.tables.logs)
    (hopen : ∀ k, y.open? k = x.open? k) (hcounted : y.counted = x.counted)
    (hsessions : ∀ k s g, x.open? k = some s → x.Tracks k s g → ∃ g, y.Tracks k s g)
    (hclosed : ∀ k, x.open? k = none → y.office.task k = none ∧ y.reported k = []) : y.Kept where
  sound := hsound
  audited := h.audited.of_same hsubmissions hlogs
  apart n m s t hne hs ht := by
    rw [hopen] at hs ht
    exact h.apart n m s t hne hs ht
  sessions k s hs := by
    rw [hopen] at hs
    obtain ⟨g, hg⟩ := h.sessions k s hs
    exact hsessions k s g hs hg
  closed k hk := by
    rw [hopen] at hk
    exact hclosed k hk
  ordered := hcounted ▸ h.ordered
  counts := by
    rw [hcounted, hlogs]
    exact h.counts

/-- A session ends, and one that has written nothing may begin under its name. -/
theorem of_reset (h : x.Kept) {office : Office (Option Workflow)} (hsound : office.world.Sound)
    (htask : office.task = Function.update x.office.task name none)
    (hsubmissions : office.world.ledger.tables.submissions = x.ledger.tables.submissions)
    (hlogs : office.world.ledger.tables.logs = x.ledger.tables.logs)
    (hversions : office.world.ledger.versions = x.ledger.versions)
    (hopen : ∀ k, k ≠ name → office.world.open? k = x.open? k)
    (hnew : ∀ s, office.world.open? name = some s → s.changes = {}) :
    (x.reset name office).Kept where
  sound := hsound
  audited := h.audited.of_same hsubmissions hlogs
  apart n m s t hne hs ht k hk := by
    by_cases hn : n = name
    · rw [hnew s (hn ▸ hs)] at hk
      cases hk
    by_cases hm : m = name
    · rw [hnew t (hm ▸ ht)]
      rfl
    · exact h.apart n m s t hne ((hopen n hn).symm.trans hs) ((hopen m hm).symm.trans ht) k hk
  sessions k s hs := by
    by_cases hk : k = name
    · subst hk
      have task_none : office.task k = none := by rw [htask, Function.update_self]
      refine ⟨{}, .fresh (.of_empty (hnew s hs)) (fun p hp => ?_) ?_ ?_⟩
      · exact absurd (task_none.symm.trans hp) nofun
      · exact Function.update_self ..
      · rw [hnew s hs]
        exact (Function.update_self k [] x.reported).symm
    · obtain ⟨g, hg⟩ := h.sessions k s ((hopen k hk).symm.trans hs)
      refine ⟨g, hg.of_same (hg.trail.of_same hlogs rfl rfl fun hadmits i hi => ?_) ?_ ?_ ?_⟩
      · exact hversions ▸ hadmits i hi
      · show office.task k = _
        rw [htask, Function.update_of_ne hk]
      · exact Function.update_of_ne hk ..
      · exact Function.update_of_ne hk ..
  closed k hk := by
    show office.task k = none ∧ Function.update x.reported name [] k = []
    rw [htask]
    by_cases hkn : k = name
    · rw [hkn, Function.update_self, Function.update_self]
      exact ⟨rfl, rfl⟩
    · rw [Function.update_of_ne hkn, Function.update_of_ne hkn]
      exact h.closed k ((hopen k hkn).symm.trans hk)
  ordered := h.ordered
  counts := by
    show ∀ status, x.counted.count _ _ = office.world.ledger.tables.logs.values.countP _
    rw [hlogs]
    exact h.counts

theorem begin (h : x.Kept) (name : String) : (x.happen (.begin name)).Kept := by
  refine h.of_reset (h.sound.begin name) rfl ?_ ?_ ?_ (fun k hk => ?_) fun s hs => ?_
  · exact congrArg Tables.submissions (x.office.world.tables_begin name)
  · exact congrArg Tables.logs (x.office.world.tables_begin name)
  · show (x.office.world.rollback name).ledger.versions = _
    rw [World.ledger_rollback_eq]
  · exact (x.office.world.open?_begin name k).trans (if_neg hk)
  · replace hs : (x.office.world.begin name).open? name = some s := hs
    rw [World.open?_begin, if_pos rfl] at hs
    cases hs
    rfl

theorem rollback (h : x.Kept) (name : String) : (x.happen (.rollback name)).Kept := by
  refine h.of_reset (h.sound.rollback name) rfl ?_ ?_ ?_ (fun k hk => ?_) fun s hs => ?_
  · exact congrArg Tables.submissions (x.office.world.tables_rollback name)
  · exact congrArg Tables.logs (x.office.world.tables_rollback name)
  · show (x.office.world.rollback name).ledger.versions = _
    rw [World.ledger_rollback_eq]
  · exact (x.office.world.open?_rollback name k).trans (if_neg hk)
  · replace hs : (x.office.world.rollback name).open? name = some s := hs
    rw [World.open?_rollback, if_pos rfl] at hs
    cases hs

/-- **A program begins** when the one before has ended, whose report is kept. -/
theorem start (h : x.Kept) (hidle : x.Idle name) {p : Program (Option Workflow)} (hp : p.Work) :
    (x.happen (.start name p)).Kept := by
  have world_eq : (x.office.happen (.start name p)).world = x.office.world := by
    simp only [Office.happen]
    split <;> rfl
  have task_eq (k : String) : (x.office.happen (.start name p)).task k =
      if k = name ∧ (x.open? name).isSome then some p else x.office.task k := by
    simp only [Office.happen]
    by_cases hopen : (x.open? name).isSome
    · rw [if_pos hopen, Office.task_assign]
      simp only [hopen, and_true]
    · rw [if_neg hopen, if_neg fun hk => hopen hk.2]
  refine h.of_quiet ?_ ?_ ?_ (fun k => ?_) rfl (fun k s g hs hg => ?_) fun k hk => ?_
  · exact Office.sound_happen h.sound _
  · exact congrArg (·.ledger.tables.submissions) world_eq
  · exact congrArg (·.ledger.tables.logs) world_eq
  · exact congrArg (·.open? k) world_eq
  · have trail_of {g : Book} (htrail : x.ledger.Trail s g.due) :
        (x.happen (.start name p)).ledger.Trail s g.due :=
      (congrArg (·.ledger.Trail s g.due) world_eq).mpr htrail
    by_cases hkn : k = name
    · subst hkn
      obtain ⟨hdue, hlogs⟩ := hg.idle hidle
      have task_some : (x.office.happen (.start k p)).task k = some p := by
        rw [task_eq, if_pos ⟨rfl, by rw [hs]; rfl⟩]
      refine ⟨{}, .fresh (trail_of (g := {}) (hdue ▸ hg.trail)) (fun q hq => ?_) ?_ ?_⟩
      · cases task_some.symm.trans hq
        exact hp.keeps
      · exact Function.update_self ..
      · exact hlogs.trans (Function.update_self k (x.reports k) x.reported).symm
    · refine ⟨g, hg.of_same (trail_of hg.trail) ?_ ?_ ?_⟩
      · exact (task_eq k).trans (if_neg fun hk => hkn hk.1)
      · exact Function.update_of_ne hkn ..
      · exact Function.update_of_ne hkn ..
  · obtain ⟨htask, hreported⟩ := h.closed k hk
    refine ⟨?_, ?_⟩
    · show (x.office.happen (.start name p)).task k = none
      rw [task_eq, if_neg, htask]
      rintro ⟨rfl, hopen⟩
      rw [hk] at hopen
      cases hopen
    · show Function.update x.reported name (x.reports name) k = []
      by_cases hkn : k = name
      · subst hkn
        rw [Function.update_self, reports, htask]
        exact hreported
      · rw [Function.update_of_ne hkn]
        exact hreported

/-- A session that has been answered still writes no entry under the id of another session's: only
under the next id can there be a new one. -/
theorem apart_respond (h : x.Kept) (hs : x.open? name = some s) (request : Request) {k : String}
    {t : Session} (hk : k ≠ name) (ht : x.open? k = some t) (id : Ident)
    (hid : ((x.respond s request).2.1.2.changes.logs.get? id).isSome) :
    t.changes.logs.get? id = none := by
  rcases (h.hosts hs).isSome_logs_respond _ request hid with rfl | hid
  · refine Option.not_isSome_iff_eq_none.1 fun hused => ?_
    exact x.ledger.not_newId_le ((h.hosts ht).fits.changes_within _ (.inr (.inr (.inl hused))))
  · exact h.apart name k s t hk.symm hs ht id hid

/-- A session that has nothing to ask is told of nothing. -/
theorem happen_step_of_idle
    (idle : ∀ s request next, x.open? name = some s → x.office.task name ≠ some (.ask request next))
    (happen_eq : x.office.happen (.step name) = x.office) : x.happen (.step name) = x := by
  have nothing : x.written? name = none := by
    unfold written?
    split
    next request next s htask hs => exact absurd htask (idle s request next hs)
    next => rfl
  show { x with
    office := x.office.happen (.step name)
    wrote := Function.update x.wrote name (x.wrote name ++ (x.written? name).toList) } = x
  rw [happen_eq, nothing, Option.toList_none, List.append_nil, Function.update_eq_self]

/-- **One request is answered.** -/
theorem step (h : x.Kept) (name : String) : (x.happen (.step name)).Kept := by
  rcases x.office.step_cases name with ⟨idle, happen_eq⟩ |
    ⟨s, request, next, w, hs, htask, hledger, -, hopen, happen_eq⟩
  · rw [happen_step_of_idle idle happen_eq]
    exact h
  have grants := s.grants_respond x.ledger x.office.world.around request
  have ledger_eq : (x.happen (.step name)).ledger = (x.respond s request).2.1.1 :=
    (congrArg (·.world.ledger) happen_eq).trans hledger
  have open?_eq (k : String) : (x.happen (.step name)).open? k =
      if k = name then some (x.respond s request).2.1.2 else x.open? k :=
    (congrArg (·.world.open? k) happen_eq).trans (hopen k)
  have task_eq (k : String) : (x.happen (.step name)).office.task k =
      if k = name then some (next (x.respond s request).1) else x.office.task k :=
    (congrArg (·.task k) happen_eq).trans (Office.task_assign ..)
  have wrote_eq : (x.happen (.step name)).wrote = Function.update x.wrote name
      (x.wrote name ++ (request.written? (x.respond s request).1).toList) := by
    have written?_eq : x.written? name = request.written? (x.respond s request).1 := by
      unfold written?
      rw [htask, show x.open? name = some s from hs]
    rw [← written?_eq]
    rfl
  refine
    { sound := Office.sound_happen h.sound _
      audited := ?audited
      apart := ?apart
      sessions := fun k t ht => ?sessions
      closed := fun k hk => ?closed
      ordered := h.ordered
      counts := ?counts }
  case audited =>
    rw [ledger_eq, grants.tables]
    exact h.audited
  case apart =>
    have opened : (x.happen (.step name)).open? =
        Function.update x.open? name (some (x.respond s request).2.1.2) :=
      World.open?_eq_update open?_eq
    rw [opened]
    exact between_update (fun _ _ => Rows.apart_symm) h.apart fun k t hk ht =>
      h.apart_respond hs request hk ht
  case sessions =>
    rw [open?_eq] at ht
    by_cases hk : k = name
    · subst hk
      rw [if_pos rfl] at ht
      cases ht
      obtain ⟨g, hg⟩ := h.sessions k s hs
      refine ⟨_, hg.respond h.audited (h.hosts hs) htask ledger_eq ?_ ?_ rfl⟩
      · rw [task_eq, if_pos rfl]
      · rw [wrote_eq, Function.update_self]
    · rw [if_neg hk] at ht
      obtain ⟨g, hg⟩ := h.sessions k t ht
      refine ⟨g, hg.of_same ?_ ?_ ?_ rfl⟩
      · rw [ledger_eq]
        refine hg.trail.of_same (by rw [grants.tables]) rfl rfl fun hadmits i hi => ?_
        exact grants.versions ▸ hadmits i hi
      · rw [task_eq, if_neg hk]
      · rw [wrote_eq, Function.update_of_ne hk]
  case closed =>
    rw [open?_eq] at hk
    split at hk
    · cases hk
    next hkn =>
      rw [task_eq, if_neg hkn]
      exact h.closed k hk
  case counts =>
    rw [ledger_eq, grants.tables]
    exact h.counts

/-- A commit that changes nothing is a session that ends. -/
theorem of_uncommitted (h : x.Kept)
    (htables : (x.office.world.commit name).2.ledger.tables = x.ledger.tables)
    (hversions : (x.office.world.commit name).2.ledger.versions = x.ledger.versions)
    (hcounted : (x.happen (.commit name)).counted = x.counted) :
    (x.happen (.commit name)).Kept := by
  have registry_eq : x.happen (.commit name) = x.reset name (x.office.happen (.commit name)) := by
    show { x.reset name (x.office.happen (.commit name)) with
      counted := (x.happen (.commit name)).counted } = _
    rw [hcounted]
    rfl
  have open?_eq (k : String) := x.office.world.open?_commit name k
  rw [registry_eq]
  refine h.of_reset (h.sound.commit name) rfl (congrArg Tables.submissions htables)
    (congrArg Tables.logs htables) hversions (fun k hk => (open?_eq k).trans (if_neg hk)) fun s hs => ?_
  cases ((open?_eq name).trans (if_pos rfl)).symm.trans hs

/-- **A commit that goes through** brings the entries of the session into the log, and its reports
into the counts. -/
theorem of_committed (h : x.Kept) (hidle : x.Idle name) (hs : x.open? name = some s)
    (hadmits : x.ledger.Admits s) : (x.happen (.commit name)).Kept := by
  obtain ⟨g, hg⟩ := h.sessions name s hs
  obtain ⟨hdue, hlogs⟩ := hg.idle hidle
  have trail : x.ledger.Trail s none := hdue ▸ hg.trail
  obtain ⟨result_eq, ledger_eq⟩ := World.commit_of_open? hs
  replace ledger_eq : (x.happen (.commit name)).ledger = (x.ledger.commit s).2 := ledger_eq
  have tables_eq : (x.happen (.commit name)).ledger.tables = x.ledger.tables.apply s.changes := by
    rw [ledger_eq, Ledger.commit_of_admits hadmits]
  have counted_eq : (x.happen (.commit name)).counted =
      x.counted.bumpTransitions (x.reports name) := by
    refine if_pos ?_
    rw [result_eq, show x.office.world.ledger.commit s = _ from Ledger.commit_of_admits hadmits]
    rfl
  -- no session but this one is gone
  have others {k : String} {t : Session} (ht : (x.happen (.commit name)).open? k = some t) :
      k ≠ name ∧ x.open? k = some t := by
    replace ht := (x.office.world.open?_commit name k).symm.trans ht
    by_cases hk : k = name
    · rw [if_pos hk] at ht
      cases ht
    · exact ⟨hk, by rwa [if_neg hk] at ht⟩
  refine
    { sound := h.sound.commit name
      audited := ?audited
      apart := fun n m s t hne hs ht => h.apart n m s t hne (others hs).2 (others ht).2
      sessions := fun k t ht => ?sessions
      closed := fun k hk => ?closed
      ordered := ?ordered
      counts := fun status => ?counts }
  case audited =>
    rw [tables_eq]
    exact trail.audited h.audited hadmits
  case sessions =>
    obtain ⟨hk, ht⟩ := others ht
    obtain ⟨g', hg'⟩ := h.sessions k t ht
    refine ⟨g', hg'.of_same ?_ ?_ ?_ ?_⟩
    · rw [ledger_eq]
      exact hg'.trail.after_commit trail h.sound ht (h.apart k name t s hk ht hs)
    · exact Function.update_of_ne hk ..
    · exact Function.update_of_ne hk ..
    · exact Function.update_of_ne hk ..
  case closed =>
    show Function.update x.office.task name none k = none ∧ Function.update x.reported name [] k = []
    by_cases hkn : k = name
    · rw [hkn, Function.update_self, Function.update_self]
      exact ⟨rfl, rfl⟩
    · rw [Function.update_of_ne hkn, Function.update_of_ne hkn]
      exact h.closed k (((x.office.world.open?_commit name k).trans (if_neg hkn)).symm.trans hk)
  case ordered =>
    rw [counted_eq]
    exact h.ordered.bumpTransitions _
  case counts =>
    have log_perm : (x.happen (.commit name)).ledger.tables.logs.values.Perm
        (x.ledger.tables.logs.values ++ s.changes.logs.values) := by
      rw [tables_eq]
      exact Rows.values_overlay_perm trail.new_logs
    rw [counted_eq, Metrics.count_bumpTransitions h.ordered, h.counts, ← hlogs,
      log_perm.countP_eq, List.countP_append, List.count_eq_countP, List.countP_map]
    rfl

theorem commit (h : x.Kept) (hidle : x.Idle name) : (x.happen (.commit name)).Kept := by
  cases hs : x.open? name with
  | none =>
    have ledger_eq := World.ledger_commit_of_none hs
    refine h.of_uncommitted (congrArg Ledger.tables ledger_eq) (congrArg Ledger.versions ledger_eq) ?_
    -- there is nothing to report
    obtain ⟨htask, hreported⟩ := h.closed name hs
    have nothing : x.reports name = [] := by
      unfold reports
      rw [htask]
      exact hreported
    show (if _ then x.counted.bumpTransitions (x.reports name) else x.counted) = x.counted
    rw [nothing]
    exact ite_self _
  | some s =>
    by_cases hadmits : x.ledger.Admits s
    · exact h.of_committed hidle hs hadmits
    · obtain ⟨result_eq, ledger_eq⟩ := World.commit_of_open? hs
      obtain ⟨e, commit_eq⟩ := Ledger.commit_of_not_admits hadmits
      rw [commit_eq] at result_eq ledger_eq
      refine h.of_uncommitted ?_ ?_ (if_neg ?_)
      · rw [ledger_eq]
        rfl
      · rw [ledger_eq]
        rfl
      · rw [result_eq]
        exact Bool.false_ne_true

/-- **Every event** keeps what holds. -/
theorem happen (h : x.Kept) {e : Office.Event (Option Workflow)} (he : x.Allows e) :
    (x.happen e).Kept := by
  cases e with
  | begin name => exact h.begin name
  | start name p => exact h.start he.1 he.2
  | step name => exact h.step name
  | commit name => exact h.commit he
  | rollback name => exact h.rollback name
  | addTeam name kind =>
    refine h.of_quiet (h.sound.addTeam name kind) rfl rfl (fun _ => rfl) rfl (fun k s g _ hg => ?_)
      h.closed
    exact ⟨g, hg.of_same (hg.trail.of_same rfl rfl rfl fun hadmits => hadmits) rfl rfl rfl⟩
  | wait time =>
    refine h.of_quiet h.sound rfl rfl (fun _ => rfl) rfl (fun k s g _ hg => ?_) h.closed
    exact ⟨g, hg.of_same hg.trail rfl rfl rfl⟩

end Kept

section

variable {around : Surroundings} {x : Registry}

theorem Reached.start (around : Surroundings) : Reached around { office := { world := { around } } } :=
  .refl

theorem Reached.happen (h : Reached around x) (e : Office.Event (Option Workflow))
    (he : x.Allows e) : Reached around (x.happen e) :=
  .tail h ⟨e, he, rfl⟩

/-- A session begins a program, and some of its requests are answered. -/
theorem Reached.runs (h : Reached around x) (name : String) {p : Program (Option Workflow)}
    (hp : p.Work) (n : Nat) (hidle : x.Idle name) :
    Reached around ((Registry.happen · (.step name))^[n] (x.happen (.start name p))) := by
  have begun := h.happen (.start name p) ⟨hidle, hp⟩
  generalize x.happen (.start name p) = y at begun
  induction n generalizing y with
  | zero => exact begun
  | succ n ih => exact ih _ (begun.happen (.step name) trivial)

theorem Reached.commit (h : Reached around x) (name : String) (hidle : x.Idle name) :
    Reached around (x.happen (.commit name)) :=
  h.happen (.commit name) hidle

end

/-- **Every run.** -/
theorem Reached.kept {around : Surroundings} {x : Registry} (h : Reached around x) : x.Kept := by
  induction h with
  | refl => exact .empty around
  | tail _ hnext ih =>
    obtain ⟨e, he, rfl⟩ := hnext
    exact ih.happen he

/-- Only a commit changes the log, and then by what its session has written. -/
theorem logs_happen (x : Registry) (e : Office.Event (Option Workflow)) :
    (x.happen e).ledger.tables.logs = x.ledger.tables.logs ∨ ∃ name s, x.open? name = some s ∧
      (x.happen e).ledger.tables.logs = x.ledger.tables.logs.overlay s.changes.logs := by
  cases e with
  | begin name => exact .inl (congrArg Tables.logs (x.office.world.tables_begin name))
  | rollback name => exact .inl (congrArg Tables.logs (x.office.world.tables_rollback name))
  | addTeam name kind => exact .inl rfl
  | wait time => exact .inl rfl
  | start name p =>
    refine .inl ?_
    show (x.office.happen (.start name p)).world.ledger.tables.logs = _
    simp only [Office.happen]
    split <;> rfl
  | step name =>
    refine .inl ?_
    show (x.office.happen (.step name)).world.ledger.tables.logs = _
    rcases x.office.step_cases name with ⟨-, happen_eq⟩ |
      ⟨s, request, _, w, _, _, hledger, -, -, happen_eq⟩
    · rw [happen_eq]
    · rw [happen_eq]
      show w.ledger.tables.logs = _
      rw [hledger, (s.grants_respond ..).tables]
  | commit name =>
    show (x.office.world.commit name).2.ledger.tables.logs = _ ∨ ∃ n s, _ ∧
      (x.office.world.commit name).2.ledger.tables.logs = _
    cases hs : x.open? name with
    | none =>
      rw [World.ledger_commit_of_none hs]
      exact .inl rfl
    | some s =>
      rw [(World.commit_of_open? hs).2]
      by_cases hadmits : x.ledger.Admits s
      · refine .inr ⟨name, s, hs, ?_⟩
        rw [Ledger.commit_of_admits hadmits]
        rfl
      · obtain ⟨e, commit_eq⟩ := Ledger.commit_of_not_admits hadmits
        rw [commit_eq]
        exact .inl rfl

/-- **The log only grows.** An entry that is in it stays there as it is. -/
theorem Kept.log_happen {x : Registry} (h : x.Kept) (e : Office.Event (Option Workflow)) {id : Ident}
    {entry : LogEntry} (hentry : x.ledger.tables.logs.get? id = some entry) :
    (x.happen e).ledger.tables.logs.get? id = some entry := by
  rcases x.logs_happen e with hlogs | ⟨name, s, hs, hlogs⟩
  · rw [hlogs]
    exact hentry
  · obtain ⟨g, hg⟩ := h.sessions name s hs
    rw [hlogs, Rows.get?_overlay]
    cases hown : s.changes.logs.get? id with
    | none => exact hentry
    | some other =>
      have new := hg.trail.new_logs id (by rw [hown]; rfl)
      cases new.symm.trans hentry

/-- What comes later has the entries that there are now. -/
theorem Kept.log_later {x y : Registry} (h : x.Kept) (hxy : Relation.ReflTransGen Next x y)
    {id : Ident} {entry : LogEntry} (hentry : x.ledger.tables.logs.get? id = some entry) :
    y.ledger.tables.logs.get? id = some entry := by
  have later : y.Kept ∧ y.ledger.tables.logs.get? id = some entry := by
    induction hxy with
    | refl => exact ⟨h, hentry⟩
    | tail _ hnext ih =>
      obtain ⟨e, he, rfl⟩ := hnext
      exact ⟨ih.1.happen he, ih.1.log_happen e ih.2⟩
  exact later.2

/-- **The log explains every status.** In every registry that is reached, by any sessions whose
submissions are written by workflows, each of which creates, loads or is given submissions and
accepts, rejects or updates them in any order:

* the log entries about a submission, in the order of their ids, begin with that of its creation,
  written by its creator, and the last one says its present status and, if it has been completed, by
  whom;
* entries are never changed or taken away by whatever comes later;
* when a workflow has ended, its steps are the statuses of the entries that it has written;
* the steps counted at commits are the entries of the log, by their statuses. -/
theorem log_explains {around : Surroundings} {x : Registry} (h : Reached around x) :
    (∀ id s, x.ledger.tables.submissions.get? id = some s →
      (x.ledger.tables.logOf id).Pairwise (·.id < ·.id) ∧
      ∃ first last, (x.ledger.tables.logOf id).head? = some first ∧
        (x.ledger.tables.logOf id).getLast? = some last ∧
        first.status = .submitted ∧ first.byUser = s.createdBy ∧
        last.status = s.status ∧ ∀ user, s.completedBy = some user → last.byUser = user) ∧
    (∀ y, Relation.ReflTransGen Next x y → ∀ id entry,
      x.ledger.tables.logs.get? id = some entry → y.ledger.tables.logs.get? id = some entry) ∧
    (∀ name w, x.office.task name = some (.done (some w)) →
      w.transitions = (x.wrote name).map (·.status) ∧
      ∃ s, x.open? name = some s ∧ ∀ entry ∈ x.wrote name, s.changes.logs.get? entry.id = some entry) ∧
    ∀ status, x.counted.count .submissions (Named.name status) =
      x.ledger.tables.logs.values.countP (·.status = status) := by
  have kept := h.kept
  refine ⟨fun id s hs => ⟨?_, ?_⟩, fun y hy id entry => kept.log_later hy, fun name w hw => ?_,
    kept.counts⟩
  · exact Tables.sorted_logOf kept.sound.keyed.logs id
  · obtain ⟨hfirst, user, hlast, huser⟩ := kept.audited.explained id s hs
    rw [Tables.steps, List.head?_map] at hfirst
    rw [Tables.steps, List.getLast?_map] at hlast
    obtain ⟨first, first_eq, hfirst⟩ := Option.map_eq_some_iff.1 hfirst
    obtain ⟨last, last_eq, hlast⟩ := Option.map_eq_some_iff.1 hlast
    obtain ⟨first_status, first_user⟩ := Prod.mk.inj hfirst
    obtain ⟨last_status, rfl⟩ := Prod.mk.inj hlast
    exact ⟨first, last, first_eq, last_eq, first_status, first_user, last_status, huser⟩
  · cases hs : x.open? name with
    | none => cases (kept.closed name hs).1.symm.trans hw
    | some s =>
      obtain ⟨g, hg⟩ := kept.sessions name s hs
      obtain ⟨-, htransitions⟩ : w.Balanced g := hg.keeps _ hw
      refine ⟨htransitions.trans hg.logged, s, rfl, fun entry hentry => ?_⟩
      exact (kept.hosts hs).fits.changes_keyed.logs.mem_values_iff.1 (hg.wrote entry hentry)

/-- The caller loads a submission, makes one call, and ends. -/
def onLoaded (a : Workflow.Act) : Errand :=
  .act (.load (.start .submission false)) fun _ _ => .act a fun _ _ => .stop

/-- A submission is created. Then one session writes that it is accepted, and another one that it is
rejected. The second one commits first, and the log tells of the rejection only. -/
theorem log_explains_rivals : ∃ x, Reached { clock := ⟨⟨0, 0, by decide⟩⟩ } x ∧
    (x.ledger.tables.logs.values.map fun e => (e.id, e.status)) = [(3, .submitted), (5, .rejected)] ∧
    x.counted.count .submissions "rejected" = 1 ∧ x.counted.count .submissions "accepted" = 0 ∧
    ∃ last, (x.ledger.tables.logOf 2).getLast? = some last ∧ last.status = .rejected := by
  have last_of (x) (h : Reached { clock := ⟨⟨0, 0, by decide⟩⟩ } x)
      (hs : (x.ledger.tables.submissions.get? 2).map (·.status) = some .rejected) :
      ∃ last, (x.ledger.tables.logOf 2).getLast? = some last ∧ last.status = .rejected := by
    obtain ⟨s, hs, hstatus⟩ := Option.map_eq_some_iff.1 hs
    obtain ⟨-, -, last, -, hlast, -, -, last_status, -⟩ := (log_explains h).1 2 s hs
    exact ⟨last, hlast, last_status.trans hstatus⟩
  have seed : ((Program.request (.store (.insertInvoice { (default : NewInvoice) with
      status := .notPaid }))).bind fun _ => .done none).Work := .other ⟨rfl, fun _ => trivial⟩
  have clerk := Program.Work.workflow (.ofUser 7) none
    (.act (.create (.start .invoice false) "" .zero) fun _ _ => .stop)
  have reject := Program.Work.workflow (.ofUser 8) none (onLoaded .reject)
  have accept := Program.Work.workflow (.ofUser 9) none (onLoaded (.updateStatus .accepted))
  have empty := Reached.start { clock := ⟨⟨0, 0, by decide⟩⟩ }
  have seeded := ((empty.happen (.begin "seed") trivial).runs "seed" seed 1 (by decide +kernel)).commit
    "seed" (by decide +kernel)
  have created := ((seeded.happen (.begin "clerk") trivial).runs "clerk" clerk 8
    (by decide +kernel)).commit "clerk" (by decide +kernel)
  have both := (created.happen (.begin "first") trivial).happen (.begin "second") trivial
  have written := (both.runs "first" accept 4 (by decide +kernel)).runs "second" reject 6
    (by decide +kernel)
  have h := (written.commit "second" (by decide +kernel)).commit "first" (by decide +kernel)
  exact ⟨_, h, by decide +kernel, by decide +kernel, by decide +kernel,
    last_of _ h (by decide +kernel)⟩

end Registry

end TeamLedger
