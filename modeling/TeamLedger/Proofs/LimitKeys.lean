/-
What setting limits in several sessions at once can lead to.

A limit is set in two requests: the service looks for one with the key, and then
it changes the one that it has found, or adds one. So it never adds a limit but
right after it has looked for one in vain, which is a discipline
(`lookingFirst`), and the services that set and delete limits keep to it. In an
office any number of sessions run such services, and the notes about limits
follow from event to event.

Nothing looks whether there is a limit with the key when a session commits. Two
sessions that have both looked before either has committed both add a limit, and
both commits go through: then there are two with one key. What remains true is
that this is the only way for it to come about.
-/
import TeamLedger.CreditLimit
import TeamLedger.Proofs.Crossings
import TeamLedger.Proofs.Floor
import TeamLedger.Proofs.Offices

set_option autoImplicit false

namespace TeamLedger

variable {α σ : Type}

/-! ## Services that look first -/

/-- A limit is added only by who has just looked for one in vain. -/
def lookingFirst : Discipline (Option LimitKey) where
  allows known
    | .store (.saveLimit limit) => limit.id = 0 → known = some limit.key ∧ limit.key.Fits
    | _ => True
  learns _
    | .store (.findLimit teamId scope forTeam), .ok none, known =>
      known = some ⟨teamId, scope, forTeam⟩
    | .store (.findLimit ..), .ok (some limit), known => known = none ∧ limit.id ≠ 0
    | _, _, known => known = none

namespace CreditLimit

theorem requireTeam_keeps {known : Option LimitKey} {teamId : Ident}
    {Q : Except Failure Unit → Option LimitKey → Prop} (hok : Q (.ok ()) known)
    (herror : ∀ e, Q (.error e) known) :
    (requireTeam teamId : Service σ Unit).Keeps lookingFirst Q known := by
  unfold requireTeam
  split
  · exact .refuse (herror _)
  · exact .pure hok

theorem requireStored_keeps {known : Option LimitKey} {teamId : Ident}
    {Q : Except Failure Unit → Option LimitKey → Prop} (hok : Q (.ok ()) none)
    (herror : ∀ e, Q (.error e) none) :
    (requireStored teamId : Service σ Unit).Keeps lookingFirst Q known := by
  refine .call_bind trivial (fun team known' hknown => ?_) (fun e known' hknown => ?_)
  · cases hknown
    split
    · exact .refuse (herror _)
    · exact .pure hok
  · cases hknown
    exact herror e

/-- **Setting a limit.** The service adds one only if it has just found none. -/
theorem set_keeps (wish : SetLimit) (known : Option LimitKey) :
    (CreditLimit.set wish : Service σ Limit).Keeps lookingFirst (fun _ _ => True) known := by
  -- the last two requests
  have look_and_save (forTeam : Option Ident) (known : Option LimitKey) :
      (do
        let scope : Limit.Scope := if forTeam.isSome then .team else .default
        let found ← Service.call (.findLimit wish.teamId scope forTeam)
        let limit : Limit :=
          found.getD { id := 0, teamId := wish.teamId, scope, forTeam, threshold := .zero }
        Service.call (.saveLimit { limit with threshold := wish.threshold }) :
          Service σ Limit).Keeps lookingFirst (fun _ _ => True) known := by
    refine .call_bind trivial (fun found known' hknown => ?_) fun _ _ _ => trivial
    refine .call (fun h0 => ?_) fun _ _ _ => trivial
    cases found with
    | none =>
      refine ⟨hknown, ?_⟩
      unfold LimitKey.Fits Limit.key
      cases forTeam <;> simp
    | some limit => exact absurd h0 hknown.2
  refine .bind (requireTeam_keeps ?_ fun _ => trivial)
  dsimp only
  split
  · exact .bind (.refuse trivial)
  · refine .bind (requireStored_keeps ?_ fun _ => trivial)
    dsimp only
    split
    · exact .bind (requireStored_keeps (look_and_save _ none) fun _ => trivial)
    · exact look_and_save _ none

theorem delete_keeps (teamId : Ident) (forTeam : Option Ident) (known : Option LimitKey) :
    (CreditLimit.delete teamId forTeam : Service σ Nat).Keeps lookingFirst (fun _ _ => True) known :=
  .bind (requireTeam_keeps (.call trivial fun _ _ _ => trivial) fun _ => trivial)

end CreditLimit

/-! ## Offices in which limits are set -/

/-- The request changes no limits. -/
def Request.LeavesLimits : Request → Prop
  | .store (.saveLimit _) | .store (.deleteLimits ..) => False
  | _ => True

/-- If the program changes limits, then by setting or deleting them as the service does. -/
inductive Program.LimitWork : Program α → Prop
  | set (wish : SetLimit) (f : Except Failure Limit → Unit → α) :
    LimitWork ((CreditLimit.set wish).conclude () f)
  | delete (teamId : Ident) (forTeam : Option Ident) (f : Except Failure Nat → Unit → α) :
    LimitWork ((CreditLimit.delete teamId forTeam).conclude () f)
  | other {p : Program α} (h : p.Asks Request.LeavesLimits) : LimitWork p

theorem Program.LimitWork.keeps {p : Program α} (h : p.LimitWork) :
    p.Keeps lookingFirst (fun _ _ => True) none := by
  cases h with
  | set wish f => exact .bind (.mono (fun _ _ _ => trivial) (CreditLimit.set_keeps wish none ()))
  | delete teamId forTeam f =>
    exact .bind (.mono (fun _ _ _ => trivial) (CreditLimit.delete_keeps teamId forTeam none ()))
  | other h =>
    refine h.keeps (fun known r hr => ?_) none
    cases r with
    | store c =>
      cases c with
      | saveLimit limit => exact hr.elim
      | _ => trivial
    | _ => trivial

namespace Office

/-- Limits are set and deleted by services only. -/
def Event.LimitWork : Event α → Prop
  | .start _ p => p.LimitWork
  | _ => True

/-- The notes about an event. -/
def limitNotes (o : Office α) : Event α → List LimitNote
  | .step name =>
    match o.world.open? name, o.task name with
    | some s, some (.ask (.store c) _) => s.limitNotes o.world.ledger c
    | _, _ => []
  | .commit name => (o.world.open? name).elim [] fun s =>
      match (o.world.commit name).1 with
      | .ok _ => [.committed s.id]
      | .error _ => []
  | _ => []

/-- The office can be reached by events in which services set limits, and the log holds the notes. -/
inductive LimitRun : Office α → List LimitNote → Prop
  | start (around : Surroundings) : LimitRun { world := { around } } []
  | step {o : Office α} {log : List LimitNote} (h : LimitRun o log) (e : Event α)
      (he : e.LimitWork) : LimitRun (o.happen e) (log ++ o.limitNotes e)

/-- The limits that are committed. -/
def limits (o : Office α) : Rows Limit := o.world.ledger.tables.limits

/-- Every session goes on as the discipline wants it, given what is known in it. -/
def TasksKeep (o : Office α) (known : String → Option LimitKey) : Prop :=
  ∀ name p, o.task name = some p → p.Keeps lookingFirst (fun _ _ => True) (known name)

/-- The notes are true, and every session goes on as the discipline wants it. -/
def LimitsNoted (o : Office α) (log : List LimitNote) : Prop :=
  ∃ known, o.world.ledger.Noted o.world.open? log known ∧ o.TasksKeep known

end Office

/-- What a session has found out is forgotten. -/
theorem Ledger.Noted.forget {l : Ledger} {ses : String → Option Session} {log : List LimitNote}
    {known : String → Option LimitKey} (h : l.Noted ses log known) (name : String) :
    l.Noted ses log (Function.update known name none) := by
  refine ⟨h.sound, h.within, h.added, h.unique, h.stored, h.crossed, h.pending, fun m t ht => ?_⟩
  rw [Function.update_apply]
  split
  · obtain ⟨h1, h2, h3, h4, h5, -⟩ := h.sessions m t ht
    exact ⟨h1, h2, h3, h4, h5, nofun⟩
  · exact h.sessions m t ht

/-- An answer teaches a session what the notes say that it knows. -/
theorem Ledger.Noted.learns {l : Ledger} {ses : String → Option Session} {log : List LimitNote}
    {known : String → Option LimitKey} (h : l.Noted ses log known) {name : String} {s : Session}
    (hs : ses name = some s) (c : StoreCall) :
    lookingFirst.learns (known name) (.store c) (s.answer l c).1 (s.missed? l c) := by
  cases c with
  | findLimit teamId scope forTeam =>
    show lookingFirst.learns (known name) (.store (.findLimit teamId scope forTeam))
      (.ok ((s.refresh l).view.findLimit teamId scope forTeam)) _
    unfold Session.missed?
    cases hfound : (s.refresh l).view.findLimit teamId scope forTeam with
    | none => simp only [hfound]; exact rfl
    | some limit =>
      refine ⟨by simp only [hfound], ?_⟩
      -- the limit is a row of the ledger or of the session, so its id is not zero
      obtain ⟨i, hi⟩ := Tables.get?_of_findLimit (k := ⟨teamId, scope, forTeam⟩) hfound
      have hosts := h.hosts hs
      have keyed := hosts.shown_keyed
      rw [keyed.limits i limit hi]
      have added : AddedLimit log i limit.key := by
        rcases Tables.get?_limits_apply.1 hi with ⟨hi, -⟩ | ⟨-, -, hi⟩
        · exact (h.sessions name s hs).stored i limit hi
        · obtain ⟨id, hadded, -⟩ := h.stored i limit hi
          exact ⟨id, hadded⟩
      obtain ⟨id, hadded⟩ := added
      exact Int.ne_of_gt (h.added id i _ hadded).1
  | _ => exact rfl

namespace Office

variable {o : Office α} {log : List LimitNote} {known : String → Option LimitKey}

/-- What is known changes with the task of the session, and for no other one. -/
theorem TasksKeep.assign (h : o.TasksKeep known) (name : String) (w : World)
    {task : Option (Program α)} {g : Option LimitKey}
    (htask : ∀ p, task = some p → p.Keeps lookingFirst (fun _ _ => True) g) :
    (o.assign name w task).TasksKeep (Function.update known name g) := by
  intro m p hp
  rw [task_assign] at hp
  rw [Function.update_apply]
  split at hp
  next hm =>
    rw [if_pos hm]
    exact htask p hp
  next hm =>
    rw [if_neg hm]
    exact h m p hp

/-- A session without a task may know anything. -/
theorem TasksKeep.clear (h : o.TasksKeep known) (name : String) (w : World) :
    (o.assign name w none).TasksKeep known := by
  have kept : (o.assign name w none).TasksKeep (Function.update known name (known name)) :=
    h.assign name w nofun
  rwa [Function.update_eq_self] at kept

theorem LimitsNoted.rollback (h : o.LimitsNoted log) (name : String) :
    (o.happen (.rollback name)).LimitsNoted log := by
  obtain ⟨known, hnoted, htasks⟩ := h
  refine ⟨known, ?_, htasks.clear name _⟩
  show (o.world.rollback name).ledger.Noted (o.world.rollback name).open? log known
  rw [World.open?_eq_update (o.world.open?_rollback name), World.ledger_rollback]
  cases hs : o.world.open? name with
  | none =>
    rw [Function.update_eq_self_iff.2 hs.symm]
    exact hnoted
  | some s => exact hnoted.release name s

theorem LimitsNoted.begin (h : o.LimitsNoted log) (name : String) :
    (o.happen (.begin name)).LimitsNoted log := by
  obtain ⟨known, hnoted, htasks⟩ := h.rollback name
  have same_tasks : ((o.happen (.rollback name)).assign name (o.world.begin name) none).task =
      (o.happen (.begin name)).task := Function.update_idem _ _ _
  refine ⟨Function.update known name none, ?_, ?_⟩
  · show (o.world.begin name).ledger.Noted (o.world.begin name).open? log _
    rw [o.world.open?_begin_eq_update]
    exact hnoted.begin name
  · unfold TasksKeep
    rw [← same_tasks]
    exact htasks.assign name _ nofun

theorem LimitsNoted.start (h : o.LimitsNoted log) (name : String) {p : Program α}
    (hp : p.LimitWork) : (o.happen (.start name p)).LimitsNoted log := by
  obtain ⟨known, hnoted, htasks⟩ := h
  show LimitsNoted (if (o.world.open? name).isSome then o.assign name o.world (some p) else o) log
  split
  · refine ⟨Function.update known name none, hnoted.forget name, htasks.assign name _ ?_⟩
    rintro _ ⟨⟩
    exact hp.keeps
  · exact ⟨known, hnoted, htasks⟩

/-- **One request is answered.** -/
theorem LimitsNoted.step (h : o.LimitsNoted log) (name : String) :
    (o.happen (.step name)).LimitsNoted (log ++ o.limitNotes (.step name)) := by
  obtain ⟨known, hnoted, htasks⟩ := h
  rcases o.step_cases name with ⟨hidle, happen_eq⟩ |
    ⟨s, request, next, w, hs, htask, hledger, -, hopen, happen_eq⟩
  · have no_notes : o.limitNotes (.step name) = [] := by
      show (match o.world.open? name, o.task name with
        | some s, some (.ask (.store c) _) => s.limitNotes o.world.ledger c
        | _, _ => []) = []
      split
      next s c next hs htask => exact absurd htask (hidle s _ _ hs)
      next => rfl
    rw [happen_eq, no_notes, List.append_nil]
    exact ⟨known, hnoted, htasks⟩
  · obtain ⟨hallows, hnext⟩ := htasks name _ htask
    rw [happen_eq]
    have tasks_after {g : Option LimitKey} {p : Program α}
        (hp : p.Keeps lookingFirst (fun _ _ => True) g) :
        (o.assign name w (some p)).TasksKeep (Function.update known name g) :=
      htasks.assign name w fun _ hq => Option.some.inj hq ▸ hp
    have ledger_noted (log' : List LimitNote) (g : Option LimitKey)
        (hl : (Session.backend.respond (o.world.ledger, s) o.world.around request).2.1.1.Noted
          (Function.update o.world.open? name
            (some (Session.backend.respond (o.world.ledger, s) o.world.around request).2.1.2))
          log' (Function.update known name g)) :
        w.ledger.Noted w.open? log' (Function.update known name g) := by
      rw [hledger, World.open?_eq_update hopen]
      exact hl
    cases request with
    | store c =>
      have notes_eq : o.limitNotes (.step name) = s.limitNotes o.world.ledger c := by
        simp only [limitNotes, hs, htask]
      rw [notes_eq]
      refine ⟨Function.update known name (s.missed? o.world.ledger c), ledger_noted _ _ ?_,
        tasks_after (hnext _ _ (hnoted.learns hs c))⟩
      refine hnoted.answer hs fun limit hc h0 => ?_
      cases hc
      exact hallows h0
    -- the clock, the counters and the cache tell nothing about limits
    | now | count _ _ | cacheGet _ | cachePut _ _ _ =>
      have notes_eq : o.limitNotes (.step name) = [] := by simp only [limitNotes, hs, htask]
      rw [notes_eq, List.append_nil]
      refine ⟨Function.update known name none, ledger_noted _ _ ?_,
        tasks_after (hnext _ _ rfl)⟩
      have same : Function.update o.world.open? name (some s) = o.world.open? := by
        rw [← hs, Function.update_eq_self]
      refine Eq.mpr ?_ (hnoted.forget name)
      exact congrArg (o.world.ledger.Noted · log (Function.update known name none)) same

theorem LimitsNoted.commit (h : o.LimitsNoted log) (name : String) :
    (o.happen (.commit name)).LimitsNoted (log ++ o.limitNotes (.commit name)) := by
  obtain ⟨known, hnoted, htasks⟩ := h
  refine ⟨known, ?_, htasks.clear name _⟩
  show (o.world.commit name).2.ledger.Noted (o.world.commit name).2.open? _ known
  rw [World.open?_eq_update (o.world.open?_commit name)]
  cases hs : o.world.open? name with
  | none =>
    simp only [limitNotes, hs, Option.elim, List.append_nil]
    rw [World.ledger_commit_of_none hs, Function.update_eq_self_iff.2 hs.symm]
    exact hnoted
  | some s =>
    obtain ⟨result_eq, ledger_eq⟩ := World.commit_of_open? hs
    simp only [limitNotes, hs, Option.elim]
    rw [result_eq, ledger_eq]
    by_cases hadmits : o.world.ledger.Admits s
    · have noted := hnoted.commit hs hadmits
      rw [Ledger.commit_of_admits hadmits] at noted ⊢
      exact noted
    · obtain ⟨e, he⟩ := Ledger.commit_of_not_admits hadmits
      rw [he, List.append_nil]
      exact hnoted.release name s

/-- **The notes are true of every office that can be reached.** -/
theorem LimitRun.noted (h : o.LimitRun log) : o.LimitsNoted log := by
  induction h with
  | start around => exact ⟨fun _ => none, .empty, nofun⟩
  | step h e he ih =>
    cases e with
    | begin name =>
      rw [show limitNotes _ (.begin name) = [] from rfl, List.append_nil]
      exact ih.begin name
    | start name p =>
      rw [show limitNotes _ (.start name p) = [] from rfl, List.append_nil]
      exact ih.start name he
    | step name => exact ih.step name
    | commit name => exact ih.commit name
    | rollback name =>
      rw [show limitNotes _ (.rollback name) = [] from rfl, List.append_nil]
      exact ih.rollback name
    | addTeam name kind =>
      obtain ⟨known, hnoted, htasks⟩ := ih
      rw [show limitNotes _ (.addTeam name kind) = [] from rfl, List.append_nil]
      exact ⟨known, hnoted.addTeam name kind _, htasks⟩
    | wait time =>
      obtain ⟨known, hnoted, htasks⟩ := ih
      rw [show limitNotes _ (.wait time) = [] from rfl, List.append_nil]
      exact ⟨known, hnoted, htasks⟩

/-! ## Limits with one key -/

/-- **Limits repeat only where sessions cross.** In every office that can be reached, a default limit
names no counterpart and any other one does. Two limits with one key are there only if two sessions have
added them, each of which had looked in vain before the other one committed. A commit looks at no keys:
what it leaves under a key is what the session has added, and what was there and the session has not
deleted. -/
theorem limits_repeat_where_sessions_cross (h : o.LimitRun log) :
    (∀ i r, o.limits.get? i = some r →
      (r.scope = .default → r.forTeam = none) ∧ (r.scope = .team → r.forTeam.isSome)) ∧
    (∀ i j r r', o.limits.get? i = some r → o.limits.get? j = some r' → i ≠ j → r.key = r'.key →
      Crossed log i j r.key) ∧
    ∀ name s, o.world.open? name = some s → (o.world.commit name).1 = .ok () → ∀ i key,
      (∃ r, (o.happen (.commit name)).limits.get? i = some r ∧ r.key = key) ↔
        (∃ r, s.changes.Stores i r ∧ .added s.id i key ∈ log ∧ r.key = key) ∨
          i ∉ s.changes.deletedLimits.ids ∧ ∃ r, o.limits.get? i = some r ∧ r.key = key := by
  obtain ⟨known, hnoted, -⟩ := h.noted
  refine ⟨fun i r hr => ?_, hnoted.crossed, fun name s hs hok i key => ?_⟩
  · obtain ⟨id, hadded, -⟩ := hnoted.stored i r hr
    obtain ⟨-, -, hfits, -⟩ := hnoted.added id i r.key hadded
    have hfits : r.forTeam.isSome ↔ r.scope = .team := hfits
    refine ⟨fun hscope => ?_, hfits.2⟩
    rw [hscope] at hfits
    cases hfor : r.forTeam with
    | none => rfl
    | some f =>
      rw [hfor] at hfits
      cases hfits.1 rfl
  · obtain ⟨result_eq, ledger_eq⟩ := World.commit_of_open? hs
    have hadmits : o.world.ledger.Admits s := by
      by_contra hnot
      obtain ⟨e, he⟩ := Ledger.commit_of_not_admits hnot
      rw [result_eq, he] at hok
      cases hok
    have limits_eq : (o.happen (.commit name)).limits =
        (o.world.ledger.tables.apply s.changes).limits := by
      show (o.world.commit name).2.ledger.tables.limits = _
      rw [ledger_eq, Ledger.commit_of_admits hadmits]
    rw [limits_eq]
    exact hnoted.limit_of_commit hs hadmits

/-- Two sessions set the default limit of a team at once. Both commits go through, and the team has two
default limits. -/
theorem limits_repeat_where_sessions_cross_twice : ∃ (o : Office Unit) (log : List LimitNote)
    (r r' : Limit), LimitRun o log ∧ o.limits.get? 2 = some r ∧ o.limits.get? 3 = some r' ∧
      r.key = ⟨1, .default, none⟩ ∧ r'.key = ⟨1, .default, none⟩ ∧ Crossed log 2 3 r.key := by
  have stored : LimitRun (_ : Office Unit) _ :=
    ((LimitRun.start { clock := ⟨⟨0, 0, by decide⟩⟩ }).step (.addTeam "seller" .selling) trivial).step
      (.begin "a") trivial
  have begun := ((stored.step (.begin "b") trivial).step
    (.start "a" ((CreditLimit.set ⟨1, none, .zero⟩).conclude () fun _ _ => ())) (.set _ _)).step
    (.start "b" ((CreditLimit.set ⟨1, none, .zero⟩).conclude () fun _ _ => ())) (.set _ _)
  have first := ((begun.step (.step "a") trivial).step (.step "a") trivial).step (.step "a") trivial
  have second := ((first.step (.step "b") trivial).step (.step "b") trivial).step (.step "b") trivial
  have h := (second.step (.commit "a") trivial).step (.commit "b") trivial
  obtain ⟨-, hcrossed, -⟩ := limits_repeat_where_sessions_cross h
  exact ⟨_, _, _, _, h, rfl, rfl, rfl, rfl, hcrossed 2 3 _ _ rfl rfl (by decide) rfl⟩

end Office

end TeamLedger
