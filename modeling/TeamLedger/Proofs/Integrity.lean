/-
Ids are handed out once, and what is referred to is there.

Any number of sessions run the services at once, one request at a time. They
commit whenever they like, also in the middle of a service, or they end in some
other way, and teams are added outside of them. A ghost list notes every id that
is handed out on the way (`Office.Issued`), no matter what becomes of the row.

The invariant (`Office.Kept`) has one part for each of the two promises. Every id
in use anywhere has been noted, and the ledger hands out greater ids than all that
have been noted; so a new row never takes the place of another one. And every
session can be relied on (`Ledger.Grounds`), because what it runs cites only what
it has been shown; so what it commits refers to rows that are there.
-/
import Mathlib.Data.List.Induction
import TeamLedger.Proofs.Citing
import TeamLedger.Proofs.Floor

set_option autoImplicit false

namespace TeamLedger

variable {α : Type}

/-! ## Ids -/

/-- The ids that a statement has handed out, given what it has answered. -/
def StoreCall.issues : (c : StoreCall) → c.Answer → List Ident
  | insertInvoice _, i => [i.id]
  | insertSubmission _, x => [x.id]
  | insertLogEntry _, e => [e.id]
  | insertHistory _, h => [h.id]
  | saveLimit limit, saved => if limit.id = 0 then [saved.id] else []
  | _, _ => []

/-- The ids that a request has handed out. -/
def Request.issues : (r : Request) → r.Answer → List Ident
  | .store c, answer => answer.toOption.elim [] c.issues
  | _, _ => []

/-- The id is that of a row or of a team. -/
def Tables.Taken (t : Tables) (id : Ident) : Prop := (t.teams.get? id).isSome ∨ t.Uses id

/-- The id is that of a committed row, or of one that some session has read, written or deleted. -/
def World.InUse (w : World) (id : Ident) : Prop :=
  w.ledger.tables.Taken id ∨
    ∃ name s, w.open? name = some s ∧ (s.snapshot.Uses id ∨ s.changes.Uses id)

theorem Request.issues_eq_nil {c : StoreCall} (h : ∀ a, c.issues a = [])
    (answer : Except Failure c.Answer) : (Request.store c).issues answer = [] := by
  cases answer with
  | error e => rfl
  | ok a => exact h a

/-- A statement hands out the next id, or none. -/
theorem Session.issues_answer (l : Ledger) (s : Session) (c : StoreCall) :
    (Request.store c).issues (s.answer l c).1 = [l.newId.1] ∧
        (s.answer l c).2.1.lastId = l.lastId + 1 ∨
      (Request.store c).issues (s.answer l c).1 = [] ∧ (s.answer l c).2.1.lastId = l.lastId := by
  cases c with
  | insertInvoice new | insertSubmission new | insertLogEntry new | insertHistory new =>
    exact .inl ⟨rfl, rfl⟩
  | saveLimit limit =>
    by_cases h0 : limit.id = 0
    · have answer_eq : s.answer l (.saveLimit limit) = (.ok { limit with id := l.newId.1 },
          l.newId.2, s.putLimit { limit with id := l.newId.1 }) := by
        simp only [answer, saveLimit, if_pos h0]
        rfl
      rw [answer_eq]
      exact .inl ⟨if_pos h0, rfl⟩
    · have issues_nil (saved : Limit) : (StoreCall.saveLimit limit).issues saved = [] := if_neg h0
      refine .inr ⟨Request.issues_eq_nil issues_nil _, ?_⟩
      simp only [answer, saveLimit, if_neg h0]
      cases s.view.limits.get? limit.id <;> rfl
  | find root q =>
    refine .inr ⟨Request.issues_eq_nil (fun rows => rfl) _, ?_⟩
    simp only [answer, find]
    split
    · split
      next hlock =>
        unfold Ledger.lock at hlock
        split at hlock <;> cases hlock
        rfl
      next => rfl
    · rfl
  | updateSubmissionStatus id status completedBy =>
    refine .inr ⟨Request.issues_eq_nil (fun n => rfl) _, ?_⟩
    simp only [answer]
    cases s.view.submissions.get? id <;> rfl
  | _ => exact .inr ⟨Request.issues_eq_nil (fun a => rfl) _, rfl⟩

/-- Every id that a session has read or written has been handed out. -/
def Session.Numbered (s : Session) (ids : List Ident) : Prop :=
  ∀ id, s.snapshot.Uses id ∨ s.changes.Uses id → id ∈ ids

/-- **A call** brings in no id but the one that it hands out. -/
theorem Session.Numbered.answer {l : Ledger} {s : Session} {ids : List Ident} (h : s.Numbered ids)
    (hl : l.Hosts s) (htables : ∀ id, l.tables.Uses id → id ∈ ids) (c : StoreCall) :
    (s.answer l c).2.2.Numbered (ids ++ (Request.store c).issues (s.answer l c).1) := by
  rintro id (hid | hid)
  · rw [hl.answer_session c, writeAll_snapshot] at hid
    refine List.mem_append_left _ ?_
    split at hid
    · exact htables id hid
    · exact h id (.inl hid)
  · rw [hl.answer_changes] at hid
    rcases Changes.uses_putAll hid with ⟨p, hp, hpid⟩ | hid
    · rcases hl.writes_ok c p hp with hseen | ⟨hnew, hlast⟩
      · exact List.mem_append_left _ (h id (Tables.uses_apply (hseen.uses hpid)))
      · rcases s.issues_answer l c with ⟨hissued, -⟩ | ⟨-, hnone⟩
        · rw [hissued, Option.some.inj (hpid.symm.trans hnew)]
          exact List.mem_append_right _ (List.mem_singleton.2 rfl)
        · omega
    · exact List.mem_append_left _ (h id (.inr hid))

/-! ## Offices that run the services -/

/-- The request writes nothing. -/
def Request.Reading : Request → Prop
  | .store c => c.reads = true
  | _ => True

/-- The program is a call of one of the services, begun in any state, or it only reads. -/
inductive Program.ServiceWork : Program α → Prop
  | workflow (w : Workflow) (a : Workflow.Act) (f : Except Failure a.Answer → Workflow → α) :
    ServiceWork (a.flow.conclude w f)
  | readjust (set : Readjustment.WorkingSet) (r : Readjustment)
      (f : Except Failure Readjustment.Outcome → Readjustment.WorkingSet → α) :
    ServiceWork (r.apply.conclude set f)
  | setLimit (wish : SetLimit) (f : Except Failure Limit → Unit → α) :
    ServiceWork ((CreditLimit.set wish).conclude () f)
  | deleteLimits (teamId : Ident) (forTeam : Option Ident) (f : Except Failure Nat → Unit → α) :
    ServiceWork ((CreditLimit.delete teamId forTeam).conclude () f)
  | insertInvoice (new : NewInvoice) (f : Except Failure Invoice → Unit → α) :
    ServiceWork ((Service.call (.insertInvoice new)).conclude () f)
  | reading {p : Program α} (h : p.Asks Request.Reading) : ServiceWork p

/-- **The services cite only what they have been shown.** -/
theorem Program.ServiceWork.keeps {p : Program α} (h : p.ServiceWork) :
    p.Keeps citingKnown (fun _ _ => True) [] := by
  have concluded {σ β : Type} {q : Service σ β} {st : σ} {f : Except Failure β → σ → α}
      (hq : q.Cites st []) : (q.conclude st f).Keeps citingKnown (fun _ _ => True) [] :=
    .bind (.mono (fun _ _ _ => trivial) hq)
  cases h with
  | workflow w a f => exact concluded a.flow_cites
  | readjust set r f => exact concluded r.apply_cites
  | setLimit wish f => exact concluded (CreditLimit.set_cites wish)
  | deleteLimits teamId forTeam f => exact concluded (CreditLimit.delete_cites teamId forTeam)
  | insertInvoice new f => exact concluded (.call (List.nil_subset _))
  | reading h =>
    refine h.keeps (fun known r hr => ?_) []
    cases r with
    | store c =>
      have cites_nil : c.cites = [] := by
        cases c <;> first | rfl | cases hr
      show c.cites ⊆ known
      rw [cites_nil]
      exact List.nil_subset _
    | _ => trivial

namespace Office

/-- What is begun is a call of a service. -/
def Event.ServiceWork : Event α → Prop
  | .start _ p => p.ServiceWork
  | _ => True

/-- The ids that are handed out by an event. -/
def issues (o : Office α) : Event α → List Ident
  | .step name =>
    match o.world.open? name, o.task name with
    | some s, some (.ask request _) =>
      request.issues (Session.backend.respond (o.world.ledger, s) o.world.around request).1
    | _, _ => []
  | .addTeam name kind => [(o.world.addTeam name kind).1.id]
  | _ => []

/-- The office can be reached by the services, and these are the ids that were handed out on the way. -/
inductive Issued (around : Surroundings) : Office α → List Ident → Prop
  | start : Issued around { world := { around } } []
  | step {o : Office α} {ids : List Ident} (h : Issued around o ids) (e : Event α)
      (he : e.ServiceWork) : Issued around (o.happen e) (ids ++ o.issues e)

/-! ## The invariant -/

/-- What holds of an open session and of what is left of its program. -/
structure Tends (o : Office α) (ids : List Ident) (name : String) (s : Session)
    (known : List Referent) : Prop where
  grounds : o.world.ledger.Grounds s known
  numbered : s.Numbered ids
  keeps : ∀ p, o.task name = some p → p.Keeps citingKnown (fun _ _ => True) known

/-- What holds of every office that is reached. -/
structure Kept (o : Office α) (ids : List Ident) : Prop where
  sound : o.world.Sound
  closed : o.world.ledger.tables.Closed
  increasing : ids.Pairwise (· < ·)
  bounded : ∀ id ∈ ids, id ≤ o.world.ledger.lastId
  taken : ∀ id, o.world.ledger.tables.Taken id → id ∈ ids
  sessions : ∀ name s, o.world.open? name = some s → ∃ known, o.Tends ids name s known

namespace Kept

variable {o o' : Office α} {ids new : List Ident} {name : String} {s : Session}

theorem hosts (h : o.Kept ids) (hs : o.world.open? name = some s) : o.world.ledger.Hosts s :=
  ⟨h.sound.keyed, h.sound.within, h.sound.fits name s hs⟩

theorem empty (around : Surroundings) : Kept ({ world := { around } } : Office α) [] where
  sound := World.Sound.start around
  closed := .empty
  increasing := .nil
  bounded := nofun
  taken id h := by
    unfold Tables.Taken Tables.Uses at h
    simp at h
  sessions _ _ hs := nomatch hs

/-- An event that hands out the next id or none. Sessions are left alone, or shown to do well. -/
theorem next (h : o.Kept ids) (hsound : o'.world.Sound) (hclosed : o'.world.ledger.tables.Closed)
    (hids : new = [o.world.ledger.newId.1] ∧ o'.world.ledger.lastId = o.world.ledger.lastId + 1 ∨
      new = [] ∧ o'.world.ledger.lastId = o.world.ledger.lastId)
    (htaken : ∀ id, o'.world.ledger.tables.Taken id → id ∈ ids ++ new)
    (hhas : ∀ x, o.world.ledger.tables.Has x → o'.world.ledger.tables.Has x)
    (hsessions : ∀ n t, o'.world.open? n = some t →
      o.world.open? n = some t ∧ o'.task n = o.task n ∨ ∃ known, o'.Tends (ids ++ new) n t known) :
    o'.Kept (ids ++ new) where
  sound := hsound
  closed := hclosed
  increasing := by
    rcases hids with ⟨rfl, -⟩ | ⟨rfl, -⟩
    · refine List.pairwise_append.2 ⟨h.increasing, List.pairwise_singleton .., fun id hid id' hid' => ?_⟩
      rw [List.mem_singleton.1 hid']
      exact Ledger.lt_newId (h.bounded id hid)
    · rw [List.append_nil]
      exact h.increasing
  bounded id hid := by
    rcases hids with ⟨rfl, hlast⟩ | ⟨rfl, hlast⟩
    · rw [hlast]
      rcases List.mem_append.1 hid with hid | hid
      · exact Int.le_of_lt (Ledger.lt_newId (h.bounded id hid))
      · rw [List.mem_singleton.1 hid]
        exact Int.le_refl _
    · rw [hlast]
      rw [List.append_nil] at hid
      exact h.bounded id hid
  taken := htaken
  sessions n t ht := by
    rcases hsessions n t ht with ⟨hold, htask⟩ | hnew
    · obtain ⟨known, grounds, numbered, keeps⟩ := h.sessions n t hold
      exact ⟨known, grounds.mono hhas, fun id hid => List.mem_append_left _ (numbered id hid),
        htask ▸ keeps⟩
    · exact hnew

/-- An event that changes no tables and hands out no id. -/
theorem same (h : o.Kept ids) (hsound : o'.world.Sound)
    (htables : o'.world.ledger.tables = o.world.ledger.tables)
    (hlast : o'.world.ledger.lastId = o.world.ledger.lastId)
    (hsessions : ∀ n t, o'.world.open? n = some t →
      o.world.open? n = some t ∧ o'.task n = o.task n ∨ ∃ known, o'.Tends ids n t known) :
    o'.Kept (ids ++ []) := by
  refine h.next hsound (htables ▸ h.closed) (.inr ⟨rfl, hlast⟩) (fun id hid => ?_) (fun x hx => ?_) ?_
  · rw [List.append_nil]
    exact h.taken id (htables ▸ hid)
  · rw [htables]
    exact hx
  · rw [List.append_nil]
    exact hsessions

/-- A session that is there when one has ended was there before, with its task. -/
theorem others {w : World} (hopen : ∀ k, w.open? k = if k = name then none else o.world.open? k)
    {n : String} {t : Session} (ht : w.open? n = some t) :
    o.world.open? n = some t ∧ (o.assign name w none).task n = o.task n := by
  rw [hopen] at ht
  by_cases hn : n = name
  · rw [if_pos hn] at ht
    cases ht
  · rw [if_neg hn] at ht
    rw [task_assign, if_neg hn]
    exact ⟨ht, rfl⟩

theorem rollback (h : o.Kept ids) (name : String) : (o.happen (.rollback name)).Kept (ids ++ []) := by
  refine h.same (sound_happen h.sound _) (o.world.tables_rollback name) ?_ fun n t ht => ?_
  · show (o.world.rollback name).ledger.lastId = _
    rw [World.ledger_rollback_eq]
  · exact .inl (others (o.world.open?_rollback name) ht)

/-- **A session that begins** sees what is committed. -/
theorem begin (h : o.Kept ids) (name : String) : (o.happen (.begin name)).Kept (ids ++ []) := by
  have tables_eq : (o.world.rollback name).ledger.tables = o.world.ledger.tables :=
    o.world.tables_rollback name
  refine h.same (sound_happen h.sound _) (o.world.tables_begin name) ?_ fun n t ht => ?_
  · show (o.world.rollback name).ledger.lastId = _
    rw [World.ledger_rollback_eq]
  replace ht : (o.world.begin name).open? n = some t := ht
  rw [World.open?_begin] at ht
  by_cases hn : n = name
  · rw [if_pos hn] at ht
    cases ht
    refine .inr ⟨[], .begin (tables_eq ▸ h.closed), ?_, fun p hp => ?_⟩
    · rintro id (hid | hid)
      · exact h.taken id (.inr (tables_eq ▸ hid))
      · simp [Ledger.begin, Changes.Uses, Rows.mem_ids] at hid
    · replace hp : (o.assign name (o.world.begin name) none).task n = some p := hp
      rw [task_assign, if_pos hn] at hp
      cases hp
  · rw [if_neg hn] at ht
    refine .inl ⟨ht, ?_⟩
    show (o.assign name (o.world.begin name) none).task n = _
    rw [task_assign, if_neg hn]

/-- A session goes on with a program. The tables stay as they are. -/
theorem goOn (h : o.Kept ids) {w : World} {q : Program α} {known : List Referent} (hsound : w.Sound)
    (hopen : ∀ n, w.open? n = if n = name then some s else o.world.open? n)
    (htables : w.ledger.tables = o.world.ledger.tables)
    (hids : new = [o.world.ledger.newId.1] ∧ w.ledger.lastId = o.world.ledger.lastId + 1 ∨
      new = [] ∧ w.ledger.lastId = o.world.ledger.lastId)
    (hgrounds : w.ledger.Grounds s known) (hnumbered : s.Numbered (ids ++ new))
    (hkeeps : q.Keeps citingKnown (fun _ _ => True) known) :
    (o.assign name w (some q)).Kept (ids ++ new) := by
  have same_tables : (o.assign name w (some q)).world.ledger.tables = o.world.ledger.tables := htables
  refine h.next hsound (same_tables ▸ h.closed) hids (fun id hid => ?_) (fun x hx => ?_)
    fun n t ht => ?_
  · exact List.mem_append_left _ (h.taken id (same_tables ▸ hid))
  · rw [same_tables]
    exact hx
  replace ht : w.open? n = some t := ht
  rw [hopen] at ht
  by_cases hn : n = name
  · rw [if_pos hn] at ht
    cases ht
    refine .inr ⟨known, hgrounds, hnumbered, fun p hp => ?_⟩
    rw [task_assign, if_pos hn] at hp
    cases hp
    exact hkeeps
  · rw [if_neg hn] at ht
    refine .inl ⟨ht, ?_⟩
    rw [task_assign, if_neg hn]

/-- **A program that begins** knows nothing yet. -/
theorem start (h : o.Kept ids) (name : String) {p : Program α} (hp : p.ServiceWork) :
    (o.happen (.start name p)).Kept (ids ++ []) := by
  show Kept (if (o.world.open? name).isSome then o.assign name o.world (some p) else o) (ids ++ [])
  cases hs : o.world.open? name with
  | none =>
    rw [Option.isSome_none, if_neg Bool.false_ne_true, List.append_nil]
    exact h
  | some s =>
    obtain ⟨known, grounds, numbered, -⟩ := h.sessions name s hs
    have same_sessions (n : String) :
        o.world.open? n = if n = name then some s else o.world.open? n := by
      by_cases hn : n = name
      · rw [if_pos hn, hn, hs]
      · rw [if_neg hn]
    rw [Option.isSome_some, if_pos rfl]
    refine h.goOn h.sound same_sessions rfl (.inr ⟨rfl, rfl⟩) grounds.forget ?_ hp.keeps
    rw [List.append_nil]
    exact numbered

theorem addTeam (h : o.Kept ids) (name : String) (kind : Team.Kind) :
    (o.happen (.addTeam name kind)).Kept (ids ++ [o.world.ledger.newId.1]) := by
  have isSome_teams (id : Ident) :
      (((o.happen (.addTeam name kind)).world.ledger.tables.teams).get? id).isSome ↔
        id = o.world.ledger.newId.1 ∨ (o.world.ledger.tables.teams.get? id).isSome := by
    show ((o.world.ledger.tables.teams.insert o.world.ledger.newId.1 _).get? id).isSome ↔ _
    rw [Rows.get?_insert]
    split
    next hid => simp [hid]
    next hid => simp [hid]
  have has_team (x : Referent) (hx : o.world.ledger.tables.Has x) :
      (o.happen (.addTeam name kind)).world.ledger.tables.Has x := by
    cases x with
    | team id => exact (isSome_teams id).2 (.inr hx)
    | _ => exact hx
  refine h.next (sound_happen h.sound _) (fun x hx => has_team x (h.closed x hx)) (.inl ⟨rfl, rfl⟩)
    (fun id hid => ?_) has_team fun n t ht => .inl ⟨ht, rfl⟩
  rcases hid with hid | hid
  · rcases (isSome_teams id).1 hid with rfl | hid
    · exact List.mem_append_right _ (List.mem_singleton.2 rfl)
    · exact List.mem_append_left _ (h.taken id (.inl hid))
  · exact List.mem_append_left _ (h.taken id (.inr hid))

/-- **A commit** leaves tables that are closed, and ids that have been handed out. -/
theorem commit (h : o.Kept ids) (name : String) : (o.happen (.commit name)).Kept (ids ++ []) := by
  have sound := sound_happen h.sound (Event.commit name : Event α)
  have others_kept (n : String) (t : Session) (ht : (o.happen (.commit name)).world.open? n = some t) :
      o.world.open? n = some t ∧ (o.happen (.commit name)).task n = o.task n :=
    others (o.world.open?_commit name) ht
  -- a commit that does not go through leaves everything as it is
  have unchanged (hledger : (o.world.commit name).2.ledger.tables = o.world.ledger.tables)
      (hlast : (o.world.commit name).2.ledger.lastId = o.world.ledger.lastId) :
      (o.happen (.commit name)).Kept (ids ++ []) :=
    h.same sound hledger hlast fun n t ht => .inl (others_kept n t ht)
  cases hs : o.world.open? name with
  | none =>
    have ledger_eq := World.ledger_commit_of_none hs
    exact unchanged (by rw [ledger_eq]) (by rw [ledger_eq])
  | some s =>
    have ledger_eq := (World.commit_of_open? hs).2
    by_cases hadmits : o.world.ledger.Admits s
    · rw [Ledger.commit_of_admits hadmits] at ledger_eq
      obtain ⟨known, grounds, numbered, -⟩ := h.sessions name s hs
      have tables_eq : (o.happen (.commit name)).world.ledger.tables =
          o.world.ledger.tables.apply s.changes := congrArg Ledger.tables ledger_eq
      have last_eq : (o.happen (.commit name)).world.ledger.lastId = o.world.ledger.lastId := by
        show (o.world.commit name).2.ledger.lastId = _
        rw [ledger_eq]
        rfl
      refine h.next sound ?_ (.inr ⟨rfl, last_eq⟩) (fun id hid => ?_) (fun x hx => ?_)
        fun n t ht => .inl (others_kept n t ht)
      · rw [tables_eq]
        exact grounds.closed h.closed
      · rw [tables_eq] at hid
        rw [List.append_nil]
        rcases hid with hid | hid
        · exact h.taken id (.inl hid)
        · rcases Tables.uses_apply hid with hid | hid
          · exact h.taken id (.inr hid)
          · exact numbered id (.inr hid)
      · rw [tables_eq]
        exact Tables.has_apply_iff.2 (.inl hx)
    · obtain ⟨e, he⟩ := Ledger.commit_of_not_admits hadmits
      rw [he] at ledger_eq
      exact unchanged (by rw [ledger_eq]; rfl) (by rw [ledger_eq]; rfl)

/-- **One request is answered.** -/
theorem step (h : o.Kept ids) (name : String) :
    (o.happen (.step name)).Kept (ids ++ o.issues (.step name)) := by
  rcases o.step_cases name with ⟨hidle, happen_eq⟩ |
    ⟨s, request, next, w, hs, htask, hledger, -, hopen, happen_eq⟩
  · have issues_nil : o.issues (.step name) = [] := by
      show (match o.world.open? name, o.task name with
        | some s, some (.ask request _) =>
          request.issues (Session.backend.respond (o.world.ledger, s) o.world.around request).1
        | _, _ => []) = []
      split
      next s request next hs htask => exact absurd htask (hidle s _ _ hs)
      next => rfl
    rw [happen_eq, issues_nil, List.append_nil]
    exact h
  have sound := sound_happen h.sound (Event.step name : Event α)
  have issues_eq : o.issues (.step name) =
      request.issues (Session.backend.respond (o.world.ledger, s) o.world.around request).1 := by
    simp only [issues, hs, htask]
  obtain ⟨known, grounds, numbered, keeps⟩ := h.sessions name s hs
  obtain ⟨hallows, hnext⟩ := keeps _ htask
  rw [issues_eq]
  rw [happen_eq] at sound ⊢
  cases request with
  | store c =>
    have hosts := h.hosts hs
    have ledger_eq : w.ledger = (s.answer o.world.ledger c).2.1 := hledger
    refine h.goOn sound hopen ?_ ?_ ?_ (numbered.answer hosts (fun id hid => h.taken id (.inr hid)) c)
      (hnext _ _ rfl)
    · rw [ledger_eq]
      exact (s.answer_ledger o.world.ledger c).tables
    · rw [ledger_eq]
      exact s.issues_answer o.world.ledger c
    · rw [ledger_eq]
      exact grounds.answer hosts h.closed hallows
  -- the clock, the counters and the cache know nothing of rows
  | now | count _ _ | cacheGet _ | cachePut _ _ _ =>
    have ledger_eq : w.ledger = o.world.ledger := hledger
    refine h.goOn sound hopen (by rw [ledger_eq]) (.inr ⟨rfl, by rw [ledger_eq]⟩)
      (ledger_eq ▸ grounds) ?_ (hnext _ _ rfl)
    show s.Numbered (ids ++ [])
    rw [List.append_nil]
    exact numbered

end Kept

/-- **The invariant holds of every office that is reached.** -/
theorem Issued.kept {around : Surroundings} {o : Office α} {ids : List Ident}
    (h : Issued around o ids) : o.Kept ids := by
  induction h with
  | start => exact .empty around
  | @step o ids h e he ih =>
    cases e with
    | begin name => exact ih.begin name
    | start name p => exact ih.start name he
    | step name => exact ih.step name
    | commit name => exact ih.commit name
    | rollback name => exact ih.rollback name
    | addTeam name kind => exact ih.addTeam name kind
    | wait time => exact ih.same ih.sound rfl rfl fun n t ht => .inl ⟨ht, rfl⟩

/-! ## The promises -/

/-- What is handed out next is greater than all ids that have been handed out. -/
theorem lt_of_issues {o : Office α} {e : Event α} {id k : Ident} (h : id ∈ o.issues e)
    (hk : k ≤ o.world.ledger.lastId) : k < id := by
  have next_id : id = o.world.ledger.newId.1 := by
    cases e with
    | step name =>
      unfold issues at h
      dsimp only at h
      split at h
      next s request next hs htask =>
        cases request with
        | store c =>
          replace h : id ∈ (Request.store c).issues (s.answer o.world.ledger c).1 := h
          rcases s.issues_answer o.world.ledger c with ⟨hissued, -⟩ | ⟨hissued, -⟩
          · rw [hissued] at h
            exact List.mem_singleton.1 h
          · rw [hissued] at h
            cases h
        | _ => cases h
      next => cases h
    | addTeam name kind => exact List.mem_singleton.1 h
    | _ => cases h
  rw [next_id]
  exact Ledger.lt_newId hk

end Office

/-- What is referred to is there. -/
structure Tables.Intact (t : Tables) : Prop where
  links : ∀ l ∈ t.links,
    (t.invoices.get? l.invoiceId).isSome ∧ (t.submissions.get? l.submissionId).isSome
  logs : ∀ i e, t.logs.get? i = some e → (t.submissions.get? e.submissionId).isSome
  payments : ∀ i x h, t.invoices.get? i = some x → x.historyId = some h → (t.histories.get? h).isSome
  limits : ∀ i l, t.limits.get? i = some l →
    (t.teams.get? l.teamId).isSome ∧ ∀ f, l.forTeam = some f → (t.teams.get? f).isSome

theorem Tables.Closed.intact {t : Tables} (h : t.Closed) : t.Intact where
  links l hl :=
    ⟨h (.invoice l.invoiceId) (.inl ⟨l, hl, List.mem_cons_self⟩),
      h (.submission l.submissionId) (.inl ⟨l, hl, List.mem_cons_of_mem _ List.mem_cons_self⟩)⟩
  logs i e he := h (.submission e.submissionId) (.inr (.inl ⟨i, e, he, List.mem_cons_self⟩))
  payments i x k hx hk := by
    refine h (.history k) (.inr (.inr (.inl ⟨i, x, hx, ?_⟩)))
    rw [Invoice.refers, hk]
    exact List.mem_cons_self
  limits i l hl := by
    refine ⟨h (.team l.teamId) (.inr (.inr (.inr ⟨i, l, hl, List.mem_cons_self⟩))), fun f hf => ?_⟩
    refine h (.team f) (.inr (.inr (.inr ⟨i, l, hl, ?_⟩)))
    rw [Limit.refers, hf]
    exact List.mem_cons_of_mem _ List.mem_cons_self

namespace Office

/-- **Ids are handed out once, and what is committed refers to committed rows.** Let any number of
sessions run workflows, readjust, set and delete limits, store invoices and read, one request of one of
them at a time, commit, fail to, or end without, at any point, while teams are added. Then the ids that
are handed out, for rows of every kind and whatever becomes of them, grow from one to the next. No row
that is committed, or that a session has read, written or deleted, has another id than one of these;
and what is handed out next is not the id of any such row, so nothing is ever replaced by a new row.
Every link, every log entry, every payment on an invoice and every limit that is committed refers to
rows that are committed. -/
theorem ids_once_references_kept {around : Surroundings} {o : Office α} {ids : List Ident}
    (h : Issued around o ids) :
    ids.Pairwise (· < ·) ∧ (∀ id, o.world.InUse id → id ∈ ids) ∧
      (∀ e, ∀ id ∈ o.issues e, (∀ k ∈ ids, k < id) ∧ ¬ o.world.InUse id) ∧
      o.world.ledger.tables.Intact := by
  have kept := h.kept
  have used (id : Ident) (hid : o.world.InUse id) : id ∈ ids := by
    rcases hid with hid | ⟨name, s, hs, hid⟩
    · exact kept.taken id hid
    · obtain ⟨known, hsession⟩ := kept.sessions name s hs
      exact hsession.numbered id hid
  refine ⟨kept.increasing, used, fun e id hid => ?_, kept.closed.intact⟩
  have greater (k : Ident) (hk : k ∈ ids) : k < id := lt_of_issues hid (kept.bounded k hk)
  exact ⟨greater, fun huse => Int.lt_irrefl id (greater id (used id huse))⟩

/-- The office after some events, with the ids that were handed out. -/
def issuedAfter (around : Surroundings) (es : List (Event α)) : Office α × List Ident :=
  es.foldl (fun x e => (x.1.happen e, x.2 ++ x.1.issues e)) ({ world := { around } }, [])

theorem issued_after (around : Surroundings) (es : List (Event α)) (hes : ∀ e ∈ es, e.ServiceWork) :
    Issued around (issuedAfter around es).1 (issuedAfter around es).2 := by
  unfold issuedAfter
  induction es using List.reverseRecOn with
  | nil => exact .start
  | append_singleton es e ih =>
    rw [List.foldl_append]
    exact (ih fun e' he' => hes e' (List.mem_append_left _ he')).step e
      (hes e (List.mem_append_right _ List.mem_cons_self))

/-- A submission is created while another session sets a limit and is dropped. The submission is
committed, and then it is accepted by a caller who has a copy of it. -/
def acceptedMeanwhile : List (Event Unit) :=
  [.addTeam "buyer" .selling, .addTeam "seller" .selling, .begin "a",
    .start "a" ((Service.call (.insertInvoice
      { fromTeam := 1, toTeam := 2, kind := .product, amount := (Money.ofParts? 50 0).getD .zero,
        created := .ofSecond 0 })).conclude () fun _ _ => ()),
    .step "a", .begin "b",
    .start "b" ((CreditLimit.set ⟨2, some 1, .zero⟩).conclude () fun _ _ => ()),
    .step "b", .step "b", .step "b", .step "b",
    .start "a" ((Workflow.Act.create (.start .invoice false) "" .zero).flow.conclude
      { agent := .system } fun _ _ => ())] ++
  List.replicate 8 (.step "a") ++ [.rollback "b", .commit "a", .begin "a",
    .start "a" (Workflow.Act.accept.flow.conclude
      { agent := .system
        data := some { (default : Submission) with
          id := 5, status := .submitted, amount := (Money.ofParts? 50 0).getD .zero } } fun _ _ => ())] ++
  List.replicate 8 (.step "a") ++ [.commit "a"]

/-- The limit was dropped, and its id is not handed out again. The link names the invoice and the
submission, and the invoice names the payment. -/
theorem ids_once_references_kept_accepted : ∃ (o : Office Unit) (ids : List Ident),
    Issued { clock := ⟨⟨0, 0, by decide⟩⟩ } o ids ∧ ids = [1, 2, 3, 4, 5, 6, 7, 8] ∧
      o.world.ledger.tables.links = [⟨3, 5⟩] ∧ o.world.ledger.tables.limits.ids = [] ∧
      (o.world.ledger.tables.invoices.get? 3).bind Invoice.historyId = some 8 ∧
      o.world.ledger.tables.Intact := by
  have none {p : Event Unit → Prop} : ∀ e ∈ [], p e := fun _ he => absurd he List.not_mem_nil
  have h := issued_after { clock := ⟨⟨0, 0, by decide⟩⟩ } acceptedMeanwhile (by
    unfold acceptedMeanwhile
    simp only [List.forall_mem_append, List.forall_mem_cons, List.mem_replicate]
    refine ⟨⟨⟨⟨⟨trivial, trivial, trivial, .insertInvoice _ _, trivial, trivial, .setLimit _ _, trivial,
      trivial, trivial, trivial, .workflow _ _ _, none⟩, ?_⟩, trivial, trivial, trivial,
      .workflow _ _ _, none⟩, ?_⟩, trivial, none⟩
    all_goals
      rintro e ⟨-, rfl⟩
      trivial)
  obtain ⟨-, -, -, intact⟩ := ids_once_references_kept h
  refine ⟨_, _, h, ?_, ?_, ?_, ?_, intact⟩
  all_goals decide +kernel

end Office

end TeamLedger
