/-
Sessions that readjust the same order at the same time.

Each session begins, takes its turn and commits, and stops at its first failure.
A turn is not one step here: every request that it makes is one, so that the
sessions may come in between each other wherever the ledger lets them.

Past its first call a session holds the locks of all invoices of the order, and
if there is one invoice at all no two sessions are past it (`Inside`). So nobody
commits between a session's loading and its commit, and what it commits settles
the order for the balance, which is the same for all. Without any invoice there
is nothing to lock. This does no harm when there is nothing to store either; but
otherwise every session stores an invoice of its own.
-/
import TeamLedger.Proofs.Commit
import TeamLedger.Proofs.Converging

set_option autoImplicit false

namespace TeamLedger

open Readjustment

/-! ## Sessions at work -/

/-- How far a session is: what is left of its turn, or how it has ended. -/
inductive Stage
  | waiting
  | working (rest : Program (Except Failure Outcome × WorkingSet))
  | committed
  | stopped

/-- A world, and how far the sessions are. -/
structure Rivals where
  world : World
  stage : String → Stage := fun _ => .waiting

namespace Rivals

/-- What is committed. -/
def tables (f : Rivals) : Tables := f.world.ledger.tables

/-- A session has got further. -/
def put (f : Rivals) (name : String) (world : World) (stage : Stage) : Rivals :=
  { world, stage := Function.update f.stage name stage }

/-- The next step of a session: it begins, or one request of its turn is answered, or it ends. -/
def advance (r : Readjustment) (order : Ident) (f : Rivals) (name : String) : Rivals :=
  match f.stage name with
  | .waiting => f.put name (f.world.begin name) (.working ((r.turn order) []))
  | .working (.ask request next) =>
    match f.world.run name none (Program.request request) with
    | some (answer, w) => f.put name w (.working (next answer))
    | none => f
  | .working (.done (.ok _, _)) =>
    match f.world.commit name with
    | (.ok _, w) => f.put name w .committed
    | (.error _, w) => f.put name w .stopped
  | .working (.done (.error _, _)) => f.put name (f.world.rollback name) .stopped
  | .committed | .stopped => f

/-- The sessions take steps in the order of a schedule. -/
def run (r : Readjustment) (order : Ident) (f : Rivals) (schedule : List String) : Rivals :=
  schedule.foldl (advance r order) f

end Rivals

/-! ## What others leave alone -/

/-- What has happened on the ledger leaves a session alone: nothing was committed, and its locks are
where they were. -/
structure Ledger.Spares (l : Ledger) (id : SessionId) (l' : Ledger) : Prop where
  tables : l'.tables = l.tables
  versions : l'.versions = l.versions
  locks : ∀ k, l.locks k = some id → l'.locks k = some id

namespace World

variable {w w' : World} {name m : String} {s : Session}

/-- A session under another name is dropped. -/
theorem spares_rollback (hw : w.Sound) (hne : m ≠ name) (hs : w.open? m = some s) :
    w.ledger.Spares s.id (w.rollback name).ledger := by
  rw [ledger_rollback]
  cases ho : w.open? name with
  | none => exact ⟨rfl, rfl, fun _ hk => hk⟩
  | some o =>
    exact ⟨rfl, rfl, fun _ hk => Ledger.release_other (hw.id_ne hne hs ho) hk⟩

theorem spares_begin (hw : w.Sound) (hne : m ≠ name) (hs : w.open? m = some s) :
    w.ledger.Spares s.id (w.begin name).ledger := by
  obtain ⟨htables, hversions, hlocks⟩ := spares_rollback hw hne hs
  exact ⟨htables, hversions, hlocks⟩

theorem spares_run {α : Type} {p : Program α} {a : α} (hw : w.Sound) (hne : m ≠ name)
    (hs : w.open? m = some s) (hrun : w.run name none p = some (a, w')) :
    w.ledger.Spares s.id w'.ledger := by
  obtain ⟨o, l, o', around', ho, hp, hledger, -⟩ := run_eq_some hrun
  have hgrants := (p.run_leads w.around ⟨hw.keyed, hw.within, hw.fits name o ho⟩).1
  rw [hp] at hgrants
  rw [hledger]
  exact ⟨hgrants.tables, hgrants.versions,
    fun k => (hgrants.locks_other (hw.id_ne hne hs ho) k).2⟩

/-- A session under another name commits and has written nothing. -/
theorem spares_commit {o : Session} (hw : w.Sound) (hne : m ≠ name) (hs : w.open? m = some s)
    (ho : w.open? name = some o) (hchanges : o.changes = {}) :
    w.ledger.Spares s.id (w.commit name).2.ledger := by
  have written_eq : o.changes.written = [] := by
    rw [hchanges]
    rfl
  have hadmits : w.ledger.Admits o := fun k hk => by
    rw [written_eq] at hk
    cases hk
  rw [(commit_of_open? ho).2, Ledger.commit_of_admits hadmits]
  refine ⟨?_, funext fun k => ?_, fun _ hk => Ledger.release_other (hw.id_ne hne hs ho) hk⟩
  · show w.ledger.tables.apply o.changes = w.ledger.tables
    rw [hchanges, Tables.apply_empty]
  · show (if k ∈ o.changes.written then w.ledger.commits + 1 else w.ledger.versions k) = _
    rw [written_eq, if_neg List.not_mem_nil]

end World

/-! ## Where a session is -/

namespace Readjustment

variable {r : Readjustment} {order : Ident} {l l' : Ledger} {s : Session}
  {rest : Program (Except Failure Outcome × WorkingSet)}

theorem Inside.spares (h : r.Inside order l s rest) (hl : l.Spares s.id l') :
    r.Inside order l' s rest := by
  obtain ⟨hassures, hlocks⟩ := h
  refine ⟨?_, ?_⟩
  · rw [hl.tables, hl.versions]
    exact hassures
  · rw [hl.tables]
    exact fun i hi => hl.locks _ (hlocks i hi)

/-- **One request** of a session that is inside. -/
theorem Inside.respond {request : Request}
    {next : request.Answer → Program (Except Failure Outcome × WorkingSet)}
    (h : r.Inside order l s (.ask request next)) (hl : l.Hosts s) (around : Surroundings) :
    r.Inside order (Session.backend.respond (l, s) around request).2.1.1
      (Session.backend.respond (l, s) around request).2.1.2
      (next (Session.backend.respond (l, s) around request).1) := by
  have hassures := h.assures l around rfl hl
  obtain ⟨hgrants, honward, -⟩ := (Program.request request).run_leads around hl
  -- running the request by itself is having it answered
  replace hgrants : l.Grants s.id (Session.backend.respond (l, s) around request).2.1.1 := hgrants
  replace honward : s.Onward (Session.backend.respond (l, s) around request).2.1.2 := honward
  refine ⟨?_, ?_⟩
  · rw [hgrants.tables, hgrants.versions]
    exact hassures
  · rw [hgrants.tables, honward.id]
    exact fun i hi => hgrants.locks_own (h.locks i hi)

/-- Two sessions that are inside are the same, unless the order has no invoices. -/
theorem Inside.id_eq {s' : Session} {rest' : Program (Except Failure Outcome × WorkingSet)}
    (h : r.Inside order l s rest) (h' : r.Inside order l s' rest')
    (hne : l.tables.between r.fromTeam r.toTeam order ≠ []) : s.id = s'.id := by
  obtain ⟨i, hi⟩ := List.exists_mem_of_ne_nil _ hne
  exact Option.some.inj ((h.locks i hi).symm.trans (h'.locks i hi))

/-- A session is at the beginning of its turn, or inside, or it was refused the locks. -/
def Position (r : Readjustment) (order : Ident) (l : Ledger) (s : Session)
    (rest : Program (Except Failure Outcome × WorkingSet)) : Prop :=
  (s.changes = {} ∧ rest = (r.turn order) []) ∨ r.Inside order l s rest ∨
    ∃ e set, rest = .done (.error e, set)

theorem Position.spares (h : r.Position order l s rest) (hl : l.Spares s.id l') :
    r.Position order l' s rest :=
  h.imp_right (Or.imp_left fun h => h.spares hl)

theorem Position.respond {request : Request}
    {next : request.Answer → Program (Except Failure Outcome × WorkingSet)} (hr : r.Ordered order)
    (h : r.Position order l s (.ask request next)) (hl : l.Hosts s)
    (hunrounded : r.Unrounded (l.tables.paidBetween r.fromTeam r.toTeam order))
    (around : Surroundings) : r.Position order (Session.backend.respond (l, s) around request).2.1.1
      (Session.backend.respond (l, s) around request).2.1.2
      (next (Session.backend.respond (l, s) around request).1) := by
  rcases h with ⟨hchanges, hrest⟩ | hinside | ⟨e, set, hrest⟩
  · obtain ⟨next', turn_eq, hnext, herror⟩ := r.turn_eq order []
    rw [turn_eq] at hrest
    cases hrest
    show r.Position order
      (s.answer l (.find .invoice (.ofPair r.fromTeam r.toTeam order))).2.1
      (s.answer l (.find .invoice (.ofPair r.fromTeam r.toTeam order))).2.2
      (next' (s.answer l (.find .invoice (.ofPair r.fromTeam r.toTeam order))).1)
    rcases hr.inside hl hchanges hunrounded with ⟨⟨e, he⟩, -⟩ | ⟨rows, hrows, hinside⟩
    · rw [he, herror]
      exact .inr (.inr ⟨e, [], rfl⟩)
    · rw [hrows, hnext]
      exact .inr (.inl hinside)
  · exact .inr (.inl (hinside.respond hl around))
  · cases hrest

end Readjustment

/-! ## What holds at any time -/

namespace Rivals

variable {r : Readjustment} {order : Ident} {owed : Int} {f : Rivals} {w : World} {name m : String}

/-- A session that is at work is open, and somewhere in its turn. -/
def Seat (r : Readjustment) (order : Ident) (w : World) (name : String) : Stage → Prop
  | .working rest => ∃ s, w.open? name = some s ∧ r.Position order w.ledger s rest
  | .waiting | .committed | .stopped => True

/-- What holds of what is committed, for all sessions. -/
structure Fair (r : Readjustment) (order : Ident) (owed : Int) (t : Tables) : Prop where
  balance : r.balance order t = owed
  unrounded : r.Unrounded (t.paidBetween r.fromTeam r.toTeam order)
  /-- There is something to lock, or nothing to store. -/
  there : t.between r.fromTeam r.toTeam order ≠ [] ∨ owed = 0

theorem Fair.leaves {t u : Tables} {set added : List Invoice} (h : Fair r order owed t)
    (hl : r.Leaves order t set added u) (ht : t.Keyed) : Fair r order owed u where
  balance := (hl.balance_eq ht).trans h.balance
  unrounded := h.unrounded.perm ((Tables.nodup_between ht).sublist (List.filter_sublist.map _))
    (hl.paid_perm ht).symm
  there := h.there.imp_left (hl.between_ne_nil ht)

/-- **What holds at any time**: every session is at its place, and once one has committed the order is
settled for the balance. -/
structure Orderly (r : Readjustment) (order : Ident) (owed : Int) (f : Rivals) : Prop where
  sound : f.world.Sound
  fair : Fair r order owed f.tables
  seats : ∀ m, Seat r order f.world m (f.stage m)
  settled : ∀ m, f.stage m = .committed → f.tables.Owes r.fromTeam r.toTeam order owed

theorem Seat.spares {w' : World} {stage : Stage} (h : Seat r order w m stage)
    (hopen : w'.open? m = w.open? m)
    (hspares : ∀ s, w.open? m = some s → w.ledger.Spares s.id w'.ledger) :
    Seat r order w' m stage := by
  cases stage with
  | waiting | committed | stopped => trivial
  | working rest =>
    obtain ⟨s, hs, hposition⟩ := h
    exact ⟨s, hopen.trans hs, hposition.spares (hspares s hs)⟩

/-- After a step of one session. -/
theorem Orderly.of_put {stage : Stage} (hsound : w.Sound)
    (hfair : Fair r order owed w.ledger.tables) (hown : Seat r order w name stage)
    (hothers : ∀ m, m ≠ name → Seat r order w m (f.stage m))
    (hsettled : (∃ m, (f.put name w stage).stage m = .committed) →
      w.ledger.tables.Owes r.fromTeam r.toTeam order owed) :
    Orderly r order owed (f.put name w stage) where
  sound := hsound
  fair := hfair
  seats m := by
    show Seat r order w m (Function.update f.stage name stage m)
    rw [Function.update_apply]
    by_cases hm : m = name
    · rw [if_pos hm, hm]
      exact hown
    · rw [if_neg hm]
      exact hothers m hm
  settled m hm := hsettled ⟨m, hm⟩

/-- A step that commits nothing and takes no lock away from others. -/
theorem Orderly.quiet (h : Orderly r order owed f) {stage : Stage} (hsound : w.Sound)
    (htables : w.ledger.tables = f.tables)
    (hopen : ∀ m, m ≠ name → w.open? m = f.world.open? m)
    (hspares : ∀ m s, m ≠ name → f.world.open? m = some s → f.world.ledger.Spares s.id w.ledger)
    (hown : Seat r order w name stage) (hstage : stage ≠ .committed) :
    Orderly r order owed (f.put name w stage) := by
  refine .of_put hsound (by rw [htables]; exact h.fair) hown ?_ ?_
  · exact fun m hm => (h.seats m).spares (hopen m hm) fun s hs => hspares m s hm hs
  · rintro ⟨m, hm⟩
    replace hm : Function.update f.stage name stage m = .committed := hm
    rw [Function.update_apply] at hm
    split at hm
    · exact absurd hm hstage
    · rw [htables]
      exact h.settled m hm

/-- **A session commits.** If somebody else is inside, there was nothing to write. -/
theorem Orderly.commit (h : Orderly r order owed f) (hr : r.Ordered order) {outcome : Outcome}
    {set : WorkingSet} (hstage : f.stage name = .working (.done (.ok outcome, set))) :
    (f.world.commit name).1 = .ok () ∧
      Orderly r order owed (f.put name (f.world.commit name).2 .committed) := by
  have hseat := h.seats name
  rw [hstage] at hseat
  obtain ⟨s, hs, hposition⟩ := hseat
  have hinside : r.Inside order f.world.ledger s (.done (.ok outcome, set)) := by
    rcases hposition with ⟨-, hrest⟩ | hinside | ⟨e, set', hrest⟩
    · cases hrest
    · exact hinside
    · cases hrest
  have goes : GoesThrough r order f.world.ledger.tables f.world.ledger.versions (.ok outcome) s := by
    rcases hinside.assures with goes | ⟨⟨e, herror⟩, -⟩
    · exact goes
    · cases herror
  obtain ⟨committed, -, set', added, hchanges, hleaves⟩ := goes.commit hs
  have keyed : f.tables.Keyed := h.sound.keyed
  refine ⟨committed, .of_put (h.sound.commit name) (h.fair.leaves hleaves keyed) trivial
    (fun m hm => ?_) fun _ => ?_⟩
  · have hother := h.seats m
    have open_eq : (f.world.commit name).2.open? m = f.world.open? m := by
      rw [World.open?_commit, if_neg hm]
    by_cases hnil : f.tables.between r.fromTeam r.toTeam order = []
    · -- nothing was there and nothing was stored
      have hzero := h.fair.there.resolve_left (not_not.2 hnil)
      have set_nil : set' = [] := List.perm_nil.1 (hnil ▸ hleaves.found)
      have added_nil : added = [] := by
        have hstores := hleaves.stores
        rw [show r.balance order f.world.ledger.tables = 0 from h.fair.balance.trans hzero] at hstores
        cases hstores with
        | nothing => rfl
        | forward i hpos => omega
        | backward i hneg => omega
      rw [set_nil, added_nil] at hchanges
      exact hother.spares open_eq fun s' hs' => World.spares_commit h.sound hm hs' hs hchanges
    · cases hrest : f.stage m with
      | waiting | committed | stopped => trivial
      | working rest =>
        rw [hrest] at hother
        obtain ⟨s', hs', hbegun | hinside' | hrefused⟩ := hother
        · exact ⟨s', open_eq.trans hs', .inl hbegun⟩
        · -- the locks of an invoice belong to one session
          exact absurd (h.sound.distinct m name s' s hs' hs (hinside'.id_eq hinside hnil)) hm
        · exact ⟨s', open_eq.trans hs', .inr (.inr hrefused)⟩
  · rw [← h.fair.balance]
    exact hleaves.owes keyed hr

/-- **A step of one session.** -/
theorem Orderly.advance (h : Orderly r order owed f) (hr : r.Ordered order) (name : String) :
    Orderly r order owed (f.advance r order name) := by
  have open_begin (m : String) (hm : m ≠ name) : (f.world.begin name).open? m = f.world.open? m := by
    rw [World.open?_begin, if_neg hm]
  unfold Rivals.advance
  split
  next =>
    refine h.quiet (h.sound.begin name) (f.world.tables_begin name) open_begin
      (fun m s hm hs => World.spares_begin h.sound hm hs) ?_ (by simp)
    refine ⟨(f.world.rollback name).ledger.begin.1, ?_, .inl ⟨rfl, rfl⟩⟩
    rw [World.open?_begin, if_pos rfl]
  next request next hstage =>
    have hseat := h.seats name
    rw [hstage] at hseat
    obtain ⟨s, hs, hposition⟩ := hseat
    split
    next answer w hrun =>
      obtain ⟨s₀, l, s', around', hs₀, hp, hledger, hopen⟩ := World.run_eq_some hrun
      cases hs.symm.trans hs₀
      have hhosts : f.world.ledger.Hosts s := ⟨h.sound.keyed, h.sound.within, h.sound.fits name s hs⟩
      have hnext := hposition.respond hr hhosts h.fair.unrounded f.world.around
      replace hp : Session.backend.respond (f.world.ledger, s) f.world.around request =
        (answer, (l, s'), around') := hp
      have hgrants := ((Program.request request).run_leads f.world.around hhosts).1
      replace hgrants : f.world.ledger.Grants s.id
        (Session.backend.respond (f.world.ledger, s) f.world.around request).2.1.1 := hgrants
      rw [hp] at hnext hgrants
      refine h.quiet (h.sound.run hrun) ?_ (fun m hm => ?_) (fun m s hm hs => ?_) ?_ (by simp)
      · rw [hledger, hgrants.tables]
        rfl
      · rw [hopen, if_neg hm]
      · exact World.spares_run h.sound hm hs hrun
      · refine ⟨s', ?_, ?_⟩
        · rw [hopen, if_pos rfl]
        · rw [hledger]
          exact hnext
    next => exact h
  next outcome set hstage =>
    obtain ⟨committed, horderly⟩ := h.commit hr hstage
    split
    next w hcommit =>
      rw [hcommit] at horderly
      exact horderly
    next e w hcommit =>
      rw [hcommit] at committed
      cases committed
  next =>
    refine h.quiet (h.sound.rollback name) (f.world.tables_rollback name) (fun m hm => ?_)
      (fun m s hm hs => World.spares_rollback h.sound hm hs) trivial (by simp)
    rw [World.open?_rollback, if_neg hm]
  next => exact h
  next => exact h

theorem Orderly.run (h : Orderly r order owed f) (hr : r.Ordered order) (schedule : List String) :
    Orderly r order owed (f.run r order schedule) := by
  induction schedule generalizing f with
  | nil => exact h
  | cons name schedule ih => exact ih (h.advance hr name)

/-- **Rivals do not double the debt.** Any number of sessions readjust an order at the same time, by the
same readjustment, and their steps come in any order. If there was an invoice of the order, or nothing
is to be owed, and if what remains of the target is not rounded, then as soon as one of them has
committed the order is settled: one unpaid invoice over what the target is above the paid sum is open,
and nothing else. -/
theorem rivals_owe_once {around : Surroundings} {log : List Note} (h : World.Logged around w log)
    (hr : r.Ordered order)
    (hunrounded : r.Unrounded (w.ledger.tables.paidBetween r.fromTeam r.toTeam order))
    (hthere : w.ledger.tables.between r.fromTeam r.toTeam order ≠ [] ∨
      r.balance order w.ledger.tables = 0) {schedule : List String}
    (hcommitted : (Rivals.run r order { world := w } schedule).stage name = .committed) :
    (Rivals.run r order { world := w } schedule).tables.Owes r.fromTeam r.toTeam order
      (r.balance order w.ledger.tables) := by
  have start : Orderly r order (r.balance order w.ledger.tables) { world := w } :=
    ⟨h.traced.sound, ⟨rfl, hunrounded, hthere⟩, fun _ => trivial, fun _ hm => nomatch hm⟩
  exact (start.run hr schedule).settled name hcommitted

/-- An invoice over five is open and the target is three. The second session asks for the locks while the
first one has them, and is refused; the first one settles the order. -/
theorem rivals_owe_once_refused : ∃ w log,
    World.Logged { clock := ⟨⟨0, 0, by decide⟩⟩ } w log ∧
      (Rivals.run ⟨1, 2, ⟨3, 0, by decide, by decide⟩, none, some 7⟩ 7 { world := w }
        ["first", "first", "second", "second", "first", "second", "first", "first", "first",
          "first"]).tables.Owes 1 2 7 (3 * 10 ^ 28) := by
  have stored : World.Logged { clock := ⟨⟨0, 0, by decide⟩⟩ } _ _ :=
    ((World.Logged.start.step (.begin "seed")).step (.call "seed" (.insertInvoice
      { (default : NewInvoice) with
        fromTeam := 1, toTeam := 2, orderId := some 7, status := .notPaid,
        amount := ⟨5, 0, by decide, by decide⟩ }))).step (.commit "seed")
  have ordered : (⟨1, 2, ⟨3, 0, by decide, by decide⟩, none, some 7⟩ : Readjustment).Ordered 7 :=
    ⟨by decide, by decide, by decide, rfl, by decide⟩
  have settled := rivals_owe_once stored ordered (exact_nil _).unrounded (.inl (by decide))
    (show (Rivals.run _ _ _ ["first", "first", "second", "second", "first", "second", "first",
      "first", "first", "first"]).stage "first" = .committed from rfl)
  exact ⟨_, _, stored, settled⟩

/-- Neither condition can be left out. Without any invoice of the order there is nothing to lock: both
sessions find nothing, and each stores and commits an invoice over the target. And if one half has been
paid and the target is the largest amount there is, the difference has too many digits; the invoice
that is committed is over the even number next to it. -/
theorem rivals_owe_once_needs_both :
    (¬ ∀ (around : Surroundings) (w : World) (log : List Note) (r : Readjustment) (order : Ident)
      (schedule : List String) (name : String), World.Logged around w log → r.Ordered order →
        r.Unrounded (w.ledger.tables.paidBetween r.fromTeam r.toTeam order) →
        0 ≤ r.balance order w.ledger.tables →
        (Rivals.run r order { world := w } schedule).stage name = .committed →
        (Rivals.run r order { world := w } schedule).tables.Owes r.fromTeam r.toTeam order
          (r.balance order w.ledger.tables)) ∧
    ¬ ∀ (around : Surroundings) (w : World) (log : List Note) (r : Readjustment) (order : Ident)
      (schedule : List String) (name : String), World.Logged around w log → r.Ordered order →
        w.ledger.tables.between r.fromTeam r.toTeam order ≠ [] →
        0 ≤ r.balance order w.ledger.tables →
        (Rivals.run r order { world := w } schedule).stage name = .committed →
        (Rivals.run r order { world := w } schedule).tables.Owes r.fromTeam r.toTeam order
          (r.balance order w.ledger.tables) := by
  constructor
  · intro hall
    have once := hall { clock := ⟨⟨0, 0, by decide⟩⟩ } _ []
      ⟨1, 2, ⟨3, 0, by decide, by decide⟩, none, some 7⟩ 7
      ["first", "second", "first", "second", "first", "first", "first", "first", "second", "second",
        "second", "second"] "first" .start ⟨by decide, by decide, by decide, rfl, by decide⟩
      (exact_nil _).unrounded (by decide) rfl
    obtain ⟨i, hi, -⟩ := once.1 (by decide)
    have one := congrArg List.length hi
    rw [List.length_singleton] at one
    exact absurd one (by decide)
  · intro hall
    have stored : World.Logged { clock := ⟨⟨0, 0, by decide⟩⟩ } _ _ :=
      ((World.Logged.start.step (.begin "seed")).step (.call "seed" (.insertInvoice
        { (default : NewInvoice) with
          fromTeam := 1, toTeam := 2, orderId := some 7, status := .paid,
          amount := ⟨5, 1, by decide, by decide⟩ }))).step (.commit "seed")
    have once := hall _ _ _ ⟨1, 2, ⟨2 ^ 96 - 1, 0, by decide, by decide⟩, none, some 7⟩ 7
      ["first", "first", "first", "first", "first", "first"] "first" stored
      ⟨by decide, by decide, by decide, rfl, by decide⟩ (by decide) (by decide) rfl
    obtain ⟨i, hi, -, amount⟩ := once.1 (by decide)
    have rounded := congrArg (·.map (·.amount.units)) hi
    rw [List.map_singleton, amount] at rounded
    exact absurd rounded (by decide)

end Rivals

end TeamLedger
