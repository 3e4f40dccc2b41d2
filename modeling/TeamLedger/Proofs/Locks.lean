/-
Who has locked what, from the first lock to the last session.

A lock is taken by a statement that takes all of its locks or none, and it goes
when its session ends, with all other locks of that session and with no other.
In between nothing happens to it, whatever the session does and whatever others
do. So every event is one of three kinds (`World.happen_cases`): a session that
is open ends and gives back what it holds, a session that is open makes a call
and is granted what nobody else holds, or no lock changes hands.

From this one case distinction come both invariants, that every lock belongs to
an open session (`World.LocksOwned`) and that a session keeps its locks as long
as it is open (`World.Holds`).
-/
import TeamLedger.Proofs.Reading

set_option autoImplicit false

namespace TeamLedger

/-! ## One call -/

/-- The locks of the rows that a query returns. -/
def Query.lockKeys {root : Root} (q : Query root) (t : Tables) : List LockKey :=
  (q.select t).map fun row => ⟨root, root.idOf row⟩

/-- The call is a statement that locks what it returns. -/
def StoreCall.locks : StoreCall → Bool
  | find _ q => q.locked
  | _ => false

namespace Ledger

/-- **All or nothing.** Locking is refused if one of the rows is taken; otherwise exactly these rows
are locked. -/
theorem lock_cases (l : Ledger) (id : SessionId) {root : Root} (q : Query root) (t : Tables) :
    ((∀ k ∈ q.lockKeys t, l.taken id k = false) ∧
      l.lock id root ((q.select t).map root.idOf) =
        .ok { l with locks := fun k => if k ∈ q.lockKeys t then some id else l.locks k }) ∨
    ∃ row ∈ q.select t, l.taken id ⟨root, root.idOf row⟩ = true ∧
      l.lock id root ((q.select t).map root.idOf) =
        .error (.lockConflict (.row (root.idOf row) root.table)) := by
  rcases l.lock_eq id (q.select t) with ⟨row, hfind, hlock⟩ | ⟨hfind, l', hlock⟩
  · have htaken := List.find?_some (p := fun row => l.taken id ⟨root, root.idOf row⟩) hfind
    exact .inr ⟨row, List.mem_of_find?_eq_some hfind, htaken, hlock⟩
  · refine .inl ⟨fun k hk => ?_, ?_⟩
    · obtain ⟨row, hrow, rfl⟩ := List.mem_map.1 hk
      simpa using List.find?_eq_none.1 hfind row hrow
    · have mem_iff : ∀ k : LockKey, (k.root = root ∧ k.id ∈ (q.select t).map root.idOf) ↔
          k ∈ q.lockKeys t := by
        rintro ⟨kroot, kid⟩
        simp only [Query.lockKeys, List.mem_map, LockKey.mk.injEq]
        constructor
        · rintro ⟨rfl, row, hrow, rfl⟩
          exact ⟨row, hrow, rfl, rfl⟩
        · rintro ⟨row, hrow, rfl, rfl⟩
          exact ⟨rfl, row, hrow, rfl⟩
      unfold lock at hlock ⊢
      split at hlock
      · cases hlock
      · simp only [mem_iff]

theorem taken_eq_true {l : Ledger} {id : SessionId} {k : LockKey} :
    l.taken id k = true ↔ ∃ other, l.locks k = some other ∧ other ≠ id := by
  unfold taken
  cases l.locks k <;> simp

end Ledger

namespace Session

/-- A find that locks is refused over a row that is taken, or returns its rows and has locked them. -/
theorem answer_find_locked (l : Ledger) (s : Session) {root : Root} {q : Query root}
    (hq : q.locked = true) :
    ((∀ k ∈ q.lockKeys (l.tables.apply s.changes), l.taken s.id k = false) ∧
      s.answer l (.find root q) = (.ok (root.inOrder (q.select (l.tables.apply s.changes))),
        { l with locks := fun k =>
            if k ∈ q.lockKeys (l.tables.apply s.changes) then some s.id else l.locks k },
        s.refresh l)) ∨
    ∃ row ∈ q.select (l.tables.apply s.changes), l.taken s.id ⟨root, root.idOf row⟩ = true ∧
      s.answer l (.find root q) =
        (.error (.refused (.lockConflict (.row (root.idOf row) root.table))), l, s.refresh l) := by
  rcases l.lock_cases s.id q (l.tables.apply s.changes) with
    ⟨hfree, hlock⟩ | ⟨row, hrow, htaken, hlock⟩
  · refine .inl ⟨hfree, ?_⟩
    simp only [answer, find, hq, if_true, refresh_id, refresh_view, hlock]
    rfl
  · refine .inr ⟨row, hrow, htaken, ?_⟩
    simp only [answer, find, hq, if_true, refresh_id, refresh_view, hlock]
    rfl

/-- Only statements that lock change the locks. -/
theorem answer_locks (l : Ledger) (s : Session) {c : StoreCall} (hc : c.locks = false) :
    (s.answer l c).2.1.locks = l.locks := by
  cases c with
  | find root q =>
    have hq : q.locked = false := hc
    simp only [answer, find, hq, Bool.false_eq_true, if_false]
  | saveLimit limit =>
    simp only [answer, saveLimit]
    split
    · rfl
    · split <;> rfl
  | updateSubmissionStatus id status completedBy =>
    simp only [answer]
    split <;> rfl
  | _ => rfl

end Session

/-- A statement that does not lock is answered as if nobody had locked anything. -/
theorem StoreCall.answerOn_of_not_locks {c : StoreCall} (hc : c.locks = false) (t : Tables)
    (taken taken' : LockKey → Bool) : c.answerOn t taken = c.answerOn t taken' := by
  cases c with
  | find root q =>
    have hq : q.locked = false := hc
    simp only [answerOn, hq, Bool.false_and]
  | _ => rfl

/-! ## One event -/

/-- The event ends the session of a name, if one is open: it is committed, rolled back, or dropped for
another one to begin under its name. -/
def LedgerEvent.Ends (name : String) : LedgerEvent → Prop
  | .begin n | .commit n | .rollback n => n = name
  | .call .. | .addTeam .. => False

namespace World

variable {w : World} {name : String} {s : Session} {e : LedgerEvent}

/-- **A call in an open session** is answered by the session. -/
theorem run_call (hs : w.open? name = some s) (c : StoreCall) : ∃ w',
    w.run name none (Program.request (.store c)) = some ((s.answer w.ledger c).1, w') ∧
      w.happen (.call name c) = w' ∧ w'.ledger = (s.answer w.ledger c).2.1 ∧
      ∀ k, w'.open? k = if k = name then some (s.answer w.ledger c).2.2 else w.open? k := by
  obtain ⟨w', hrun, hledger, hopen⟩ := run_of_open hs (Program.request (.store c))
  have happen_eq : w.happen (.call name c) = w' := by
    simp only [happen, hrun, Option.map_some, Option.getD_some]
  exact ⟨w', hrun, happen_eq, hledger, hopen⟩

theorem happen_call_of_none (hs : w.open? name = none) (c : StoreCall) :
    w.happen (.call name c) = w := by
  simp only [happen, run_of_not_open hs, Option.map_none, Option.getD_none]

theorem Sound.happen (h : w.Sound) (e : LedgerEvent) : (w.happen e).Sound := by
  cases e with
  | begin name => exact h.begin name
  | call name c =>
    cases hs : w.open? name with
    | none =>
      rw [happen_call_of_none hs]
      exact h
    | some s =>
      obtain ⟨w', hrun, rfl, -⟩ := run_call hs c
      exact h.run hrun
  | commit name => exact h.commit name
  | rollback name => exact h.rollback name
  | addTeam name kind => exact h.addTeam name kind

/-- Whichever way a session ends, its locks go and all others stay. -/
theorem locks_of_ends (he : e.Ends name) (hs : w.open? name = some s) :
    (w.happen e).ledger.locks = (w.ledger.release s.id).locks := by
  have locks_rollback : (w.rollback name).ledger.locks = (w.ledger.release s.id).locks := by
    rw [ledger_rollback, hs]
    rfl
  cases e with
  | begin n =>
    cases he
    exact locks_rollback
  | commit n =>
    cases he
    show (w.commit name).2.ledger.locks = _
    rw [(commit_of_open? hs).2]
    by_cases hadmits : w.ledger.Admits s
    · rw [Ledger.commit_of_admits hadmits]
    · obtain ⟨err, commit_eq⟩ := Ledger.commit_of_not_admits hadmits
      rw [commit_eq]
  | rollback n =>
    cases he
    exact locks_rollback
  | call n c => exact he.elim
  | addTeam n kind => exact he.elim

/-- An event that ends no open session and is no call leaves the locks alone. -/
theorem locks_of_ends_none (he : e.Ends name) (hs : w.open? name = none) :
    (w.happen e).ledger.locks = w.ledger.locks := by
  have locks_rollback : (w.rollback name).ledger.locks = w.ledger.locks := by
    rw [ledger_rollback, hs]
    rfl
  cases e with
  | begin n =>
    cases he
    exact locks_rollback
  | commit n =>
    cases he
    show (w.commit name).2.ledger.locks = _
    rw [ledger_commit_of_none hs]
  | rollback n =>
    cases he
    exact locks_rollback
  | call n c => exact he.elim
  | addTeam n kind => exact he.elim

theorem open?_of_ends (he : e.Ends name) {k : String} (hk : k ≠ name) :
    (w.happen e).open? k = w.open? k := by
  cases e with
  | begin n =>
    cases he
    exact (w.open?_begin name k).trans (if_neg hk)
  | commit n =>
    cases he
    exact (w.open?_commit name k).trans (if_neg hk)
  | rollback n =>
    cases he
    exact (w.open?_rollback name k).trans (if_neg hk)
  | call n c => exact he.elim
  | addTeam n kind => exact he.elim

/-- **What an event can do to locks.** An open session ends and gives back its own, or an open session
makes a call and is granted what nobody else holds, or no lock changes hands and no session goes. -/
theorem happen_cases (hw : w.Sound) (e : LedgerEvent) :
    (∃ name s, e.Ends name ∧ w.open? name = some s ∧
      (w.happen e).ledger.locks = (w.ledger.release s.id).locks ∧
      ∀ k, k ≠ name → (w.happen e).open? k = w.open? k) ∨
    (∃ name s s', w.open? name = some s ∧ w.ledger.Grants s.id (w.happen e).ledger ∧
      s'.id = s.id ∧ ∀ k, (w.happen e).open? k = if k = name then some s' else w.open? k) ∨
    (w.happen e).ledger.locks = w.ledger.locks ∧
      ∀ k s, w.open? k = some s → (w.happen e).open? k = some s := by
  -- ends of sessions that are open, and of such that are not
  have of_ends (name : String) (he : e.Ends name) :
      (∃ name s, e.Ends name ∧ w.open? name = some s ∧
        (w.happen e).ledger.locks = (w.ledger.release s.id).locks ∧
        ∀ k, k ≠ name → (w.happen e).open? k = w.open? k) ∨
      (w.happen e).ledger.locks = w.ledger.locks ∧
        ∀ k s, w.open? k = some s → (w.happen e).open? k = some s := by
    cases hs : w.open? name with
    | some s => exact .inl ⟨name, s, he, hs, locks_of_ends he hs, fun k => open?_of_ends he⟩
    | none =>
      refine .inr ⟨locks_of_ends_none he hs, fun k s hk => ?_⟩
      have hne : k ≠ name := fun heq => by
        rw [heq, hs] at hk
        cases hk
      rw [open?_of_ends he hne, hk]
  cases e with
  | begin name | commit name | rollback name =>
    exact (of_ends name rfl).imp_right .inr
  | addTeam name kind => exact .inr (.inr ⟨rfl, fun k s hk => hk⟩)
  | call name c =>
    cases hs : w.open? name with
    | none =>
      rw [happen_call_of_none hs]
      exact .inr (.inr ⟨rfl, fun k s hk => hk⟩)
    | some s =>
      obtain ⟨w', -, rfl, hledger, hopen⟩ := run_call hs c
      have hhosts : w.ledger.Hosts s := ⟨hw.keyed, hw.within, hw.fits name s hs⟩
      refine .inr (.inl ⟨name, s, _, hs, ?_, hhosts.answer_id c, hopen⟩)
      rw [hledger]
      exact s.answer_ledger w.ledger c

/-! ## Every lock has its session -/

/-- Every lock belongs to a session that is open. -/
def LocksOwned (w : World) : Prop :=
  ∀ k id, w.ledger.locks k = some id → ∃ name s, w.open? name = some s ∧ s.id = id

theorem LocksOwned.happen (h : w.LocksOwned) (hw : w.Sound) (e : LedgerEvent) :
    (w.happen e).LocksOwned := by
  intro k id hk
  rcases World.happen_cases hw e with ⟨name, s, -, hs, hlocks, hopen⟩ |
    ⟨name, s, s', hs, hgrants, hid, hopen⟩ | ⟨hlocks, hopen⟩
  · -- what is still locked does not belong to the session that has ended
    rw [hlocks] at hk
    have hk' : (if w.ledger.locks k = some s.id then none else w.ledger.locks k) = some id := hk
    split at hk'
    · cases hk'
    next hne =>
      obtain ⟨owner, t, ht, rfl⟩ := h k id hk'
      have hother : owner ≠ name := fun heq => by
        rw [heq, hs] at ht
        cases ht
        exact hne hk'
      exact ⟨owner, t, (hopen owner hother).trans ht, rfl⟩
  · rcases hgrants.locks k with hsame | ⟨hnew, -⟩
    · obtain ⟨owner, t, ht, rfl⟩ := h k id (hsame.symm.trans hk)
      by_cases howner : owner = name
      · rw [howner, hs] at ht
        cases ht
        exact ⟨name, s', (hopen name).trans (if_pos rfl), hid⟩
      · exact ⟨owner, t, (hopen owner).trans ((if_neg howner).trans ht), rfl⟩
    · cases hnew.symm.trans hk
      exact ⟨name, s', (hopen name).trans (if_pos rfl), hid⟩
  · rw [hlocks] at hk
    obtain ⟨owner, t, ht, hid⟩ := h k id hk
    exact ⟨owner, t, hopen owner t ht, hid⟩

theorem Logged.locksOwned {around : Surroundings} {log : List Note} (h : Logged around w log) :
    w.LocksOwned := by
  induction h with
  | start => exact fun k id hk => nomatch hk
  | step h e ih => exact ih.happen h.traced.sound e

/-! ## A session keeps its locks -/

/-- The session with this number is open under the name and has locked the row. -/
def Holds (w : World) (name : String) (id : SessionId) (k : LockKey) : Prop :=
  (∃ s, w.open? name = some s ∧ s.id = id) ∧ w.ledger.locks k = some id

/-- The world after a list of events. -/
def happenAll (w : World) (es : List LedgerEvent) : World := es.foldl happen w

theorem Sound.happenAll (h : w.Sound) (es : List LedgerEvent) : (w.happenAll es).Sound := by
  induction es generalizing w with
  | nil => exact h
  | cons e es ih => exact ih (h.happen e)

theorem Holds.happen {id : SessionId} {k : LockKey} (h : w.Holds name id k) (hw : w.Sound)
    (he : ¬ e.Ends name) : (w.happen e).Holds name id k := by
  obtain ⟨⟨s, hs, rfl⟩, hk⟩ := h
  rcases World.happen_cases hw e with ⟨other, t, hends, ht, hlocks, hopen⟩ |
    ⟨other, t, t', ht, hgrants, hid, hopen⟩ | ⟨hlocks, hopen⟩
  · have hne : name ≠ other := fun heq => he (heq ▸ hends)
    refine ⟨⟨s, (hopen name hne).trans hs, rfl⟩, ?_⟩
    rw [hlocks]
    exact Ledger.release_other (hw.id_ne hne hs ht) hk
  · by_cases hname : name = other
    · cases hname
      cases hs.symm.trans ht
      exact ⟨⟨t', (hopen name).trans (if_pos rfl), hid⟩, hgrants.locks_own hk⟩
    · refine ⟨⟨s, (hopen name).trans ((if_neg hname).trans hs), rfl⟩, ?_⟩
      exact (hgrants.locks_other (hw.id_ne hname hs ht) k).2 hk
  · exact ⟨⟨s, hopen name s hs, rfl⟩, by rw [hlocks, hk]⟩

/-- **Until its session ends**, a lock stays. -/
theorem Holds.happenAll {id : SessionId} {k : LockKey} (h : w.Holds name id k) (hw : w.Sound)
    {es : List LedgerEvent} (hes : ∀ e ∈ es, ¬ e.Ends name) : (w.happenAll es).Holds name id k := by
  induction es generalizing w with
  | nil => exact h
  | cons e es ih =>
    exact ih (h.happen hw (hes e List.mem_cons_self)) (hw.happen e)
      fun e' he' => hes e' (List.mem_cons_of_mem _ he')

/-! ## Locked finds -/

/-- What a find that locks is to do on a world: what it answers, seeing these tables, and which locks
there are afterwards. -/
structure FindsLocked (w : World) (name : String) (s : Session) {root : Root} (q : Query root)
    (seen : Tables) (answer : Except Failure (List root.Row)) (w' : World) : Prop where
  /-- It succeeds unless another open session has locked one of its rows. -/
  succeeds_iff : answer = .ok (root.inOrder (q.select seen)) ↔
    ∀ k ∈ q.lockKeys seen, ∀ other t, other ≠ name → w.open? other = some t →
      w.ledger.locks k ≠ some t.id
  /-- Then it has locked its rows and no others. -/
  locks : answer = .ok (root.inOrder (q.select seen)) →
    ∀ k, w'.ledger.locks k = if k ∈ q.lockKeys seen then some s.id else w.ledger.locks k
  /-- They stay locked until the session ends. -/
  holds : answer = .ok (root.inOrder (q.select seen)) →
    ∀ k ∈ q.lockKeys seen, ∀ es : List LedgerEvent, (∀ e ∈ es, ¬ e.Ends name) →
      (w'.happenAll es).Holds name s.id k
  /-- Otherwise it names a row that it could not lock, and has locked none. -/
  refused : answer ≠ .ok (root.inOrder (q.select seen)) →
    (∃ row ∈ q.select seen,
      answer = .error (.refused (.lockConflict (.row (root.idOf row) root.table)))) ∧
    w'.ledger.locks = w.ledger.locks

/-- A row is taken if and only if another open session has locked it. -/
theorem taken_iff (hw : w.Sound) (howned : w.LocksOwned) (hs : w.open? name = some s) {k : LockKey} :
    w.ledger.taken s.id k = true ↔
      ∃ other t, other ≠ name ∧ w.open? other = some t ∧ w.ledger.locks k = some t.id := by
  rw [Ledger.taken_eq_true]
  constructor
  · rintro ⟨id, hk, hne⟩
    obtain ⟨other, t, ht, rfl⟩ := howned k id hk
    refine ⟨other, t, fun heq => hne ?_, ht, hk⟩
    rw [heq, hs] at ht
    cases ht
    rfl
  · rintro ⟨other, t, hne, ht, hk⟩
    exact ⟨t.id, hk, hw.id_ne hne ht hs⟩

theorem findsLocked (hw : w.Sound) (howned : w.LocksOwned) (hs : w.open? name = some s)
    {root : Root} {q : Query root} (hq : q.locked = true) : ∃ answer w',
      w.run name none (Program.request (.store (.find root q))) = some (answer, w') ∧
        w.FindsLocked name s q (w.ledger.tables.apply s.changes) answer w' := by
  obtain ⟨w', hrun, hhappen, hledger, hopen⟩ := run_call hs (.find root q)
  refine ⟨_, w', hrun, ?_⟩
  have sound' : w'.Sound := hw.run hrun
  have id_eq : (s.answer w.ledger (.find root q)).2.2.id = s.id :=
    Ledger.Hosts.answer_id ⟨hw.keyed, hw.within, hw.fits name s hs⟩ _
  have hopen' := (hopen name).trans (if_pos rfl)
  rcases s.answer_find_locked w.ledger hq with ⟨hfree, answer_eq⟩ | ⟨row, hrow, htaken, answer_eq⟩
  · have locks_eq : ∀ k, w'.ledger.locks k =
        if k ∈ q.lockKeys (w.ledger.tables.apply s.changes) then some s.id
        else w.ledger.locks k := fun k => by
      rw [hledger, answer_eq]
    rw [answer_eq]
    refine ⟨⟨fun _ k hk other t hne ht hlocked => ?_, fun _ => rfl⟩, fun _ => locks_eq, ?_,
      fun hne => absurd rfl hne⟩
    · have := (taken_iff hw howned hs).2 ⟨other, t, hne, ht, hlocked⟩
      rw [hfree k hk] at this
      cases this
    · intro _ k hk es hes
      exact Holds.happenAll ⟨⟨_, hopen', id_eq⟩, (locks_eq k).trans (if_pos hk)⟩ sound' hes
  · rw [answer_eq]
    refine ⟨⟨fun hok => (nomatch hok), fun hall => ?_⟩, fun hok => (nomatch hok),
      fun hok => (nomatch hok), fun _ => ⟨⟨row, hrow, rfl⟩, by rw [hledger, answer_eq]⟩⟩
    obtain ⟨other, t, hne, ht, hlocked⟩ := (taken_iff hw howned hs).1 htaken
    exact absurd hlocked (hall _ (List.mem_map.2 ⟨row, hrow, rfl⟩) other t hne ht)

/-! ## The life of locks -/

/-- **Locks are exclusive, all or nothing, and never left behind.** In every world that can be reached, by
any events of any number of sessions, every lock belongs to an open session. A find that locks succeeds
if and only if no other open session has locked one of its rows; then it has locked just these, and
they stay locked until the session ends, and otherwise no lock has changed. Any other statement that
reads is answered as if there were no locks. However a session ends, its own locks go and no others. -/
theorem locked_while_open {around : Surroundings} {log : List Note} (h : Logged around w log) :
    w.LocksOwned ∧ ∀ name s, w.open? name = some s →
      ∃ seen, w.ledger.tables.ReadBy (Log.puts log s.id) seen ∧
        (∀ (root : Root) (q : Query root), q.locked = true → ∃ answer w',
          w.run name none (Program.request (.store (.find root q))) = some (answer, w') ∧
            w.FindsLocked name s q seen answer w') ∧
        (∀ c : StoreCall, c.reads = true → c.locks = false → ∃ answer w',
          w.run name none (Program.request (.store c)) = some (answer, w') ∧
            c.answerOn seen (fun _ => false) = some answer ∧ w'.ledger.locks = w.ledger.locks) ∧
        ∀ e : LedgerEvent, e.Ends name → ∀ k, (w.happen e).ledger.locks k =
          if w.ledger.locks k = some s.id then none else w.ledger.locks k := by
  refine ⟨h.locksOwned, fun name s hs => ?_⟩
  have seen_eq := (h.traced.sessions name s hs).apply_eq w.ledger.tables
  refine ⟨_, w.ledger.tables.readBy_putAll (Log.puts log s.id), fun root q hq => ?_,
    fun c hreads hc => ?_, fun e he k => ?_⟩
  · rw [← seen_eq]
    exact findsLocked h.traced.sound h.locksOwned hs hq
  · obtain ⟨w', hrun, -, hledger, -⟩ := run_call hs c
    refine ⟨_, w', hrun, ?_, ?_⟩
    · rw [← seen_eq, StoreCall.answerOn_of_not_locks hc _ _ (w.ledger.taken s.id)]
      exact s.answerOn_eq w.ledger hreads
    · rw [hledger, s.answer_locks w.ledger hc]
  · rw [locks_of_ends he hs]
    rfl

/-- A session has locked the only invoice, so another one that wants to lock it is refused and gets no
lock. Once the first session is rolled back, the invoice is free. -/
theorem locked_while_open_contended : ∃ w log s seen answer w',
    Logged { clock := ⟨⟨0, 0, by decide⟩⟩ } w log ∧ w.open? "second" = some s ∧
      (∃ first t, w.open? first = some t ∧ w.ledger.locks ⟨.invoice, 1⟩ = some t.id) ∧
      w.run "second" none (Program.request (.store (.find .invoice (.start .invoice true)))) =
        some (answer, w') ∧
      answer ≠ .ok (Root.inOrder .invoice ((Query.start .invoice true).select seen)) ∧
      w'.ledger.locks = w.ledger.locks ∧
      (w.happen (.rollback "first")).ledger.locks ⟨.invoice, 1⟩ = none := by
  have stored : Logged { clock := ⟨⟨0, 0, by decide⟩⟩ } _ _ :=
    ((Logged.start.step (.begin "seed")).step (.call "seed" (.insertInvoice default))).step
      (.commit "seed")
  have h := ((stored.step (.begin "first")).step
    (.call "first" (.find .invoice (.start .invoice true)))).step (.begin "second")
  obtain ⟨owned, each⟩ := locked_while_open h
  obtain ⟨-, -, -, -, released⟩ := each "first" _ rfl
  obtain ⟨seen, hread, finds, -⟩ := each "second" _ rfl
  obtain ⟨answer, w', hrun, hfinds⟩ := finds .invoice (.start .invoice true) rfl
  -- the second session sees the committed invoice, which the first has locked
  cases hread.unique (Tables.readBy_putAll _ _)
  have refused := fun hok => hfinds.succeeds_iff.1 hok ⟨.invoice, 1⟩ (by decide) "first" _ (by decide)
    rfl (by decide)
  refine ⟨_, _, _, _, answer, w', h, rfl, ?_, hrun, refused, (hfinds.refused refused).2, ?_⟩
  · obtain ⟨first, t, ht, hid⟩ := owned ⟨.invoice, 1⟩ 2 (by decide)
    exact ⟨first, t, ht, by rw [hid]; decide⟩
  · rw [released (.rollback "first") rfl]
    decide

end World

end TeamLedger
