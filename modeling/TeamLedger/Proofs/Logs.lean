/-
The history of all sessions as a log.

Every event on a world leaves notes in a log: that a session read, that it wrote
a row, that it committed. The log knows nothing of versions, snapshots or
changes. A row that a session has written is overtaken when, after the last read
that the session made before it first wrote the row, another session committed a
write to it (`Log.Overtaken`). As long as a session has not written the row, what
counts is its last read (`Log.Stale`).

A log grows note by note, so for each of these notions there is one equivalence
that says what one more note makes of it.
-/
import TeamLedger.Proofs.Sessions

set_option autoImplicit false

namespace TeamLedger

/-! ## Events and the notes that they leave -/

/-- Something that happens on a world: a session begins, makes a call or ends, or a team is added. -/
inductive LedgerEvent
  | begin (name : String)
  | call (name : String) (c : StoreCall)
  | commit (name : String)
  | rollback (name : String)
  | addTeam (name : String) (kind : Team.Kind)

/-- What is noted of a session. Beginning counts as reading. -/
inductive Note
  | read (session : SessionId)
  | wrote (session : SessionId) (put : Put)
  | committed (session : SessionId)

/-- The session that a note is about. -/
def Note.session : Note → SessionId
  | read id | wrote id _ | committed id => id

namespace World

/-- The world after an event. A call in a session that is not open does nothing. -/
def happen (w : World) : LedgerEvent → World
  | .begin name => w.begin name
  | .call name c => ((w.run name none (Program.request (.store c))).map (·.2)).getD w
  | .commit name => (w.commit name).2
  | .rollback name => w.rollback name
  | .addTeam name kind => (w.addTeam name kind).2

/-- The notes that a call leaves: a read if it is a statement that reads, even if it fails, and the
rows it writes. -/
def callNotes (w : World) (s : Session) (c : StoreCall) : List Note :=
  (if c.reads then [.read s.id] else []) ++ (s.writes w.ledger c).map (.wrote s.id)

/-- The notes that an event leaves. -/
def notes (w : World) : LedgerEvent → List Note
  | .begin _ => [.read (w.ledger.lastSession + 1)]
  | .call name c => (w.open? name).elim [] fun s => w.callNotes s c
  | .commit name =>
    (w.open? name).elim [] fun s =>
      match (w.commit name).1 with
      | .ok _ => [.committed s.id]
      | .error _ => []
  | .rollback _ | .addTeam .. => []

/-- The world can be reached, beginning with an empty ledger and no sessions, and the log holds the
notes of the events on the way. -/
inductive Logged (around : Surroundings) : World → List Note → Prop
  | start : Logged around { around } []
  | step {w : World} {log : List Note} (h : Logged around w log) (e : LedgerEvent) :
      Logged around (w.happen e) (log ++ w.notes e)

end World

/-! ## Reading a log -/

namespace Log

variable (log : List Note) (id : SessionId) (k : RowKey)

/-- The session read at this position. -/
def ReadAt (n : Nat) : Prop := log[n]? = some (.read id)

/-- The session wrote the row at this position. -/
def WroteAt (n : Nat) : Prop := ∃ p, log[n]? = some (.wrote id p) ∧ p.key? = some k

/-- At this position the session committed, and the row was among those it had written. -/
def CommittedAt (n : Nat) : Prop := log[n]? = some (.committed id) ∧ ∃ m, m < n ∧ WroteAt log id k m

/-- The session's last read before a position. -/
def LastReadBefore (n r : Nat) : Prop :=
  ReadAt log id r ∧ r < n ∧ ∀ m, r < m → m < n → ¬ ReadAt log id m

/-- The position at which the session wrote the row for the first time. -/
def FirstWriteAt (n : Nat) : Prop := WroteAt log id k n ∧ ∀ m, m < n → ¬ WroteAt log id k m

/-- Another session committed a write to the row after a position. -/
def CommittedSince (r : Nat) : Prop := ∃ n other, r < n ∧ other ≠ id ∧ CommittedAt log other k n

/-- **The row is overtaken.** The session wrote it, and after the last read that came before the
first such write another session committed a write to it. -/
def Overtaken : Prop :=
  ∃ w r, FirstWriteAt log id k w ∧ LastReadBefore log id w r ∧ CommittedSince log id k r

/-- What the session has written, in order. -/
def puts : List Put :=
  log.filterMap fun
    | .wrote session p => if session = id then some p else none
    | .read _ | .committed _ => none

/-- The version that the session noted for the row is no longer the current one: the row is overtaken
or, when the session has not written it, another session has committed a write since the last read. -/
def Stale : Prop :=
  Overtaken log id k ∨
    (∀ n, ¬ WroteAt log id k n) ∧ ∃ r, LastReadBefore log id log.length r ∧ CommittedSince log id k r

end Log

namespace Log

variable {log : List Note} {id : SessionId} {k : RowKey}

/-! ## One more note -/

theorem lt_length {n : Nat} {x : Note} (h : log[n]? = some x) : n < log.length :=
  (List.getElem?_eq_some_iff.1 h).1

theorem get_snoc {x y : Note} {n : Nat} :
    (log ++ [x])[n]? = some y ↔ log[n]? = some y ∨ n = log.length ∧ x = y := by
  rcases Nat.lt_trichotomy n log.length with hn | rfl | hn
  · rw [List.getElem?_append_left hn]
    constructor
    · exact .inl
    · rintro (h | ⟨rfl, -⟩)
      · exact h
      · exact absurd hn (Nat.lt_irrefl _)
  · rw [List.getElem?_concat_length, Option.some.injEq]
    constructor
    · exact fun h => .inr ⟨rfl, h⟩
    · rintro (h | ⟨-, h⟩)
      · exact absurd (lt_length h) (Nat.lt_irrefl _)
      · exact h
  · rw [List.getElem?_eq_none (by rw [List.length_append, List.length_singleton]; omega)]
    constructor
    · intro h
      cases h
    · rintro (h | ⟨rfl, -⟩)
      · exact absurd (lt_length h) (by omega)
      · exact absurd hn (Nat.lt_irrefl _)

theorem readAt_snoc {x : Note} {n : Nat} :
    ReadAt (log ++ [x]) id n ↔ ReadAt log id n ∨ n = log.length ∧ x = .read id := get_snoc

theorem wroteAt_snoc {x : Note} {n : Nat} :
    WroteAt (log ++ [x]) id k n ↔
      WroteAt log id k n ∨ n = log.length ∧ ∃ p, x = .wrote id p ∧ p.key? = some k := by
  unfold WroteAt
  simp only [get_snoc]
  constructor
  · rintro ⟨p, h | ⟨hn, h⟩, hp⟩
    · exact .inl ⟨p, h, hp⟩
    · exact .inr ⟨hn, p, h, hp⟩
  · rintro (⟨p, h, hp⟩ | ⟨hn, p, h, hp⟩)
    · exact ⟨p, .inl h, hp⟩
    · exact ⟨p, .inr ⟨hn, h⟩, hp⟩

theorem committedAt_snoc {x : Note} {n : Nat} :
    CommittedAt (log ++ [x]) id k n ↔ CommittedAt log id k n ∨
      n = log.length ∧ x = .committed id ∧ ∃ m, WroteAt log id k m := by
  -- what was written before a position does not depend on later notes
  have before {m : Nat} (hm : m < log.length) :
      WroteAt (log ++ [x]) id k m ↔ WroteAt log id k m := by
    rw [wroteAt_snoc]
    constructor
    · rintro (h | ⟨rfl, -⟩)
      · exact h
      · exact absurd hm (Nat.lt_irrefl _)
    · exact .inl
  unfold CommittedAt
  rw [get_snoc]
  constructor
  · rintro ⟨h | ⟨rfl, rfl⟩, m, hm, hw⟩
    · exact .inl ⟨h, m, hm, (before (Nat.lt_trans hm (lt_length h))).1 hw⟩
    · exact .inr ⟨rfl, rfl, m, (before hm).1 hw⟩
  · rintro (⟨h, m, hm, hw⟩ | ⟨rfl, rfl, m, hw⟩)
    · exact ⟨.inl h, m, hm, wroteAt_snoc.2 (.inl hw)⟩
    · have hm : m < log.length := by
        obtain ⟨p, hp, -⟩ := hw
        exact lt_length hp
      exact ⟨.inr ⟨rfl, rfl⟩, m, hm, wroteAt_snoc.2 (.inl hw)⟩

theorem WroteAt.lt_length {n : Nat} (h : WroteAt log id k n) : n < log.length := by
  obtain ⟨p, hp, -⟩ := h
  exact Log.lt_length hp

theorem CommittedAt.lt_length {n : Nat} (h : CommittedAt log id k n) : n < log.length :=
  Log.lt_length h.1

/-- The first write stays the first one. -/
theorem firstWriteAt_snoc {x : Note} {n : Nat} :
    FirstWriteAt (log ++ [x]) id k n ↔ FirstWriteAt log id k n ∨
      n = log.length ∧ (∀ m, ¬ WroteAt log id k m) ∧ ∃ p, x = .wrote id p ∧ p.key? = some k := by
  unfold FirstWriteAt
  simp only [wroteAt_snoc]
  constructor
  · rintro ⟨h | ⟨rfl, h⟩, hfirst⟩
    · exact .inl ⟨h, fun m hm hw => hfirst m hm (.inl hw)⟩
    · exact .inr ⟨rfl, fun m hw => hfirst m hw.lt_length (.inl hw), h⟩
  · rintro (⟨h, hfirst⟩ | ⟨rfl, hfirst, h⟩)
    · refine ⟨.inl h, fun m hm hw => ?_⟩
      rcases hw with hw | ⟨rfl, -⟩
      · exact hfirst m hm hw
      · exact absurd h.lt_length (by omega)
    · refine ⟨.inr ⟨rfl, h⟩, fun m hm hw => ?_⟩
      rcases hw with hw | ⟨rfl, -⟩
      · exact hfirst m hw
      · exact absurd hm (Nat.lt_irrefl _)

/-- What was the last read before a position that was there already still is. -/
theorem lastReadBefore_snoc {x : Note} {n r : Nat} (hn : n ≤ log.length) :
    LastReadBefore (log ++ [x]) id n r ↔ LastReadBefore log id n r := by
  unfold LastReadBefore
  simp only [readAt_snoc]
  constructor
  · rintro ⟨h, hr, hlast⟩
    refine ⟨?_, hr, fun m hrm hm h => hlast m hrm hm (.inl h)⟩
    rcases h with h | ⟨rfl, -⟩
    · exact h
    · exact absurd hr (by omega)
  · rintro ⟨h, hr, hlast⟩
    refine ⟨.inl h, hr, fun m hrm hm h => ?_⟩
    rcases h with h | ⟨rfl, -⟩
    · exact hlast m hrm hm h
    · exact absurd hm (by omega)

/-- The last read of a longer log, when the new note is no read of the session. -/
theorem lastRead_snoc {x : Note} {r : Nat} (hx : x ≠ .read id) :
    LastReadBefore (log ++ [x]) id (log ++ [x]).length r ↔ LastReadBefore log id log.length r := by
  rw [List.length_append, List.length_singleton]
  unfold LastReadBefore
  simp only [readAt_snoc, hx, and_false, or_false]
  constructor
  · rintro ⟨h, -, hlast⟩
    exact ⟨h, lt_length h, fun m hrm hm => hlast m hrm (by omega)⟩
  · rintro ⟨h, hr, hlast⟩
    exact ⟨h, by omega, fun m hrm hm hread => hlast m hrm (lt_length hread) hread⟩

theorem committedSince_snoc {x : Note} {r : Nat} (hr : r < log.length) :
    CommittedSince (log ++ [x]) id k r ↔ CommittedSince log id k r ∨
      ∃ other, other ≠ id ∧ x = .committed other ∧ ∃ m, WroteAt log other k m := by
  unfold CommittedSince
  simp only [committedAt_snoc]
  constructor
  · rintro ⟨n, other, hrn, hne, h | ⟨-, hx, hw⟩⟩
    · exact .inl ⟨n, other, hrn, hne, h⟩
    · exact .inr ⟨other, hne, hx, hw⟩
  · rintro (⟨n, other, hrn, hne, h⟩ | ⟨other, hne, hx, hw⟩)
    · exact ⟨n, other, hrn, hne, .inl h⟩
    · exact ⟨log.length, other, hr, hne, .inr ⟨rfl, hx, hw⟩⟩

/-! ## What one more note changes for a session -/

/-- The session has read, and it read before it first wrote any row. -/
structure Opened (log : List Note) (id : SessionId) : Prop where
  read : ∃ r, LastReadBefore log id log.length r
  before : ∀ k n, WroteAt log id k n → ∃ w r, FirstWriteAt log id k w ∧ LastReadBefore log id w r

theorem Opened.snoc {x : Note} (h : Opened log id) (hx : x ≠ .read id) :
    Opened (log ++ [x]) id where
  read := by
    obtain ⟨r, hr⟩ := h.read
    exact ⟨r, (lastRead_snoc hx).2 hr⟩
  before k n hn := by
    by_cases hold : ∃ m, WroteAt log id k m
    · obtain ⟨m, hm⟩ := hold
      obtain ⟨w, r, hw, hr⟩ := h.before k m hm
      have hle := Nat.le_of_lt hw.1.lt_length
      exact ⟨w, r, firstWriteAt_snoc.2 (.inl hw), (lastReadBefore_snoc hle).2 hr⟩
    · -- the new note is the first write, and the last read comes before it
      rcases wroteAt_snoc.1 hn with hn | ⟨-, hp⟩
      · exact absurd ⟨n, hn⟩ hold
      · obtain ⟨r, hr⟩ := h.read
        refine ⟨log.length, r, firstWriteAt_snoc.2 (.inr ⟨rfl, fun m hm => hold ⟨m, hm⟩, hp⟩), ?_⟩
        exact (lastReadBefore_snoc (Nat.le_refl _)).2 hr

theorem Opened.snoc_read (h : ∀ k n, WroteAt log id k n →
    ∃ w r, FirstWriteAt log id k w ∧ LastReadBefore log id w r) : Opened (log ++ [.read id]) id where
  read := by
    refine ⟨log.length, readAt_snoc.2 (.inr ⟨rfl, rfl⟩), ?_, fun m hm hlt hread => ?_⟩
    · rw [List.length_append, List.length_singleton]
      omega
    · rw [List.length_append, List.length_singleton] at hlt
      omega
  before k n hn := by
    rcases wroteAt_snoc.1 hn with hn | ⟨-, p, hp, -⟩
    · obtain ⟨w, r, hw, hr⟩ := h k n hn
      have hle := Nat.le_of_lt hw.1.lt_length
      exact ⟨w, r, firstWriteAt_snoc.2 (.inl hw), (lastReadBefore_snoc hle).2 hr⟩
    · cases hp

theorem Overtaken.wrote (h : Overtaken log id k) : ∃ n, WroteAt log id k n := by
  obtain ⟨w, r, hw, -⟩ := h
  exact ⟨w, hw.1⟩

/-- Once the session has written the row, being stale is being overtaken. -/
theorem stale_iff_overtaken (h : ∃ n, WroteAt log id k n) : Stale log id k ↔ Overtaken log id k := by
  unfold Stale
  constructor
  · rintro (ho | ⟨hnone, -⟩)
    · exact ho
    · obtain ⟨n, hn⟩ := h
      exact absurd hn (hnone n)
  · exact .inl

theorem overtaken_snoc {x : Note} (hx : ∀ p, x = .wrote id p → p.key? = some k →
    ∃ n, WroteAt log id k n) :
    Overtaken (log ++ [x]) id k ↔ Overtaken log id k ∨
      (∃ w r, FirstWriteAt log id k w ∧ LastReadBefore log id w r) ∧
        ∃ other, other ≠ id ∧ x = .committed other ∧ ∃ m, WroteAt log other k m := by
  unfold Overtaken
  constructor
  · rintro ⟨w, r, hw, hr, hc⟩
    rcases firstWriteAt_snoc.1 hw with hw | ⟨-, hnone, p, hp, hkey⟩
    · have hle := Nat.le_of_lt hw.1.lt_length
      have hr := (lastReadBefore_snoc hle).1 hr
      rcases (committedSince_snoc (lt_length hr.1)).1 hc with hc | hc
      · exact .inl ⟨w, r, hw, hr, hc⟩
      · exact .inr ⟨⟨w, r, hw, hr⟩, hc⟩
    · obtain ⟨n, hn⟩ := hx p hp hkey
      exact absurd hn (hnone n)
  · rintro (⟨w, r, hw, hr, hc⟩ | ⟨⟨w, r, hw, hr⟩, hc⟩)
    all_goals
      have hle := Nat.le_of_lt hw.1.lt_length
      refine ⟨w, r, firstWriteAt_snoc.2 (.inl hw), (lastReadBefore_snoc hle).2 hr, ?_⟩
      exact (committedSince_snoc (lt_length hr.1)).2 (by simp only [hc, true_or, or_true])

/-- **A note that is neither a read of the session nor a commit** changes nothing. When it is the
session's first write to the row, the commits since the last read become the commits since the last
read before the first write. -/
theorem stale_snoc {x : Note} (hread : x ≠ .read id)
    (hcommit : ∀ other, x ≠ .committed other) : Stale (log ++ [x]) id k ↔ Stale log id k := by
  have since_iff {r : Nat} (hr : r < log.length) :
      CommittedSince (log ++ [x]) id k r ↔ CommittedSince log id k r := by
    rw [committedSince_snoc hr]
    constructor
    · rintro (hc | ⟨other, -, hx, -⟩)
      · exact hc
      · exact absurd hx (hcommit other)
    · exact .inl
  by_cases hold : ∃ n, WroteAt log id k n
  · have hnew : ∃ n, WroteAt (log ++ [x]) id k n := by
      obtain ⟨n, hn⟩ := hold
      exact ⟨n, wroteAt_snoc.2 (.inl hn)⟩
    rw [stale_iff_overtaken hold, stale_iff_overtaken hnew, overtaken_snoc fun _ _ _ => hold]
    constructor
    · rintro (ho | ⟨-, other, -, hx, -⟩)
      · exact ho
      · exact absurd hx (hcommit other)
    · exact .inl
  · have hnone : ∀ n, ¬ WroteAt log id k n := fun n hn => hold ⟨n, hn⟩
    -- if the note is the first write, the last read of the log is the last one before it
    by_cases hfirst : ∃ p, x = .wrote id p ∧ p.key? = some k
    · have hw : FirstWriteAt (log ++ [x]) id k log.length :=
        firstWriteAt_snoc.2 (.inr ⟨rfl, hnone, hfirst⟩)
      rw [stale_iff_overtaken ⟨_, hw.1⟩]
      constructor
      · rintro ⟨w, r, hw, hr, hc⟩
        rcases firstWriteAt_snoc.1 hw with hw | ⟨rfl, -, -⟩
        · exact absurd hw.1 (hnone w)
        · have hr := (lastReadBefore_snoc (Nat.le_refl _)).1 hr
          exact .inr ⟨hnone, r, hr, (since_iff hr.2.1).1 hc⟩
      · rintro (ho | ⟨-, r, hr, hc⟩)
        · exact absurd ho.wrote hold
        · exact ⟨_, r, hw, (lastReadBefore_snoc (Nat.le_refl _)).2 hr, (since_iff hr.2.1).2 hc⟩
    · have hnone' : ∀ n, ¬ WroteAt (log ++ [x]) id k n := by
        intro n hn
        rcases wroteAt_snoc.1 hn with hn | ⟨-, hp⟩
        · exact hnone n hn
        · exact hfirst hp
      constructor
      · rintro (ho | ⟨-, r, hr, hc⟩)
        · obtain ⟨n, hn⟩ := ho.wrote
          exact absurd hn (hnone' n)
        · have hr := (lastRead_snoc hread).1 hr
          exact .inr ⟨hnone, r, hr, (since_iff hr.2.1).1 hc⟩
      · rintro (ho | ⟨-, r, hr, hc⟩)
        · exact absurd ho.wrote hold
        · exact .inr ⟨hnone', r, (lastRead_snoc hread).2 hr, (since_iff hr.2.1).2 hc⟩

/-- **A read of the session** leaves stale only what was overtaken. -/
theorem stale_snoc_read : Stale (log ++ [.read id]) id k ↔ Overtaken log id k := by
  have overtaken_iff : Overtaken (log ++ [.read id]) id k ↔ Overtaken log id k := by
    rw [overtaken_snoc fun _ hx => by cases hx]
    constructor
    · rintro (ho | ⟨-, other, -, hx, -⟩)
      · exact ho
      · cases hx
    · exact .inl
  unfold Stale
  rw [overtaken_iff]
  constructor
  · rintro (ho | ⟨-, r, hr, n, other, hrn, -, hc⟩)
    · exact ho
    · -- the read is the last note, so no commit comes after it
      have hn := hc.lt_length
      rw [List.length_append, List.length_singleton] at hn
      have hlast : log.length ≤ r := by
        refine Nat.le_of_not_lt fun hlt => ?_
        refine hr.2.2 log.length hlt ?_ (readAt_snoc.2 (.inr ⟨rfl, rfl⟩))
        rw [List.length_append, List.length_singleton]
        omega
      omega
  · exact .inl

/-- **A commit of another session** makes stale what that session had written. -/
theorem stale_snoc_committed {other : SessionId} (h : Opened log id) (hne : other ≠ id) :
    Stale (log ++ [.committed other]) id k ↔ Stale log id k ∨ ∃ m, WroteAt log other k m := by
  have wrote_iff {n : Nat} : WroteAt (log ++ [.committed other]) id k n ↔ WroteAt log id k n := by
    rw [wroteAt_snoc]
    constructor
    · rintro (hw | ⟨-, p, hp, -⟩)
      · exact hw
      · cases hp
    · exact .inl
  by_cases hold : ∃ n, WroteAt log id k n
  · rw [stale_iff_overtaken hold, stale_iff_overtaken (by simpa only [wrote_iff] using hold),
      overtaken_snoc fun _ hx => by cases hx]
    constructor
    · rintro (ho | ⟨-, other', -, ⟨⟩, hw⟩)
      · exact .inl ho
      · exact .inr hw
    · rintro (ho | hw)
      · exact .inl ho
      · obtain ⟨n, hn⟩ := hold
        exact .inr ⟨h.before k n hn, other, hne, rfl, hw⟩
  · have hnone : ∀ n, ¬ WroteAt log id k n := fun n hn => hold ⟨n, hn⟩
    unfold Stale
    simp only [wrote_iff, hnone, not_false_eq_true, implies_true, true_and]
    constructor
    · rintro (ho | ⟨r, hr, hc⟩)
      · obtain ⟨n, hn⟩ := ho.wrote
        exact absurd (wrote_iff.1 hn) (hnone n)
      · have hr := (lastRead_snoc (by simp)).1 hr
        rcases (committedSince_snoc hr.2.1).1 hc with hc | ⟨other', -, ⟨⟩, hw⟩
        · exact .inl (.inr ⟨r, hr, hc⟩)
        · exact .inr hw
    · rintro ((ho | ⟨r, hr, hc⟩) | hw)
      · exact absurd ho.wrote hold
      · exact .inr ⟨r, (lastRead_snoc (by simp)).2 hr, (committedSince_snoc hr.2.1).2 (.inl hc)⟩
      · obtain ⟨r, hr⟩ := h.read
        refine .inr ⟨r, (lastRead_snoc (by simp)).2 hr, ?_⟩
        exact (committedSince_snoc hr.2.1).2 (.inr ⟨other, hne, rfl, hw⟩)

/-! ## What a session has written -/

theorem mem_puts {p : Put} : p ∈ puts log id ↔ ∃ n : Nat, log[n]? = some (.wrote id p) := by
  rw [puts, List.mem_filterMap, ← List.mem_iff_getElem?]
  constructor
  · rintro ⟨x, hx, h⟩
    cases x with
    | wrote session q =>
      dsimp only at h
      split at h
      next hs =>
        cases h
        exact hs ▸ hx
      next => cases h
    | _ => cases h
  · exact fun h => ⟨_, h, if_pos rfl⟩

theorem exists_wroteAt : (∃ n, WroteAt log id k n) ↔ ∃ p ∈ puts log id, p.key? = some k := by
  simp only [mem_puts, WroteAt]
  constructor
  · rintro ⟨n, p, h, hp⟩
    exact ⟨p, ⟨n, h⟩, hp⟩
  · rintro ⟨p, ⟨n, h⟩, hp⟩
    exact ⟨n, p, h, hp⟩

theorem puts_append (log log' : List Note) : puts (log ++ log') id = puts log id ++ puts log' id :=
  List.filterMap_append

theorem puts_map_wrote (ps : List Put) : puts (ps.map (.wrote id)) id = ps := by
  unfold puts
  rw [List.filterMap_map]
  refine (congrArg (List.filterMap · ps) (funext fun p => ?_)).trans List.filterMap_some
  exact if_pos rfl

theorem puts_of_ne {log : List Note} (h : ∀ x ∈ log, x.session ≠ id) : puts log id = [] := by
  refine List.filterMap_eq_nil_iff.2 fun x hx => ?_
  cases x with
  | wrote session p => exact if_neg (h _ hx)
  | _ => rfl

end Log

end TeamLedger
