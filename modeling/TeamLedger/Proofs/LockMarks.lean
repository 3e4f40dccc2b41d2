/-
What runs tell of locks.

Runs leave marks: a find that locks has returned a row, a session has written a
row that it had found without holding its lock, a session has committed. While a
session holds a lock, a commit of the row by another one is marked as a trespass
(`Trespassed`). What the marks tell of a ledger and its sessions is put down in
`Ledger.Marked` and `Session.Marked`.

What counts most is `Ledger.Marked.bare_of_written`. A row that a session has
written it had found, or it is the one that added it. In the second case no other
session knows the row, let alone its lock, and this is where ids that are handed
out only once come in: a row without a version is in no table and was written by
one session at most.
-/
import TeamLedger.Proofs.Effects
import TeamLedger.Proofs.Locks
import TeamLedger.Proofs.Runs

set_option autoImplicit false

namespace TeamLedger

/-! ## Marks -/

/-- The lock of a row, if such rows can be locked. -/
def RowKey.lock? (k : RowKey) : Option LockKey :=
  match k.kind with
  | .invoice => some ⟨.invoice, k.id⟩
  | .submission => some ⟨.submission, k.id⟩
  | .limit => none

/-- The row is there. -/
def Tables.has (t : Tables) (k : RowKey) : Bool :=
  match k.kind with
  | .invoice => (t.invoices.get? k.id).isSome
  | .submission => (t.submissions.get? k.id).isSome
  | .limit => (t.limits.get? k.id).isSome

/-- The session has locked the row. -/
def Ledger.holds (l : Ledger) (id : SessionId) (k : RowKey) : Bool :=
  k.lock?.any fun key => l.locks key = some id

/-- What is remembered of a session. -/
inductive Mark
  /-- A find that locks has returned the row. -/
  | locked (session : SessionId) (key : LockKey)
  /-- The session has written the row, which it had found, without holding its lock. -/
  | bare (session : SessionId) (key : RowKey)
  | committed (session : SessionId)
deriving DecidableEq

/-- The session that a mark is about. -/
def Mark.session : Mark → SessionId
  | locked id _ | bare id _ | committed id => id

namespace Session

/-- The rows that a call has returned and locked. -/
def lockMarks (l : Ledger) (s : Session) : StoreCall → List Mark
  | .find root q =>
    match (s.answer l (.find root q)).1 with
    | .ok rows => if q.locked then rows.map fun row => .locked s.id ⟨root, root.idOf row⟩ else []
    | .error _ => []
  | _ => []

/-- The rows of its snapshot that the session writes by a call and has not locked. -/
def bareMarks (l : Ledger) (s : Session) (c : StoreCall) : List Mark :=
  (((s.writes l c).filterMap Put.key?).filter fun k => s.snapshot.has k && !l.holds s.id k).map
    (.bare s.id)

/-- The marks that a call leaves. -/
def marks (l : Ledger) (s : Session) (c : StoreCall) : List Mark :=
  s.lockMarks l c ++ s.bareMarks l c

end Session

/-- The marks that a program leaves, call by call. -/
def Program.marks {α : Type} : Program α → Ledger × Session → Surroundings → List Mark
  | done _, _, _ => []
  | ask request next, st, around =>
    let (answer, st', around') := Session.backend.respond st around request
    (match request with
      | .store c => st.2.marks st.1 c
      | _ => []) ++ marks (next answer) st' around'

namespace Floor

/-- The marks that an event leaves. -/
def marks (f : Floor) : Event → List Mark
  | .act name d => (f.world.open? name).elim [] fun s =>
      (d.program (f.desk name)).marks (f.world.ledger, s) f.world.around
  | .commit name => (f.world.open? name).elim [] fun s =>
      match (f.world.commit name).1 with
      | .ok _ => [.committed s.id]
      | .error _ => []
  | .begin _ | .rollback _ | .addTeam .. => []

/-- The floor can be reached by events of a kind, and the log holds the marks that they have left. -/
inductive Marked (kind : Floor → Event → Prop) : Floor → List Mark → Prop
  | start (around : Surroundings) : Marked kind { world := { around } } []
  | step {f : Floor} {log : List Mark} (h : Marked kind f log) (e : Event) (he : kind f e) :
      Marked kind (f.happen e) (log ++ f.marks e)

end Floor

/-- **A trespass.** The session had locked the row. After that another session committed, which had
written the row without holding its lock. -/
def Trespassed (log : List Mark) (id : SessionId) (k : RowKey) : Prop :=
  ∃ other before after key, log = before ++ .committed other :: after ∧ other ≠ id ∧
    k.lock? = some key ∧ .locked id key ∈ before ∧ .bare other k ∈ before

theorem Trespassed.append {log : List Mark} {id : SessionId} {k : RowKey}
    (h : Trespassed log id k) (more : List Mark) : Trespassed (log ++ more) id k := by
  obtain ⟨other, before, after, key, rfl, rest⟩ := h
  exact ⟨other, before, after ++ more, key, by simp, rest⟩

/-! ## Rows that are there -/

namespace Tables

variable {t u : Tables} {c : Changes} {k : RowKey}

theorem SameRow.has_eq (h : t.SameRow u k) : t.has k = u.has k := by
  obtain ⟨kind, id⟩ := k
  cases kind <;> exact congrArg Option.isSome h

/-- A row under changes is there below them, or they write it. -/
theorem has_apply (h : (t.apply c).has k = true) : t.has k = true ∨ k ∈ c.written := by
  by_cases hk : k ∈ c.written
  · exact .inr hk
  · exact .inl ((t.sameRow_apply hk).has_eq ▸ h)

/-- Rows that can be locked are not taken away by writes. -/
theorem isSome_rows_putAll {root : Root} {id : Ident} (h : ((root.rows t).get? id).isSome)
    (ps : List Put) : ((root.rows (t.putAll ps)).get? id).isSome := by
  induction ps generalizing t with
  | nil => exact h
  | cons p ps ih =>
    refine ih ?_
    have inserted {α : Type} {r : Rows α} {k : Ident} {a : α} (h : (r.get? id).isSome) :
        ((r.insert k a).get? id).isSome := by
      rw [Rows.get?_insert]
      split
      · rfl
      · exact h
    cases root <;> cases p <;> first | exact h | exact inserted h

/-- Nor are they by changes laid in between. -/
theorem isSome_rows_between {root : Root} {id : Ident}
    (h : ((root.rows (t.apply c)).get? id).isSome) (d : Changes) :
    ((root.rows ((t.apply d).apply c)).get? id).isSome := by
  have between {α : Type} {r mid upper : Rows α} (h : ((r.overlay upper).get? id).isSome) :
      (((r.overlay mid).overlay upper).get? id).isSome := by
    rw [Rows.get?_overlay, Option.isSome_or] at h ⊢
    rw [Rows.get?_overlay, Option.isSome_or]
    cases hu : (upper.get? id).isSome
    · rw [hu, Bool.false_or] at h
      rw [h, Bool.or_true, Bool.or_true]
    · rw [Bool.true_or]
  cases root <;> exact between h

end Tables

theorem Changes.uses_of_mem_written {c : Changes} {k : RowKey} (h : k ∈ c.written) :
    c.Uses k.id := by
  obtain ⟨kind, id⟩ := k
  rw [Changes.mem_written] at h
  unfold Changes.Uses
  cases kind with
  | limit => rcases h with h | h <;> simp [h]
  | _ => simp [show Option.isSome _ = true from h]

theorem Put.Revises.has {t : Tables} {p : Put} {k : RowKey} (h : p.Revises t)
    (hk : p.key? = some k) : t.has k = true := by
  cases p with
  | link | logEntry | history => cases hk
  | _ =>
    cases hk
    exact h

theorem Put.id?_of_key? {p : Put} {k : RowKey} (hk : p.key? = some k) : p.id? = some k.id := by
  cases p <;> cases hk <;> rfl

/-! ## What the marks of a log tell -/

/-- What makes up for a write of the session: the row is marked, or locked, or new. -/
def Session.Covers (s : Session) (l : Ledger) (log : List Mark) (k : RowKey) : Prop :=
  .bare s.id k ∈ log ∨ l.holds s.id k = true ∨ l.versions k = 0

/-- The row has the version that the session has noted, but for what is marked. -/
def Session.Current (s : Session) (l : Ledger) (log : List Mark) (k : RowKey) : Prop :=
  .bare s.id k ∈ log ∨ l.versions k = s.base k ∨ Trespassed log s.id k

theorem Session.Covers.append {s : Session} {l l' : Ledger} {log : List Mark} {k : RowKey}
    (h : s.Covers l log k) (hversions : l'.versions = l.versions)
    (hholds : l.holds s.id k = true → l'.holds s.id k = true) (more : List Mark) :
    s.Covers l' (log ++ more) k := by
  rcases h with hbare | hheld | hnew
  · exact .inl (List.mem_append_left _ hbare)
  · exact .inr (.inl (hholds hheld))
  · exact .inr (.inr (hversions ▸ hnew))

theorem Session.Current.append {s : Session} {l l' : Ledger} {log : List Mark} {k : RowKey}
    (h : s.Current l log k) (hversion : l'.versions k = l.versions k) (more : List Mark) :
    s.Current l' (log ++ more) k := by
  rcases h with hbare | hsame | htrespass
  · exact .inl (List.mem_append_left _ hbare)
  · exact .inr (.inl (hversion.trans hsame))
  · exact .inr (.inr (htrespass.append _))

/-- What the log tells of an open session. -/
structure Session.Marked (s : Session) (l : Ledger) (log : List Mark) : Prop where
  /-- What the session has found has been committed. -/
  found : ∀ k, s.snapshot.has k = true → l.versions k ≠ 0
  written : ∀ k ∈ s.changes.written, s.Covers l log k
  /-- A row that it has locked is locked still, and is there for it. -/
  locked : ∀ key, .locked s.id key ∈ log → l.locks key = some s.id ∧
    ((key.root.rows (l.tables.apply s.changes)).get? key.id).isSome
  current : ∀ k key, k.lock? = some key → .locked s.id key ∈ log → s.Current l log k

/-- What the log tells of a ledger and its sessions. -/
structure Ledger.Marked (l : Ledger) (ses : String → Option Session) (log : List Mark) : Prop where
  sound : l.Sound ses
  known : ∀ x ∈ log, x.session ≤ l.lastSession
  /-- A row that is committed has a version, -/
  stored : ∀ k, l.tables.has k = true → l.versions k ≠ 0
  /-- and a row that has one has an old id. -/
  old : ∀ k, l.versions k ≠ 0 → k.id ≤ l.lastId
  /-- A row that two sessions have written has been committed. -/
  shared : ∀ n m s t, n ≠ m → ses n = some s → ses m = some t → ∀ k ∈ s.changes.written,
    k ∈ t.changes.written → l.versions k ≠ 0
  /-- Every lock was taken by a find. -/
  taken : ∀ key id, l.locks key = some id → .locked id key ∈ log
  sessions : ∀ n s, ses n = some s → s.Marked l log

namespace Session.Marked

variable {s : Session} {l l' : Ledger} {log : List Mark}

theorem holds_iff {id : SessionId} {k : RowKey} :
    l.holds id k = true ↔ ∃ key, k.lock? = some key ∧ l.locks key = some id := by
  unfold Ledger.holds
  cases k.lock? <;> simp

/-- Others may take and give back locks, and teams may be added. -/
theorem others (h : s.Marked l log) {teams : Rows Team} {more : List Mark}
    (htables : l'.tables = { l.tables with teams }) (hversions : l'.versions = l.versions)
    (hlocks : ∀ key, l.locks key = some s.id → l'.locks key = some s.id)
    (hmore : ∀ x ∈ more, x.session ≠ s.id) : s.Marked l' (log ++ more) := by
  have old_mark {x : Mark} (hx : x ∈ log ++ more) (hid : x.session = s.id) : x ∈ log :=
    (List.mem_append.1 hx).resolve_right fun hnew => hmore x hnew hid
  have holds_of {k : RowKey} (hk : l.holds s.id k = true) : l'.holds s.id k = true := by
    obtain ⟨key, hkey, hlock⟩ := holds_iff.1 hk
    exact holds_iff.2 ⟨key, hkey, hlocks key hlock⟩
  refine
    { found := fun k hk => hversions ▸ h.found k hk
      written := fun k hk => (h.written k hk).append hversions holds_of more
      locked := fun key hkey => ?locked
      current := fun k key hk hkey =>
        (h.current k key hk (old_mark hkey rfl)).append (congrFun hversions k) more }
  case locked =>
    obtain ⟨hlock, hrow⟩ := h.locked key (old_mark hkey rfl)
    refine ⟨hlocks key hlock, ?_⟩
    rw [htables]
    obtain ⟨root, id⟩ := key
    cases root <;> exact hrow

/-- Nothing new is told by a ledger with the same rows and locks. -/
theorem same_rows (h : s.Marked l log) {teams : Rows Team}
    (htables : l'.tables = { l.tables with teams }) (hversions : l'.versions = l.versions)
    (hlocks : ∀ key, l.locks key = some s.id → l'.locks key = some s.id) : s.Marked l' log := by
  have marked : s.Marked l' (log ++ []) :=
    h.others htables hversions hlocks fun x hx => nomatch hx
  rwa [List.append_nil] at marked

end Session.Marked

namespace Ledger.Marked

variable {l : Ledger} {ses : String → Option Session} {log : List Mark} {n m : String}
  {s t : Session}

/-- **Who writes a row that another session has locked** has written it without its lock. -/
theorem bare_of_written (h : l.Marked ses log) (hne : n ≠ m) (hs : ses n = some s)
    (ht : ses m = some t) {k : RowKey} {key : LockKey} (hkey : k.lock? = some key)
    (hlocked : .locked s.id key ∈ log) (hk : k ∈ t.changes.written) : .bare t.id k ∈ log := by
  obtain ⟨hlock, hrow⟩ := (h.sessions n s hs).locked key hlocked
  rcases (h.sessions m t ht).written k hk with hbare | hheld | hnew
  · exact hbare
  · obtain ⟨key', hkey', hlock'⟩ := Session.Marked.holds_iff.1 hheld
    cases hkey.symm.trans hkey'
    exact absurd (Option.some.inj (hlock.symm.trans hlock')) (h.sound.id_ne hne hs ht)
  · -- a row without a version is not there for the session that has locked it
    have there : (l.tables.apply s.changes).has k = true := by
      obtain ⟨kind, id⟩ := k
      cases kind <;> cases hkey <;> exact hrow
    rcases Tables.has_apply there with hstored | hwritten
    · exact absurd hnew (h.stored k hstored)
    · exact absurd hnew (h.shared n m s t hne hs ht k hwritten hk)

/-- **A locked row changes only by a trespass.** -/
theorem row_of_commit (h : l.Marked ses log) (hne : n ≠ m) (hs : ses n = some s)
    (ht : ses m = some t) {key : LockKey} (hlocked : .locked s.id key ∈ log) :
    (key.root.rows (l.tables.apply t.changes)).get? key.id =
        (key.root.rows l.tables).get? key.id ∨
      ∃ k : RowKey, k.lock? = some key ∧ .bare t.id k ∈ log := by
  obtain ⟨root, id⟩ := key
  have of_row (k : RowKey) (hkey : k.lock? = some ⟨root, id⟩) :
      (l.tables.apply t.changes).SameRow l.tables k ∨ .bare t.id k ∈ log := by
    by_cases hk : k ∈ t.changes.written
    · exact .inr (h.bare_of_written hne hs ht hkey hlocked hk)
    · exact .inl (l.tables.sameRow_apply hk)
  cases root with
  | invoice => exact (of_row ⟨.invoice, id⟩ rfl).imp_right fun hbare => ⟨_, rfl, hbare⟩
  | submission => exact (of_row ⟨.submission, id⟩ rfl).imp_right fun hbare => ⟨_, rfl, hbare⟩
  | history =>
    -- payments are only ever added, and never under an id that someone else uses
    obtain ⟨-, hrow⟩ := (h.sessions n s hs).locked _ hlocked
    have hrow : ((l.tables.histories.overlay s.changes.histories).get? id).isSome := hrow
    rw [Rows.get?_overlay] at hrow
    have none_added : t.changes.histories.get? id = none := by
      cases hadded : t.changes.histories.get? id with
      | none => rfl
      | some x =>
        have hx : (t.changes.histories.get? id).isSome := by rw [hadded]; rfl
        rw [h.sound.apart m n t s hne.symm ht hs id hx,
          (h.sound.fits m t ht).new_histories id hx] at hrow
        cases hrow
    refine .inl ?_
    show (l.tables.histories.overlay t.changes.histories).get? id = _
    rw [Rows.get?_overlay, none_added]
    rfl

/-- **A commit that is refused** is refused over a row that was written without its lock, or over a
trespass. -/
theorem trespassed_of_conflict (h : l.Marked ses log) (hs : ses n = some s) {k : RowKey}
    (hk : k ∈ s.changes.written) (hconflict : l.versions k ≠ s.base k)
    (hbare : .bare s.id k ∉ log) : Trespassed log s.id k := by
  have hmarked := h.sessions n s hs
  rcases hmarked.written k hk with hbare' | hheld | hnew
  · exact absurd hbare' hbare
  · obtain ⟨key, hkey, hlock⟩ := Session.Marked.holds_iff.1 hheld
    rcases hmarked.current k key hkey (h.taken key s.id hlock) with hbare' | hsame | htrespass
    · exact absurd hbare' hbare
    · exact absurd hsame hconflict
    · exact htrespass
  · have := (h.sound.fits n s hs).base_le k
    omega

end Ledger.Marked

/-! ## What a call leaves -/

namespace Session

variable {l : Ledger} {s : Session} {c : StoreCall}

/-- A row that is marked as locked is locked, and was found. -/
theorem mem_lockMarks (hl : l.Hosts s) {x : Mark} (hx : x ∈ s.lockMarks l c) :
    ∃ key, x = .locked s.id key ∧ (s.answer l c).2.1.locks key = some s.id ∧
      ((key.root.rows (l.tables.apply s.changes)).get? key.id).isSome := by
  cases c with
  | find root q =>
    cases hq : q.locked with
    | false =>
      simp only [lockMarks, hq, Bool.false_eq_true, if_false] at hx
      split at hx <;> cases hx
    | true =>
      rcases s.answer_find_locked l hq with ⟨-, answer_eq⟩ | ⟨row, -, -, answer_eq⟩
      · simp only [lockMarks, answer_eq, hq, if_true] at hx
        obtain ⟨row, hrow, rfl⟩ := List.mem_map.1 hx
        have hrow := (Root.inOrder_perm root _).mem_iff.1 hrow
        have hkey : (⟨root, root.idOf row⟩ : LockKey) ∈ q.lockKeys (l.tables.apply s.changes) :=
          List.mem_map.2 ⟨row, hrow, rfl⟩
        refine ⟨_, rfl, ?_, ?_⟩
        · rw [answer_eq]
          exact if_pos hkey
        · -- rows come under their own ids
          have keyed := hl.shown_keyed
          have hvalue := Query.mem_values_of_mem_select hrow
          have stored : (root.rows (l.tables.apply s.changes)).get? (root.idOf row) = some row := by
            cases root with
            | invoice => exact keyed.invoices.mem_values_iff.1 hvalue
            | submission => exact keyed.submissions.mem_values_iff.1 hvalue
            | history => exact keyed.histories.mem_values_iff.1 hvalue
          exact Option.isSome_iff_exists.2 ⟨row, stored⟩
      · simp only [lockMarks, answer_eq] at hx
        cases hx
  | _ => cases hx

/-- Only calls that read lock anything. -/
theorem lockMarks_of_not_reads (l : Ledger) (s : Session) {c : StoreCall} (hc : c.reads = false) :
    s.lockMarks l c = [] := by
  cases c <;> first | rfl | cases hc

/-- A lock that is there after a call was there before, or is marked. -/
theorem locks_answer {key : LockKey} {id : SessionId}
    (hkey : (s.answer l c).2.1.locks key = some id) :
    l.locks key = some id ∨ .locked id key ∈ s.lockMarks l c := by
  cases hc : c.locks with
  | false =>
    rw [s.answer_locks l hc] at hkey
    exact .inl hkey
  | true =>
    cases c with
    | find root q =>
      rcases s.answer_find_locked l (show q.locked = true from hc) with
        ⟨-, answer_eq⟩ | ⟨row, -, -, answer_eq⟩
      · rw [answer_eq] at hkey
        replace hkey : (if key ∈ q.lockKeys (l.tables.apply s.changes) then some s.id
            else l.locks key) = some id := hkey
        split at hkey
        next hmem =>
          cases hkey
          obtain ⟨row, hrow, rfl⟩ := List.mem_map.1 hmem
          refine .inr ?_
          simp only [lockMarks, answer_eq, show q.locked = true from hc, if_true]
          exact List.mem_map.2 ⟨row, (Root.inOrder_perm root _).mem_iff.2 hrow, rfl⟩
        next => exact .inl hkey
      · rw [answer_eq] at hkey
        exact .inl hkey
    | _ => cases hc

theorem mem_bareMarks {x : Mark} (hx : x ∈ s.bareMarks l c) : ∃ k, x = .bare s.id k := by
  obtain ⟨k, -, rfl⟩ := List.mem_map.1 hx
  exact ⟨k, rfl⟩

theorem session_of_mem_marks (hl : l.Hosts s) {x : Mark} (hx : x ∈ s.marks l c) :
    x.session = s.id := by
  rcases List.mem_append.1 hx with hx | hx
  · obtain ⟨key, rfl, -⟩ := mem_lockMarks hl hx
    rfl
  · obtain ⟨k, rfl⟩ := mem_bareMarks hx
    rfl

/-- **A row that a call writes** was written before, or it is new, or it had been found. In the last
case it is locked, or marked. -/
theorem write_cases (hl : l.Hosts s) {p : Put} (hp : p ∈ s.writes l c) {k : RowKey}
    (hk : p.key? = some k) : k ∈ s.changes.written ∨ k.id = l.newId.1 ∨
      s.snapshot.has k = true ∧ (l.holds s.id k = true ∨ .bare s.id k ∈ s.bareMarks l c) := by
  rcases hl.writes_ok c p hp with hseen | ⟨hnew, -⟩
  · rcases Tables.has_apply (hseen.has hk) with hfound | hwritten
    · refine .inr (.inr ⟨hfound, ?_⟩)
      cases hheld : l.holds s.id k with
      | true => exact .inl rfl
      | false =>
        refine .inr (List.mem_map.2 ⟨k, List.mem_filter.2 ⟨?_, ?_⟩, rfl⟩)
        · exact List.mem_filterMap.2 ⟨p, hp, hk⟩
        · rw [hfound, hheld]
          rfl
    · exact .inl hwritten
  · exact .inr (.inl (Option.some.inj ((Put.id?_of_key? hk).symm.trans hnew)))

end Session

end TeamLedger
