/-
What a call does to the ledger and to the session that makes it.

One lemma for all calls (`answer_session`): a call that reads takes a new
snapshot, every other call leaves the snapshot alone, and then the writes of the
call go into the session's changes. Which rows a call writes is a list that
depends on what the session sees (`Session.writes`), stated call by call without
the session's changes. The ledger itself gains nothing from a call but ids and
locks (`answer_ledger`); its tables and versions wait for a commit.

An update may list an id twice. The second time it finds its own row, and the
updates that the ledger knows leave that row as it is or pass it over, so the
list of writes may be taken from what was seen before the update.
-/
import TeamLedger.Ledger.Answer
import TeamLedger.Proofs.Writes

set_option autoImplicit false

namespace TeamLedger

/-! ## Which calls read, and what the others write -/

/-- The call is a statement that reads. -/
def StoreCall.reads : StoreCall → Bool
  | find .. | team _ | teams _ | unpaidAmount .. | applicableLimits .. | findLimit .. | limitsOf _
  | limitsForCounterpart .. | debts .. => true
  | insertInvoice _ | updateInvoiceStatus .. | setHasSubmission .. | markPaid ..
  | insertSubmission _ | linkInvoices .. | updateSubmissionStatus .. | insertLogEntry _
  | insertHistory _ | saveLimit _ | deleteLimits .. => false

namespace Session

/-- The writes that change the listed invoices, as far as they are seen and `f` gives them a new
form. -/
def revisions (s : Session) (f : Invoice → Option Invoice) (ids : List Ident) : List Put :=
  (ids.filterMap fun id => (s.view.invoices.get? id).bind f).map .invoice

/-- The writes of a call. -/
def writes (l : Ledger) (s : Session) : StoreCall → List Put
  | .insertInvoice new => [.invoice (new.withId l.newId.1)]
  | .updateInvoiceStatus id status => s.revisions (fun i => some { i with status }) [id]
  | .setHasSubmission ids value =>
    s.revisions (fun i => some { i with hasSubmission := value }) ids
  | .markPaid ids settlement =>
    s.revisions (fun i => if i.status = .notPaid then some (i.settled settlement) else none) ids
  | .insertSubmission new => [.submission (new.withId l.newId.1)]
  | .linkInvoices submission ids => (ids.map (⟨·, submission⟩)).map .link
  | .updateSubmissionStatus id status completedBy =>
    ((s.view.submissions.get? id).map fun x =>
      Put.submission { x with status, completedBy := some completedBy }).toList
  | .insertLogEntry new => [.logEntry (new.withId l.newId.1)]
  | .insertHistory new => [.history (new.withId l.newId.1)]
  | .saveLimit limit =>
    if limit.id = 0 then [.limit { limit with id := l.newId.1 }]
    else ((s.view.limits.get? limit.id).map fun stored =>
      Put.limit { stored with threshold := limit.threshold }).toList
  | .deleteLimits teamId forTeam =>
    ((s.view.limits.values.filter fun x =>
      x.teamId = teamId && forTeam.all fun f => x.forTeam = some f).map (·.id)).map .dropLimit
  | .find .. | .team _ | .teams _ | .unpaidAmount .. | .applicableLimits .. | .findLimit ..
  | .limitsOf _ | .limitsForCounterpart .. | .debts .. => []

theorem writes_of_reads (l : Ledger) (s : Session) {c : StoreCall} (h : c.reads = true) :
    s.writes l c = [] := by
  cases c <;> first | rfl | cases h

/-- The session with writes added to its changes. -/
def writeAll (s : Session) (ps : List Put) : Session :=
  { s with changes := s.changes.putAll ps }

@[simp] theorem writeAll_nil (s : Session) : s.writeAll [] = s := rfl

theorem writeAll_writeAll (s : Session) (ps qs : List Put) :
    (s.writeAll ps).writeAll qs = s.writeAll (ps ++ qs) := by
  unfold writeAll
  rw [Changes.putAll_append]

@[simp] theorem writeAll_id (s : Session) (ps : List Put) : (s.writeAll ps).id = s.id := rfl

@[simp] theorem writeAll_base (s : Session) (ps : List Put) : (s.writeAll ps).base = s.base := rfl

@[simp] theorem writeAll_snapshot (s : Session) (ps : List Put) :
    (s.writeAll ps).snapshot = s.snapshot := rfl

@[simp] theorem writeAll_changes (s : Session) (ps : List Put) :
    (s.writeAll ps).changes = s.changes.putAll ps := rfl

/-- A session sees its own writes on top of what it saw before. -/
theorem view_writeAll (s : Session) {ps : List Put} (h : ∀ l, Put.limit l ∉ ps) :
    (s.writeAll ps).view = s.view.putAll ps :=
  s.snapshot.apply_putAll s.changes h

@[simp] theorem refresh_id (s : Session) (l : Ledger) : (s.refresh l).id = s.id := rfl

@[simp] theorem refresh_changes (s : Session) (l : Ledger) :
    (s.refresh l).changes = s.changes := rfl

@[simp] theorem refresh_snapshot (s : Session) (l : Ledger) :
    (s.refresh l).snapshot = l.tables := rfl

/-- After a new snapshot a session sees what its commit would leave. -/
theorem refresh_view (s : Session) (l : Ledger) :
    (s.refresh l).view = l.tables.apply s.changes := rfl

/-! ## Updates of invoices -/

/-- The invoices after writing a list of them, each found under the id it was listed by. -/
theorem get?_putAll_invoices (c : Changes) (g : Ident → Option Invoice)
    (hg : ∀ id i, g id = some i → i.id = id) (ids : List Ident) (k : Ident) :
    (c.putAll ((ids.filterMap g).map .invoice)).invoices.get? k =
      if k ∈ ids then (g k).or (c.invoices.get? k) else c.invoices.get? k := by
  induction ids generalizing c with
  | nil => simp
  | cons id ids ih =>
    cases hid : g id with
    | none =>
      rw [List.filterMap_cons_none hid, ih c]
      by_cases hk : k = id
      · subst hk
        simp [hid]
      · simp [hk]
    | some i =>
      rw [List.filterMap_cons_some hid, List.map_cons, Changes.putAll_cons, ih]
      simp only [Changes.put, Rows.get?_insert, hg id i hid, List.mem_cons]
      by_cases hk : k = id
      · subst hk
        simp [hid]
      · simp [hk]

/-- Writing invoices leaves the rest of the changes as it is. -/
theorem putAll_invoices_eq (c : Changes) (is : List Invoice) :
    c.putAll (is.map .invoice) = { c with invoices := (c.putAll (is.map .invoice)).invoices } := by
  induction is generalizing c with
  | nil => rfl
  | cons i is ih =>
    rw [List.map_cons, Changes.putAll_cons, ih]
    simp only [Changes.put]

/-- The update writes nothing but invoices. -/
theorem updateInvoices_eq (f : Invoice → Option Invoice) (ids : List Ident) (s : Session) :
    (s.updateInvoices f ids).2 = { s with changes :=
      { s.changes with invoices := (s.updateInvoices f ids).2.changes.invoices } } := by
  induction ids generalizing s with
  | nil => rfl
  | cons id ids ih =>
    unfold updateInvoices
    split
    next i hi =>
      dsimp only
      rw [ih]
      simp only [putInvoice]
    next => exact ih s

theorem view_putInvoice (s : Session) (i : Invoice) : (s.putInvoice i).view = s.view.put (.invoice i) :=
  s.snapshot.apply_put (c := s.changes) (p := .invoice i) fun _ h => nomatch h

theorem get?_view_putInvoice (s : Session) (i : Invoice) (k : Ident) :
    (s.putInvoice i).view.invoices.get? k = if k = i.id then some i else s.view.invoices.get? k := by
  rw [view_putInvoice]
  exact Rows.get?_insert ..

theorem keyed_view_putInvoice {s : Session} (hs : s.view.invoices.KeyedBy Invoice.id) (i : Invoice) :
    (s.putInvoice i).view.invoices.KeyedBy Invoice.id := by
  rw [view_putInvoice]
  exact hs.insert i

/-- The rows after an update: those listed, seen and given a new form have that form. -/
theorem get?_updateInvoices {f : Invoice → Option Invoice}
    (hid : ∀ i j, f i = some j → j.id = i.id) (hidem : ∀ i j, f i = some j → ∀ j', f j = some j' → j' = j)
    (ids : List Ident) (s : Session) (hs : s.view.invoices.KeyedBy Invoice.id) (k : Ident) :
    (s.updateInvoices f ids).2.changes.invoices.get? k =
      if k ∈ ids then ((s.view.invoices.get? k).bind f).or (s.changes.invoices.get? k)
      else s.changes.invoices.get? k := by
  induction ids generalizing s with
  | nil => simp [updateInvoices]
  | cons id ids ih =>
    unfold updateInvoices
    split
    next i hi =>
      obtain ⟨row, hrow, hf⟩ := Option.bind_eq_some_iff.1 hi
      have hiid : i.id = id := by rw [hid row i hf, hs id row hrow]
      rw [show (updateInvoices f ids (s.putInvoice i)).2 = _ from rfl,
        ih _ (keyed_view_putInvoice hs i), get?_view_putInvoice]
      simp only [putInvoice, Rows.get?_insert, hiid, List.mem_cons]
      by_cases hk : k = id
      · subst hk
        -- the id may be listed again behind; the row has its new form by then, and keeps it
        have hself : ((some i).bind f).or (some i) = some i := by
          cases hj : f i with
          | none => simp [hj]
          | some j => simp [hj, hidem row i hf j hj]
        simp only [if_true, true_or, hi, Option.some_or, hself, ite_self]
      · simp [hk]
    next hnone =>
      rw [show (updateInvoices f ids s).2 = _ from rfl, ih s hs]
      by_cases hk : k = id
      · subst hk
        simp [hnone]
      · simp [hk]

/-- **An update is the list of its writes.** -/
theorem updateInvoices_session {f : Invoice → Option Invoice}
    (hid : ∀ i j, f i = some j → j.id = i.id) (hidem : ∀ i j, f i = some j → ∀ j', f j = some j' → j' = j)
    (ids : List Ident) (s : Session) (hs : s.view.invoices.KeyedBy Invoice.id) :
    (s.updateInvoices f ids).2 = s.writeAll (s.revisions f ids) := by
  have invoices_eq : (s.updateInvoices f ids).2.changes.invoices =
      (s.changes.putAll (s.revisions f ids)).invoices := by
    refine Rows.ext_get? fun k => ?_
    rw [get?_updateInvoices hid hidem ids s hs, revisions, get?_putAll_invoices]
    intro id i h
    obtain ⟨row, hrow, hf⟩ := Option.bind_eq_some_iff.1 h
    rw [hid row i hf, hs id row hrow]
  rw [updateInvoices_eq, invoices_eq, writeAll, revisions, ← putAll_invoices_eq]

/-- A change that every invoice takes counts those that are seen. -/
theorem updateInvoices_count {g : Invoice → Invoice} (hid : ∀ i, (g i).id = i.id) (ids : List Ident)
    (s : Session) (hs : s.view.invoices.KeyedBy Invoice.id) :
    (s.updateInvoices (fun i => some (g i)) ids).1 =
      ids.countP fun k => (s.view.invoices.get? k).isSome := by
  induction ids generalizing s with
  | nil => rfl
  | cons id ids ih =>
    rw [updateInvoices, List.countP_cons]
    cases hrow : s.view.invoices.get? id with
    | none => simpa using ih s hs
    | some i =>
      have hi : (g i).id = id := by rw [hid, hs id i hrow]
      -- the row is there before and after
      have seen_eq (k : Ident) : ((s.putInvoice (g i)).view.invoices.get? k).isSome =
          (s.view.invoices.get? k).isSome := by
        rw [get?_view_putInvoice, hi]
        by_cases hk : k = id
        · rw [if_pos hk, hk, hrow]
          rfl
        · rw [if_neg hk]
      have rest := ih (s.putInvoice (g i)) (keyed_view_putInvoice hs _)
      simp only [seen_eq] at rest
      simp only [Option.bind_some, rest, Option.isSome_some, if_true]

/-! ## Calls -/

/-- Deleting limits is writing their deletions. -/
theorem deleteLimits_eq (s : Session) (ids : List Ident) :
    s.deleteLimits ids = s.writeAll (ids.map .dropLimit) := by
  have changes_eq : ∀ c : Changes, ({ c with
      limits := c.limits.eraseAll ids, deletedLimits := c.deletedLimits.insertAll ids } : Changes) =
      c.putAll (ids.map .dropLimit) := by
    induction ids with
    | nil =>
      intro c
      obtain ⟨_, _, _, _, _, limits, _⟩ := c
      have : limits.eraseAll [] = limits := Rows.ext_get? fun k => by simp
      simp [this, IdSet.insertAll]
    | cons id ids ih =>
      intro c
      rw [List.map_cons, Changes.putAll_cons, ← ih]
      -- erasing all is erasing the first and then the others
      have : c.limits.eraseAll (id :: ids) = (c.limits.eraseAll [id]).eraseAll ids :=
        Rows.ext_get? fun k => by
          simp only [Rows.get?_eraseAll, List.mem_cons, List.not_mem_nil, or_false]
          by_cases h : k = id <;> simp [h]
      simp only [Changes.put, this]
      rfl
  exact congrArg (fun c => { s with changes := c }) (changes_eq s.changes)

theorem find_session {root : Root} (q : Query root) (l : Ledger) (s : Session) :
    (find q l s).2.2 = s.refresh l := by
  unfold find
  dsimp only
  split
  · split <;> rfl
  · rfl

theorem settled_keeps_id (settlement : Settlement) (i j : Invoice)
    (h : (if i.status = .notPaid then some (i.settled settlement) else none) = some j) :
    j.id = i.id ∧ j.status = .paid := by
  split at h
  · cases h
    exact ⟨rfl, rfl⟩
  · cases h

/-- Adding links is writing them. -/
theorem addLinks_eq (s : Session) (ls : List Link) : s.addLinks ls = s.writeAll (ls.map .link) := by
  have changes_eq : ∀ c : Changes, ({ c with links := c.links ++ ls } : Changes) =
      c.putAll (ls.map .link) := by
    induction ls with
    | nil =>
      intro c
      simp
    | cons l ls ih =>
      intro c
      rw [List.map_cons, Changes.putAll_cons, ← ih]
      simp [Changes.put]
  exact congrArg (fun c => { s with changes := c }) (changes_eq s.changes)

/-- **What a call does to its session.** A call that reads takes a new snapshot; then the session
has the writes of the call. -/
theorem answer_session (l : Ledger) (s : Session) (c : StoreCall)
    (hs : s.view.invoices.KeyedBy Invoice.id) :
    (s.answer l c).2.2 = (if c.reads then s.refresh l else s).writeAll (s.writes l c) := by
  cases c with
  | find root q => exact find_session q l s
  | updateInvoiceStatus id status =>
    refine updateInvoices_session ?_ ?_ [id] s hs
    · rintro i j ⟨⟩
      rfl
    · rintro i j ⟨⟩ j' ⟨⟩
      rfl
  | setHasSubmission ids value =>
    refine updateInvoices_session ?_ ?_ ids s hs
    · rintro i j ⟨⟩
      rfl
    · rintro i j ⟨⟩ j' ⟨⟩
      rfl
  | markPaid ids settlement =>
    refine updateInvoices_session ?_ ?_ ids s hs
    · exact fun i j h => (settled_keeps_id settlement i j h).1
    · intro i j h j' h'
      -- a settled invoice is no longer unpaid, so the update passes it over
      have hpaid := (settled_keeps_id settlement i j h).2
      simp [hpaid] at h'
  | linkInvoices submission ids => exact addLinks_eq s _
  | updateSubmissionStatus id status completedBy =>
    simp only [answer, writes, StoreCall.reads, Bool.false_eq_true, if_false]
    split
    next x hx =>
      rw [hx]
      rfl
    next hx =>
      rw [hx]
      rfl
  | saveLimit limit =>
    simp only [answer, writes, saveLimit, StoreCall.reads, Bool.false_eq_true, if_false]
    split
    · rfl
    · split
      next stored h =>
        rw [h]
        rfl
      next h =>
        rw [h]
        rfl
  | deleteLimits teamId forTeam => exact deleteLimits_eq s _
  | _ => rfl

/-! ## What a call leaves of the ledger -/

end Session

/-- The second ledger is the first one with more ids handed out, and with more rows locked by a
session, none of which another session had locked. -/
structure Ledger.Grants (l : Ledger) (id : SessionId) (l' : Ledger) : Prop where
  tables : l'.tables = l.tables
  versions : l'.versions = l.versions
  commits : l'.commits = l.commits
  lastSession : l'.lastSession = l.lastSession
  lastId : l.lastId ≤ l'.lastId
  locks : ∀ k, l'.locks k = l.locks k ∨
    l'.locks k = some id ∧ ∀ other, l.locks k = some other → other = id

namespace Ledger.Grants

variable {l l' l'' : Ledger} {id : SessionId}

theorem refl (l : Ledger) (id : SessionId) : l.Grants id l :=
  ⟨rfl, rfl, rfl, rfl, Nat.le_refl _, fun _ => .inl rfl⟩

theorem trans (h : l.Grants id l') (h' : l'.Grants id l'') : l.Grants id l'' where
  tables := h'.tables.trans h.tables
  versions := h'.versions.trans h.versions
  commits := h'.commits.trans h.commits
  lastSession := h'.lastSession.trans h.lastSession
  lastId := Nat.le_trans h.lastId h'.lastId
  locks k := by
    rcases h'.locks k with hk' | ⟨hk', hfree'⟩
    · rw [hk']
      exact h.locks k
    · refine .inr ⟨hk', fun other ho => ?_⟩
      rcases h.locks k with hk | ⟨-, hfree⟩
      · exact hfree' other (hk.trans ho)
      · exact hfree other ho

/-- A lock of another session stays what it is, and no session but the one acting gets a new one. -/
theorem locks_other (h : l.Grants id l') {other : SessionId} (hne : other ≠ id) (k : LockKey) :
    l'.locks k = some other ↔ l.locks k = some other := by
  rcases h.locks k with hk | ⟨hk, hfree⟩
  · rw [hk]
  · rw [hk]
    constructor
    · rintro ⟨⟩
      exact absurd rfl hne
    · exact fun ho => absurd (hfree other ho) hne

/-- The session keeps its locks. -/
theorem locks_own (h : l.Grants id l') {k : LockKey} (hk : l.locks k = some id) :
    l'.locks k = some id := by
  rcases h.locks k with h | ⟨h, -⟩
  · rw [h, hk]
  · exact h

theorem newId (l : Ledger) (id : SessionId) : l.Grants id l.newId.2 :=
  ⟨rfl, rfl, rfl, rfl, Nat.le_succ _, fun _ => .inl rfl⟩

/-- Locking takes rows that no other session has locked. -/
theorem of_lock {root : Root} {ids : List Ident} (h : l.lock id root ids = .ok l') :
    l.Grants id l' := by
  unfold Ledger.lock at h
  split at h
  · cases h
  next hfree =>
    cases h
    refine ⟨rfl, rfl, rfl, rfl, Nat.le_refl _, fun k => ?_⟩
    dsimp only
    by_cases hk : k.root = root ∧ k.id ∈ ids
    · refine .inr ⟨if_pos hk, fun other ho => ?_⟩
      have := List.find?_eq_none.1 hfree k.id hk.2
      rw [← hk.1, ho] at this
      simpa using this
    · exact .inl (if_neg hk)

end Ledger.Grants

namespace Session

/-- **What a call does to the ledger.** It hands out ids and locks rows for the session; tables and
versions stay as they are. -/
theorem answer_ledger (l : Ledger) (s : Session) (c : StoreCall) :
    l.Grants s.id (s.answer l c).2.1 := by
  cases c with
  | find root q =>
    simp only [answer, find]
    split
    · split
      next h => exact .of_lock h
      next => exact .refl ..
    · exact .refl ..
  | saveLimit limit =>
    simp only [answer, saveLimit]
    split
    · exact .newId ..
    · split <;> exact .refl ..
  | updateSubmissionStatus id status completedBy =>
    simp only [answer]
    split <;> exact .refl ..
  | insertInvoice _ | insertSubmission _ | insertLogEntry _ | insertHistory _ => exact .newId ..
  | _ => exact .refl ..

end Session

/-! ## Which rows a call writes -/

namespace Put

/-- The row written is one of the tables. -/
def Revises (t : Tables) : Put → Prop
  | invoice i => (t.invoices.get? i.id).isSome
  | submission x => (t.submissions.get? x.id).isSome
  | limit l => (t.limits.get? l.id).isSome
  | dropLimit id => (t.limits.get? id).isSome
  | link _ => True
  | logEntry _ | history _ => False

/-- The id of the row written. A link has none. -/
def id? : Put → Option Ident
  | invoice i => some i.id
  | submission x => some x.id
  | limit l => some l.id
  | dropLimit id => some id
  | logEntry e => some e.id
  | history h => some h.id
  | link _ => none

end Put

namespace Session

theorem revises_of_mem_revisions {s : Session} {f : Invoice → Option Invoice} {ids : List Ident}
    (hid : ∀ i j, f i = some j → j.id = i.id) (hs : s.view.invoices.KeyedBy Invoice.id) {p : Put}
    (hp : p ∈ s.revisions f ids) : p.Revises s.view := by
  obtain ⟨i, hi, rfl⟩ := List.mem_map.1 hp
  obtain ⟨id, -, h⟩ := List.mem_filterMap.1 hi
  obtain ⟨row, hrow, hf⟩ := Option.bind_eq_some_iff.1 h
  have hiid : i.id = id := by rw [hid row i hf, hs id row hrow]
  show (s.view.invoices.get? i.id).isSome
  rw [hiid, hrow]
  rfl

/-- **A call writes rows that it sees, or one row under a new id.** -/
theorem revises_or_new {l : Ledger} {s : Session} {c : StoreCall}
    (hi : s.view.invoices.KeyedBy Invoice.id) (hx : s.view.submissions.KeyedBy Submission.id)
    (hl : s.view.limits.KeyedBy Limit.id) {p : Put} (hp : p ∈ s.writes l c) :
    p.Revises s.view ∨ p.id? = some l.newId.1 ∧ (s.answer l c).2.1.lastId = l.lastId + 1 := by
  cases c with
  | insertInvoice new | insertSubmission new | insertLogEntry new | insertHistory new =>
    cases List.mem_singleton.1 hp
    exact .inr ⟨rfl, rfl⟩
  | updateInvoiceStatus id status =>
    exact .inl (revises_of_mem_revisions (by rintro i j ⟨⟩; rfl) hi hp)
  | setHasSubmission ids value =>
    exact .inl (revises_of_mem_revisions (by rintro i j ⟨⟩; rfl) hi hp)
  | markPaid ids settlement =>
    exact .inl (revises_of_mem_revisions (fun i j h => (settled_keeps_id settlement i j h).1) hi hp)
  | linkInvoices submission ids =>
    obtain ⟨link, -, rfl⟩ := List.mem_map.1 hp
    exact .inl trivial
  | updateSubmissionStatus id status completedBy =>
    obtain ⟨x, h, rfl⟩ := Option.map_eq_some_iff.1 (Option.mem_toList.1 hp)
    refine .inl ?_
    show (s.view.submissions.get? x.id).isSome
    rw [hx id x h, h]
    rfl
  | saveLimit limit =>
    simp only [writes] at hp
    split at hp
    next h0 =>
      cases List.mem_singleton.1 hp
      refine .inr ⟨rfl, ?_⟩
      simp only [answer, saveLimit, if_pos h0]
      rfl
    next h0 =>
      obtain ⟨x, h, rfl⟩ := Option.map_eq_some_iff.1 (Option.mem_toList.1 hp)
      refine .inl ?_
      show (s.view.limits.get? x.id).isSome
      rw [hl limit.id x h, h]
      rfl
  | deleteLimits teamId forTeam =>
    obtain ⟨id, hid, rfl⟩ := List.mem_map.1 hp
    obtain ⟨x, hx, rfl⟩ := List.mem_map.1 hid
    have hx := hl.mem_values_iff.1 (List.mem_filter.1 hx).1
    refine .inl ?_
    show (s.view.limits.get? x.id).isSome
    rw [hx]
    rfl
  | _ => cases hp

end Session

end TeamLedger
