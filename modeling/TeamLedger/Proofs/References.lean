/-
Rows that refer to other rows.

A link names an invoice and a submission, a log entry a submission, a settled
invoice the payment, and a limit one or two teams. The tables do not check any of
it: there are no foreign keys. That every row which is referred to is there is
left to those who write (`Tables.Closed`), and this module says what they have to
do for it. Whatever a statement refers to is either known to be there, or it is
copied from a row that the session sees (`Session.refers_of_mem_writes`).

A session sees an older state of the tables, and its own writes. Nothing is ever
taken away that could be referred to, so what was there for the snapshot is still
there, and what the session's writes refer to is there under them, committed or
not (`Ledger.Grounds`).
-/
import TeamLedger.Proofs.Isolation
import TeamLedger.Proofs.Selecting

set_option autoImplicit false

namespace TeamLedger

/-! ## References -/

/-- A row that other rows may refer to. -/
inductive Referent
  | team (id : Ident)
  | invoice (id : Ident)
  | submission (id : Ident)
  | history (id : Ident)
deriving DecidableEq

def Link.refers (l : Link) : List Referent := [.invoice l.invoiceId, .submission l.submissionId]

def LogEntry.refers (e : LogEntry) : List Referent := [.submission e.submissionId]

def Invoice.refers (i : Invoice) : List Referent := i.historyId.toList.map .history

def Limit.refers (l : Limit) : List Referent := .team l.teamId :: l.forTeam.toList.map .team

/-- What a written row refers to. -/
def Put.refers : Put → List Referent
  | link l => l.refers
  | logEntry e => e.refers
  | invoice i => i.refers
  | limit l => l.refers
  | submission _ | history _ | dropLimit _ => []

/-- The written row, if others may refer to it. -/
def Put.referent? : Put → Option Referent
  | invoice i => some (.invoice i.id)
  | submission x => some (.submission x.id)
  | history h => some (.history h.id)
  | link _ | logEntry _ | limit _ | dropLimit _ => none

/-- Some of the rows refers to it. -/
def Rows.Refer {α : Type} (rows : Rows α) (refers : α → List Referent) (x : Referent) : Prop :=
  ∃ i a, rows.get? i = some a ∧ x ∈ refers a

namespace Rows.Refer

variable {α : Type} {rows upper : Rows α} {refers : α → List Referent} {x : Referent}

theorem insert {i : Ident} {a : α} (h : (rows.insert i a).Refer refers x) :
    x ∈ refers a ∨ rows.Refer refers x := by
  obtain ⟨j, b, hb, hx⟩ := h
  rw [get?_insert] at hb
  split at hb
  · rw [Option.some.inj hb]
    exact .inl hx
  · exact .inr ⟨j, b, hb, hx⟩

theorem overlay (h : (rows.overlay upper).Refer refers x) :
    rows.Refer refers x ∨ upper.Refer refers x := by
  obtain ⟨i, a, ha, hx⟩ := h
  rw [get?_overlay, Option.or_eq_some_iff] at ha
  rcases ha with ha | ⟨-, ha⟩
  · exact .inr ⟨i, a, ha, hx⟩
  · exact .inl ⟨i, a, ha, hx⟩

theorem eraseAll {ids : List Ident} (h : (rows.eraseAll ids).Refer refers x) :
    rows.Refer refers x := by
  obtain ⟨i, a, ha, hx⟩ := h
  rw [get?_eraseAll] at ha
  split at ha
  · cases ha
  · exact ⟨i, a, ha, hx⟩

end Rows.Refer

/-- Some row of the tables refers to it. -/
def Tables.Refers (t : Tables) (x : Referent) : Prop :=
  (∃ l ∈ t.links, x ∈ l.refers) ∨ t.logs.Refer LogEntry.refers x ∨
    t.invoices.Refer Invoice.refers x ∨ t.limits.Refer Limit.refers x

/-- Some row that was written refers to it. -/
def Changes.Refers (c : Changes) (x : Referent) : Prop :=
  (∃ l ∈ c.links, x ∈ l.refers) ∨ c.logs.Refer LogEntry.refers x ∨
    c.invoices.Refer Invoice.refers x ∨ c.limits.Refer Limit.refers x

/-- The row is there. -/
def Tables.Has (t : Tables) : Referent → Prop
  | .team id => (t.teams.get? id).isSome
  | .invoice id => (t.invoices.get? id).isSome
  | .submission id => (t.submissions.get? id).isSome
  | .history id => (t.histories.get? id).isSome

/-- The row was written. Sessions write no teams. -/
def Changes.Has (c : Changes) : Referent → Prop
  | .team _ => False
  | .invoice id => (c.invoices.get? id).isSome
  | .submission id => (c.submissions.get? id).isSome
  | .history id => (c.histories.get? id).isSome

/-- Every row that is referred to is there. -/
def Tables.Closed (t : Tables) : Prop := ∀ x, t.Refers x → t.Has x

theorem Tables.Closed.empty : ({} : Tables).Closed := by
  rintro x (⟨l, hl, -⟩ | ⟨i, a, ha, -⟩ | ⟨i, a, ha, -⟩ | ⟨i, a, ha, -⟩)
  · cases hl
  all_goals simp at ha

/-! ## Changes laid over tables -/

theorem Tables.refers_apply {t : Tables} {c : Changes} {x : Referent} (h : (t.apply c).Refers x) :
    t.Refers x ∨ c.Refers x := by
  unfold Refers Changes.Refers
  rcases h with ⟨l, hl, hx⟩ | h | h | h
  · rcases List.mem_append.1 hl with hl | hl
    · exact .inl (.inl ⟨l, hl, hx⟩)
    · exact .inr (.inl ⟨l, hl, hx⟩)
  · exact h.overlay.imp (fun h => .inr (.inl h)) fun h => .inr (.inl h)
  · exact h.overlay.imp (fun h => .inr (.inr (.inl h))) fun h => .inr (.inr (.inl h))
  · exact h.eraseAll.overlay.imp (fun h => .inr (.inr (.inr h))) fun h => .inr (.inr (.inr h))

theorem Tables.has_apply_iff {t : Tables} {c : Changes} {x : Referent} :
    (t.apply c).Has x ↔ t.Has x ∨ c.Has x := by
  have isSome_overlay {α : Type} (rows upper : Rows α) (id : Ident) :
      ((rows.overlay upper).get? id).isSome ↔ (rows.get? id).isSome ∨ (upper.get? id).isSome := by
    rw [Rows.get?_overlay]
    cases upper.get? id <;> simp
  cases x with
  | team id => exact (or_false _).symm.to_iff
  | invoice id => exact isSome_overlay ..
  | submission id => exact isSome_overlay ..
  | history id => exact isSome_overlay ..

theorem Changes.refers_put {c : Changes} {p : Put} {x : Referent} (h : (c.put p).Refers x) :
    x ∈ p.refers ∨ c.Refers x := by
  unfold Refers
  cases p with
  | link l =>
    rcases h with ⟨l', hl, hx⟩ | h
    · rcases List.mem_append.1 hl with hl | hl
      · exact .inr (.inl ⟨l', hl, hx⟩)
      · rw [List.mem_singleton.1 hl] at hx
        exact .inl hx
    · exact .inr (.inr h)
  | logEntry e =>
    rcases h with h | h | h
    · exact .inr (.inl h)
    · exact h.insert.imp_right fun h => .inr (.inl h)
    · exact .inr (.inr (.inr h))
  | invoice i =>
    rcases h with h | h | h | h
    · exact .inr (.inl h)
    · exact .inr (.inr (.inl h))
    · exact h.insert.imp_right fun h => .inr (.inr (.inl h))
    · exact .inr (.inr (.inr (.inr h)))
  | limit l =>
    rcases h with h | h | h | h
    · exact .inr (.inl h)
    · exact .inr (.inr (.inl h))
    · exact .inr (.inr (.inr (.inl h)))
    · exact h.insert.imp_right fun h => .inr (.inr (.inr h))
  | dropLimit id =>
    rcases h with h | h | h | h
    · exact .inr (.inl h)
    · exact .inr (.inr (.inl h))
    · exact .inr (.inr (.inr (.inl h)))
    · exact .inr (.inr (.inr (.inr h.eraseAll)))
  | submission _ | history _ => exact .inr h

theorem Changes.refers_putAll {c : Changes} {ps : List Put} {x : Referent}
    (h : (c.putAll ps).Refers x) : (∃ p ∈ ps, x ∈ p.refers) ∨ c.Refers x := by
  induction ps generalizing c with
  | nil => exact .inr h
  | cons p ps ih =>
    rcases ih h with ⟨q, hq, hx⟩ | h
    · exact .inl ⟨q, List.mem_cons_of_mem _ hq, hx⟩
    · exact (refers_put h).imp_left fun hx => ⟨p, List.mem_cons_self, hx⟩

theorem Changes.has_put {c : Changes} {p : Put} {x : Referent} :
    (c.put p).Has x ↔ p.referent? = some x ∨ c.Has x := by
  have isSome_insert {α : Type} (rows : Rows α) (i id : Ident) (a : α) :
      ((rows.insert i a).get? id).isSome ↔ i = id ∨ (rows.get? id).isSome := by
    rw [Rows.get?_insert]
    split
    next h => simp [h]
    next h => simp [Ne.symm h]
  cases p with
  | invoice i => cases x <;> simp [-Rows.get?_insert, put, Has, Put.referent?, isSome_insert]
  | submission s => cases x <;> simp [-Rows.get?_insert, put, Has, Put.referent?, isSome_insert]
  | history h => cases x <;> simp [-Rows.get?_insert, put, Has, Put.referent?, isSome_insert]
  | _ => cases x <;> simp [put, Has, Put.referent?]

theorem Changes.has_putAll {c : Changes} {ps : List Put} {x : Referent} :
    (c.putAll ps).Has x ↔ (∃ p ∈ ps, p.referent? = some x) ∨ c.Has x := by
  induction ps generalizing c with
  | nil => simp
  | cons p ps ih =>
    rw [putAll_cons, ih, has_put]
    simp only [List.mem_cons, or_and_right, exists_or, exists_eq_left]
    rw [or_left_comm, or_assoc]

/-! ## What statements refer to -/

namespace StoreCall

/-- What a statement refers to of its own. -/
def cites : StoreCall → List Referent
  | linkInvoices submission ids => ids.flatMap fun id => (Link.mk id submission).refers
  | insertLogEntry new => [.submission new.submissionId]
  | markPaid _ settlement => [.history settlement.historyId]
  | saveLimit limit => if limit.id = 0 then limit.refers else []
  | _ => []

theorem cites_saveLimit (limit : Limit) : (saveLimit limit).cites ⊆ limit.refers := by
  rw [cites]
  by_cases h0 : limit.id = 0
  · rw [if_pos h0]
    exact List.Subset.refl _
  · rw [if_neg h0]
    exact List.nil_subset _

end StoreCall

/-- A row of a root. -/
def Root.referent : Root → Ident → Referent
  | invoice => .invoice
  | submission => .submission
  | history => .history

/-- The rows that are there for sure, given what a statement has answered. -/
def StoreCall.shows : (c : StoreCall) → c.Answer → List Referent
  | find root _, rows => rows.map fun row => root.referent (root.idOf row)
  | insertInvoice _, i => [.invoice i.id]
  | insertSubmission _, x => [.submission x.id]
  | insertHistory _, h => [.history h.id]
  | updateSubmissionStatus id _ _, n => if n = 0 then [] else [.submission id]
  | team id, found => if found.isSome then [.team id] else []
  | findLimit .., found => found.toList.flatMap Limit.refers
  | _, _ => []

theorem Tables.Keyed.rows {t : Tables} (h : t.Keyed) : (root : Root) → (root.rows t).KeyedBy root.idOf
  | .invoice => h.invoices
  | .submission => h.submissions
  | .history => h.histories

theorem Tables.has_referent {t : Tables} {root : Root} {id : Ident} :
    t.Has (root.referent id) ↔ ((root.rows t).get? id).isSome := by
  cases root <;> rfl

namespace Session

/-- A changed invoice refers to what it referred to before, or to what the change makes it. -/
theorem refers_of_mem_revisions {s : Session} {f : Invoice → Option Invoice} {ids : List Ident}
    {p : Put} (hp : p ∈ s.revisions f ids) {x : Referent} (hx : x ∈ p.refers)
    {P : Prop} (hf : ∀ i j, f i = some j → x ∈ j.refers → P ∨ x ∈ i.refers) :
    P ∨ s.view.Refers x := by
  obtain ⟨j, hj, rfl⟩ := List.mem_map.1 hp
  obtain ⟨id, -, h⟩ := List.mem_filterMap.1 hj
  obtain ⟨i, hi, hij⟩ := Option.bind_eq_some_iff.1 h
  exact (hf i j hij hx).imp_right fun hx => .inr (.inr (.inl ⟨id, i, hi, hx⟩))

/-- **What is written** refers to what the statement cites, or to what a row that the session sees refers
to. -/
theorem refers_of_mem_writes {l : Ledger} {s : Session} {c : StoreCall} {p : Put}
    (hp : p ∈ s.writes l c) {x : Referent} (hx : x ∈ p.refers) : x ∈ c.cites ∨ s.view.Refers x := by
  cases c with
  | updateInvoiceStatus id status =>
    refine refers_of_mem_revisions hp hx fun i j hij hx => ?_
    cases hij
    exact .inr hx
  | setHasSubmission ids value =>
    refine refers_of_mem_revisions hp hx fun i j hij hx => ?_
    cases hij
    exact .inr hx
  | markPaid ids settlement =>
    refine refers_of_mem_revisions hp hx fun i j hij hx => ?_
    split at hij
    · cases hij
      exact .inl hx
    · cases hij
  | linkInvoices submission ids =>
    obtain ⟨link, hlink, rfl⟩ := List.mem_map.1 hp
    obtain ⟨id, hid, rfl⟩ := List.mem_map.1 hlink
    exact .inl (List.mem_flatMap.2 ⟨id, hid, hx⟩)
  | insertLogEntry new =>
    rw [List.mem_singleton.1 hp] at hx
    exact .inl hx
  | saveLimit limit =>
    rw [writes] at hp
    split at hp
    next h0 =>
      rw [List.mem_singleton.1 hp] at hx
      rw [StoreCall.cites, if_pos h0]
      exact .inl hx
    next h0 =>
      obtain ⟨stored, hstored, rfl⟩ := Option.map_eq_some_iff.1 (Option.mem_toList.1 hp)
      exact .inr (.inr (.inr (.inr ⟨limit.id, stored, hstored, hx⟩)))
  | insertInvoice new =>
    rw [List.mem_singleton.1 hp] at hx
    cases hx
  | insertSubmission new | insertHistory new =>
    rw [List.mem_singleton.1 hp] at hx
    cases hx
  | updateSubmissionStatus id status completedBy =>
    obtain ⟨y, -, rfl⟩ := Option.map_eq_some_iff.1 (Option.mem_toList.1 hp)
    cases hx
  | deleteLimits teamId forTeam =>
    obtain ⟨id, -, rfl⟩ := List.mem_map.1 hp
    cases hx
  | _ => cases hp

end Session

/-! ## Sessions that can be relied on -/

/-- Whatever the session's snapshot and writes refer to is there, and so is what is known. -/
structure Ledger.Grounds (l : Ledger) (s : Session) (known : List Referent) : Prop where
  snapshot_has : ∀ x, s.snapshot.Has x → l.tables.Has x
  snapshot_refers : ∀ x, s.snapshot.Refers x → l.tables.Has x
  changes_refer : ∀ x, s.changes.Refers x → (l.tables.apply s.changes).Has x
  known : ∀ x ∈ known, (l.tables.apply s.changes).Has x

namespace Ledger.Grounds

variable {l l' : Ledger} {s : Session} {known : List Referent} {x : Referent}

/-- More rows are no harm. -/
theorem mono (h : l.Grounds s known) (htables : ∀ x, l.tables.Has x → l'.tables.Has x) :
    l'.Grounds s known := by
  have kept (x : Referent) (hx : (l.tables.apply s.changes).Has x) :
      (l'.tables.apply s.changes).Has x :=
    Tables.has_apply_iff.2 ((Tables.has_apply_iff.1 hx).imp_left (htables x))
  exact ⟨fun x hx => htables x (h.snapshot_has x hx), fun x hx => htables x (h.snapshot_refers x hx),
    fun x hx => kept x (h.changes_refer x hx), fun x hx => kept x (h.known x hx)⟩

/-- A session that has just begun. -/
theorem begin (hclosed : l.tables.Closed) : l.begin.2.Grounds l.begin.1 [] where
  snapshot_has _ hx := hx
  snapshot_refers x hx := hclosed x hx
  changes_refer := by
    rintro x (⟨l, hl, -⟩ | ⟨i, a, ha, -⟩ | ⟨i, a, ha, -⟩ | ⟨i, a, ha, -⟩)
    · cases hl
    all_goals cases ha
  known := nofun

/-- What is known may be forgotten. -/
theorem forget (h : l.Grounds s known) : l.Grounds s [] :=
  ⟨h.snapshot_has, h.snapshot_refers, h.changes_refer, nofun⟩

/-- **The session can commit**: what it leaves is closed. -/
theorem closed (h : l.Grounds s known) (hclosed : l.tables.Closed) :
    (l.tables.apply s.changes).Closed := by
  intro x hx
  rcases Tables.refers_apply hx with hx | hx
  · exact Tables.has_apply_iff.2 (.inl (hclosed x hx))
  · exact h.changes_refer x hx

theorem has_of_view (h : l.Grounds s known) (hx : s.view.Has x) : (l.tables.apply s.changes).Has x :=
  Tables.has_apply_iff.2 ((Tables.has_apply_iff.1 hx).imp_left (h.snapshot_has x))

theorem has_of_view_refers (h : l.Grounds s known) (hx : s.view.Refers x) :
    (l.tables.apply s.changes).Has x := by
  rcases Tables.refers_apply hx with hx | hx
  · exact Tables.has_apply_iff.2 (.inl (h.snapshot_refers x hx))
  · exact h.changes_refer x hx

/-- What was there before a call is there after it, and so is what the call writes. -/
theorem has_answer (hl : l.Hosts s) (c : StoreCall)
    (hx : (l.tables.apply s.changes).Has x ∨ ∃ p ∈ s.writes l c, p.referent? = some x) :
    ((s.answer l c).2.1.tables.apply (s.answer l c).2.2.changes).Has x := by
  rw [(s.answer_ledger l c).tables, hl.answer_changes, Tables.has_apply_iff, Changes.has_putAll]
  rcases hx with hx | hx
  · exact (Tables.has_apply_iff.1 hx).imp_right .inr
  · exact .inr (.inl hx)

/-- **What a statement shows** is there afterwards. -/
theorem has_shown (h : l.Grounds s known) (hl : l.Hosts s) (hclosed : l.tables.Closed) {c : StoreCall}
    {a : c.Answer} (ha : (s.answer l c).1 = .ok a) (hx : x ∈ c.shows a) :
    ((s.answer l c).2.1.tables.apply (s.answer l c).2.2.changes).Has x := by
  have keyed := hl.shown_keyed
  refine has_answer hl c ?_
  cases c with
  | find root q =>
    obtain ⟨row, hrow, rfl⟩ := List.mem_map.1 hx
    refine .inl (Tables.has_referent.2 ?_)
    have found : row ∈ q.select (l.tables.apply s.changes) := by
      simp only [Session.answer, Session.find] at ha
      split at ha
      · split at ha
        · cases ha
          exact (root.inOrder_perm _).mem_iff.1 hrow
        · cases ha
      · cases ha
        exact (root.inOrder_perm _).mem_iff.1 hrow
    have hvalue := Query.mem_values_of_mem_select found
    rw [(keyed.rows root).mem_values_iff] at hvalue
    rw [hvalue]
    rfl
  | insertInvoice new =>
    cases ha
    rw [List.mem_singleton.1 hx]
    exact .inr ⟨_, List.mem_singleton.2 rfl, rfl⟩
  | insertSubmission new =>
    cases ha
    rw [List.mem_singleton.1 hx]
    exact .inr ⟨_, List.mem_singleton.2 rfl, rfl⟩
  | insertHistory new =>
    cases ha
    rw [List.mem_singleton.1 hx]
    exact .inr ⟨_, List.mem_singleton.2 rfl, rfl⟩
  | updateSubmissionStatus id status completedBy =>
    refine .inl (h.has_of_view ?_)
    simp only [Session.answer] at ha
    split at ha
    next y hy =>
      cases ha
      rw [List.mem_singleton.1 hx]
      show (s.view.submissions.get? id).isSome
      rw [hy]
      rfl
    next =>
      cases ha
      cases hx
  | team id =>
    cases ha
    rw [StoreCall.shows] at hx
    split at hx
    next hfound =>
      rw [List.mem_singleton.1 hx]
      exact .inl hfound
    next => cases hx
  | findLimit teamId scope forTeam =>
    cases ha
    obtain ⟨limit, hlimit, hx⟩ := List.mem_flatMap.1 hx
    refine .inl (h.closed hclosed x (.inr (.inr (.inr ?_))))
    have hvalue := List.mem_of_find?_eq_some (Option.mem_toList.1 hlimit)
    obtain ⟨i, hi⟩ := Rows.mem_values.1 hvalue
    exact ⟨i, limit, hi, hx⟩
  | _ => cases hx

/-- **A call** that cites only what is known keeps the session reliable, and what it shows is known from
then on. -/
theorem answer (h : l.Grounds s known) (hl : l.Hosts s) (hclosed : l.tables.Closed) {c : StoreCall}
    (hc : c.cites ⊆ known) : (s.answer l c).2.1.Grounds (s.answer l c).2.2
      (known ++ (s.answer l c).1.toOption.elim [] c.shows) := by
  have tables_eq := (s.answer_ledger l c).tables
  refine ⟨?snapshot_has, ?snapshot_refers, fun x hx => ?changes_refer, fun x hx => ?known⟩
  case snapshot_has =>
    rw [tables_eq, hl.answer_session c]
    split
    · exact fun x hx => hx
    · exact h.snapshot_has
  case snapshot_refers =>
    rw [tables_eq, hl.answer_session c]
    split
    · exact hclosed
    · exact h.snapshot_refers
  case changes_refer =>
    rw [hl.answer_changes] at hx
    refine has_answer hl c (.inl ?_)
    rcases Changes.refers_putAll hx with ⟨p, hp, hx⟩ | hx
    · rcases Session.refers_of_mem_writes hp hx with hcited | hseen
      · exact h.known x (hc hcited)
      · exact h.has_of_view_refers hseen
    · exact h.changes_refer x hx
  case known =>
    rcases List.mem_append.1 hx with hx | hx
    · exact has_answer hl c (.inl (h.known x hx))
    · cases ha : (s.answer l c).1 with
      | error e =>
        rw [ha] at hx
        cases hx
      | ok a =>
        rw [ha] at hx
        exact h.has_shown hl hclosed ha hx

end Ledger.Grounds

end TeamLedger
