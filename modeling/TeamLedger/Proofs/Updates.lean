/-
Which rows a statement that changes rows finds.

A statement that reads takes a new snapshot; one that changes rows does not. It
works on the snapshot of the last statement that read, or of the beginning, with
the session's own writes on top. To say so without speaking of snapshots, a run is
told together with what was committed when the session under each name last read
(`World.Recalled`).

A row that is found in this way may be out of date, and a row that has been
committed since is not found at all. The log says which rows these are
(`Log.Missed`): the session has not written the row, and another session has
committed a write to it since the session's last read. For every other row the
statement does what it would do on the rows as they are committed now.
-/
import Mathlib.Data.Finset.Card
import TeamLedger.Proofs.Locks

set_option autoImplicit false

namespace TeamLedger

/-! ## Statements that change rows -/

namespace StoreCall

/-- The call changes or deletes rows that it finds. Saving a limit without an id adds one. -/
def updates : StoreCall → Bool
  | updateInvoiceStatus .. | setHasSubmission .. | markPaid .. | updateSubmissionStatus ..
  | deleteLimits .. => true
  | saveLimit limit => limit.id ≠ 0
  | _ => false

/-- The condition of a deletion. -/
def dooms (teamId : Ident) (forTeam : Option Ident) (x : Limit) : Bool :=
  x.teamId = teamId && forTeam.all fun f => x.forTeam = some f

/-- What the statement makes of a row, if the row is in the tables and meets its condition. -/
def revise (t : Tables) : StoreCall → RowKey → Option Put
  | updateInvoiceStatus id status, ⟨.invoice, k⟩ =>
    if k = id then (t.invoices.get? k).map fun i => .invoice { i with status } else none
  | setHasSubmission ids value, ⟨.invoice, k⟩ =>
    if k ∈ ids then (t.invoices.get? k).map fun i => .invoice { i with hasSubmission := value }
    else none
  | markPaid ids settlement, ⟨.invoice, k⟩ =>
    if k ∈ ids then
      ((t.invoices.get? k).filter (·.status = .notPaid)).map fun i => .invoice (i.settled settlement)
    else none
  | updateSubmissionStatus id status completedBy, ⟨.submission, k⟩ =>
    if k = id then
      (t.submissions.get? k).map fun x =>
        .submission { x with status, completedBy := some completedBy }
    else none
  | saveLimit limit, ⟨.limit, k⟩ =>
    if k = limit.id then
      (t.limits.get? k).map fun stored => .limit { stored with threshold := limit.threshold }
    else none
  | deleteLimits teamId forTeam, ⟨.limit, k⟩ =>
    ((t.limits.get? k).filter (dooms teamId forTeam)).map fun _ => .dropLimit k
  | _, _ => none

/-- What the statement answers: the number of rows that meet its condition, except that an id listed
twice counts twice where a flag is set. Saving a limit answers the row, or that there is none. -/
def updateOn (t : Tables) : (c : StoreCall) → Option (Except Failure c.Answer)
  | updateInvoiceStatus id _ => some (.ok (if (t.invoices.get? id).isSome then 1 else 0))
  | setHasSubmission ids _ => some (.ok (ids.countP fun k => (t.invoices.get? k).isSome))
  | markPaid ids _ =>
    some (.ok (ids.toFinset.filter fun k => (t.invoices.get? k).any (·.status = .notPaid)).card)
  | updateSubmissionStatus id _ _ => some (.ok (if (t.submissions.get? id).isSome then 1 else 0))
  | saveLimit limit =>
    match t.limits.get? limit.id with
    | some stored => some (.ok { stored with threshold := limit.threshold })
    | none => some (.error (.refused (.notFound (.limit limit.id))))
  | deleteLimits teamId forTeam => some (.ok (t.limits.values.countP (dooms teamId forTeam)))
  | _ => none

/-- What becomes of a row depends on that row alone. -/
theorem revise_congr {t u : Tables} {k : RowKey} (h : t.SameRow u k) (c : StoreCall) :
    c.revise t k = c.revise u k := by
  obtain ⟨kind, id⟩ := k
  cases kind with
  | invoice =>
    have row_eq : t.invoices.get? id = u.invoices.get? id := h
    cases c <;> simp only [revise, row_eq]
  | submission =>
    have row_eq : t.submissions.get? id = u.submissions.get? id := h
    cases c <;> simp only [revise, row_eq]
  | limit =>
    have row_eq : t.limits.get? id = u.limits.get? id := h
    cases c <;> simp only [revise, row_eq]

theorem updateOn_congr {t u : Tables} (h : ∀ k, t.SameRow u k) (c : StoreCall) :
    c.updateOn t = c.updateOn u := by
  have invoices_eq : t.invoices = u.invoices := Rows.ext_get? fun k => h ⟨.invoice, k⟩
  have submissions_eq : t.submissions = u.submissions := Rows.ext_get? fun k => h ⟨.submission, k⟩
  have limits_eq : t.limits = u.limits := Rows.ext_get? fun k => h ⟨.limit, k⟩
  cases c <;> simp only [updateOn, invoices_eq, submissions_eq, limits_eq]

end StoreCall

/-! ## What is written -/

namespace Session

theorem mem_revisions {s : Session} {f : Invoice → Option Invoice} {ids : List Ident} {p : Put} :
    p ∈ s.revisions f ids ↔
      ∃ k ∈ ids, ((s.view.invoices.get? k).bind f).map Put.invoice = some p := by
  simp only [revisions, List.mem_map, List.mem_filterMap, Option.map_eq_some_iff]
  constructor
  · rintro ⟨i, ⟨k, hk, hi⟩, rfl⟩
    exact ⟨k, hk, i, hi, rfl⟩
  · rintro ⟨k, hk, i, hi, rfl⟩
    exact ⟨i, ⟨k, hk, hi⟩, rfl⟩

/-- Rows of one kind that are listed by their ids, and what becomes of each. -/
theorem exists_listed (kind : RowKind) (ids : List Ident) (row : Ident → Option Put)
    {revise : RowKey → Option Put} (here : ∀ k, revise ⟨kind, k⟩ = if k ∈ ids then row k else none)
    (other : ∀ kind' k, kind' ≠ kind → revise ⟨kind', k⟩ = none) {p : Put} :
    (∃ k ∈ ids, row k = some p) ↔ ∃ k, revise k = some p := by
  constructor
  · rintro ⟨k, hk, hp⟩
    exact ⟨⟨kind, k⟩, by rw [here, if_pos hk, hp]⟩
  · rintro ⟨⟨kind', k⟩, hp⟩
    by_cases hkind : kind' = kind
    · rw [hkind, here] at hp
      split at hp
      next hk => exact ⟨k, hk, hp⟩
      next => cases hp
    · rw [other kind' k hkind] at hp
      cases hp

/-- **A statement writes the rows that it finds**, and nothing else. -/
theorem mem_writes_iff {l : Ledger} {s : Session} {c : StoreCall} (hc : c.updates = true)
    (hlimits : s.view.limits.KeyedBy Limit.id) {p : Put} :
    p ∈ s.writes l c ↔ ∃ k, c.revise s.view k = some p := by
  cases c with
  | updateInvoiceStatus id status =>
    rw [writes, mem_revisions]
    refine exists_listed .invoice _ _ (fun k => ?_) fun kind k h => ?_
    · simp only [StoreCall.revise, List.mem_singleton]
      cases s.view.invoices.get? k <;> rfl
    · cases kind <;> first | rfl | exact absurd rfl h
  | setHasSubmission ids value =>
    rw [writes, mem_revisions]
    refine exists_listed .invoice _ _ (fun k => ?_) fun kind k h => ?_
    · simp only [StoreCall.revise]
      cases s.view.invoices.get? k <;> rfl
    · cases kind <;> first | rfl | exact absurd rfl h
  | markPaid ids settlement =>
    rw [writes, mem_revisions]
    refine exists_listed .invoice _ _ (fun k => ?_) fun kind k h => ?_
    · simp only [StoreCall.revise]
      cases s.view.invoices.get? k with
      | none => rfl
      | some i =>
        by_cases hopen : i.status = .notPaid
        · rw [Option.filter_some_pos (by simpa using hopen), Option.bind_some, if_pos hopen]
          rfl
        · rw [Option.filter_some_neg (by simpa using hopen), Option.bind_some, if_neg hopen]
          rfl
    · cases kind <;> first | rfl | exact absurd rfl h
  | updateSubmissionStatus id status completedBy =>
    rw [writes, Option.mem_toList, ← exists_listed .submission [id]
      (fun k => (s.view.submissions.get? k).map fun x =>
        Put.submission { x with status, completedBy := some completedBy })]
    · simp
    · intro k
      simp only [StoreCall.revise, List.mem_singleton]
    · intro kind k h
      cases kind <;> first | rfl | exact absurd rfl h
  | saveLimit limit =>
    have hid : limit.id ≠ 0 := by simpa [StoreCall.updates] using hc
    rw [writes, if_neg hid, Option.mem_toList, ← exists_listed .limit [limit.id]
      (fun k => (s.view.limits.get? k).map fun stored =>
        Put.limit { stored with threshold := limit.threshold })]
    · simp
    · intro k
      simp only [StoreCall.revise, List.mem_singleton]
    · intro kind k h
      cases kind <;> first | rfl | exact absurd rfl h
  | deleteLimits teamId forTeam =>
    simp only [writes, List.map_map, List.mem_map, List.mem_filter, Function.comp]
    constructor
    · rintro ⟨x, ⟨hx, hdoomed⟩, rfl⟩
      refine ⟨⟨.limit, x.id⟩, ?_⟩
      have found : (some x).filter (StoreCall.dooms teamId forTeam) = some x :=
        Option.filter_some_pos hdoomed
      rw [StoreCall.revise, hlimits.mem_values_iff.1 hx, found]
      rfl
    · rintro ⟨⟨kind, k⟩, hp⟩
      cases kind with
      | limit =>
        rw [StoreCall.revise, Option.map_eq_some_iff] at hp
        obtain ⟨x, hx, rfl⟩ := hp
        obtain ⟨hget, hdoomed⟩ := Option.filter_eq_some_iff.1 hx
        exact ⟨x, ⟨Rows.mem_values.2 ⟨k, hget⟩, hdoomed⟩, by rw [hlimits k x hget]⟩
      | _ => cases hp
  | _ => cases hc

/-! ## What is answered -/

/-- Settling counts the unpaid invoices among those listed, each once: it is paid the second time. -/
theorem settle_count (settlement : Settlement) (ids : List Ident) (s : Session)
    (hs : s.view.invoices.KeyedBy Invoice.id) :
    (s.updateInvoices
        (fun i => if i.status = .notPaid then some (i.settled settlement) else none) ids).1 =
      (ids.toFinset.filter fun k => (s.view.invoices.get? k).any (·.status = .notPaid)).card := by
  induction ids generalizing s with
  | nil => rfl
  | cons id ids ih =>
    rw [updateInvoices, List.toFinset_cons, Finset.filter_insert]
    by_cases hopen : (s.view.invoices.get? id).any (·.status = .notPaid) = true
    · obtain ⟨i, hrow, hstatus⟩ := (Option.any_eq_true ..).1 hopen
      replace hstatus : i.status = .notPaid := by simpa using hstatus
      have hi : (i.settled settlement).id = id := hs id i hrow
      -- what is left to settle is what was there to settle, without this invoice
      have left : (ids.toFinset.filter fun k =>
            ((s.putInvoice (i.settled settlement)).view.invoices.get? k).any
              (·.status = .notPaid)) =
          (ids.toFinset.filter fun k =>
            (s.view.invoices.get? k).any (·.status = .notPaid)).erase id := by
        ext k
        simp only [Finset.mem_filter, Finset.mem_erase, get?_view_putInvoice, hi]
        by_cases hk : k = id
        · simp [hk, Invoice.settled]
        · simp [hk]
      have rest := ih (s.putInvoice (i.settled settlement)) (keyed_view_putInvoice hs _)
      rw [if_pos hopen]
      simp only [hrow, Option.bind_some, if_pos hstatus]
      rw [rest, left, ← Finset.card_erase_add_one (Finset.mem_insert_self id _),
        Finset.erase_insert_eq_erase]
    · rw [if_neg hopen, ← ih s hs]
      have passed : (s.view.invoices.get? id).bind
          (fun i => if i.status = .notPaid then some (i.settled settlement) else none) = none := by
        cases hrow : s.view.invoices.get? id with
        | none => rfl
        | some i =>
          rw [hrow] at hopen
          rw [Option.bind_some, if_neg (by simpa using hopen)]
      rw [passed]

/-- **A statement that changes rows answers on what the session sees**, which may be old. -/
theorem updateOn_eq (l : Ledger) (s : Session) {c : StoreCall} (hc : c.updates = true)
    (hs : s.view.invoices.KeyedBy Invoice.id) : c.updateOn s.view = some (s.answer l c).1 := by
  cases c with
  | updateInvoiceStatus id status =>
    have count := updateInvoices_count (g := fun i => { i with status }) (fun i => rfl) [id] s hs
    rw [List.countP_singleton] at count
    simp only [StoreCall.updateOn, answer, count]
  | setHasSubmission ids value =>
    have count := updateInvoices_count (g := fun i => { i with hasSubmission := value })
      (fun i => rfl) ids s hs
    simp only [StoreCall.updateOn, answer, count]
  | markPaid ids settlement =>
    simp only [StoreCall.updateOn, answer, settle_count settlement ids s hs]
  | updateSubmissionStatus id status completedBy =>
    simp only [StoreCall.updateOn, answer]
    cases s.view.submissions.get? id <;> rfl
  | saveLimit limit =>
    have hid : limit.id ≠ 0 := by simpa [StoreCall.updates] using hc
    simp only [StoreCall.updateOn, answer, saveLimit, if_neg hid]
    cases s.view.limits.get? limit.id <;> rfl
  | deleteLimits teamId forTeam =>
    simp only [StoreCall.updateOn, answer, List.length_map, List.countP_eq_length_filter]
    rfl
  | _ => cases hc

end Session

/-! ## What was committed at the last read -/

namespace Log

/-- Another session has committed a write to a row that this session has not written, and this session
has not read since. -/
def Missed (log : List Note) (id : SessionId) (k : RowKey) : Prop :=
  (∀ n, ¬ WroteAt log id k n) ∧ ∃ r, LastReadBefore log id log.length r ∧ CommittedSince log id k r

end Log

/-- Under changes that write a row, it is the same over any tables. -/
theorem Tables.sameRow_of_written {t u : Tables} {c : Changes} {k : RowKey} (h : k ∈ c.written) :
    (t.apply c).SameRow (u.apply c) k := by
  obtain ⟨kind, id⟩ := k
  rw [Changes.mem_written] at h
  cases kind with
  | invoice =>
    obtain ⟨i, hi⟩ := Option.isSome_iff_exists.1 h
    show (t.invoices.overlay c.invoices).get? id = (u.invoices.overlay c.invoices).get? id
    rw [Rows.get?_overlay, Rows.get?_overlay, hi, Option.some_or, Option.some_or]
  | submission =>
    obtain ⟨x, hx⟩ := Option.isSome_iff_exists.1 h
    show (t.submissions.overlay c.submissions).get? id = (u.submissions.overlay c.submissions).get? id
    rw [Rows.get?_overlay, Rows.get?_overlay, hx, Option.some_or, Option.some_or]
  | limit =>
    show ((t.limits.overlay c.limits).eraseAll c.deletedLimits.ids).get? id =
      ((u.limits.overlay c.limits).eraseAll c.deletedLimits.ids).get? id
    rw [Rows.get?_eraseAll, Rows.get?_eraseAll]
    by_cases hdeleted : id ∈ c.deletedLimits.ids
    · rw [if_pos hdeleted, if_pos hdeleted]
    · obtain ⟨x, hx⟩ := Option.isSome_iff_exists.1 (h.resolve_right hdeleted)
      rw [if_neg hdeleted, if_neg hdeleted, Rows.get?_overlay, Rows.get?_overlay, hx,
        Option.some_or, Option.some_or]

/-- Whatever is deleted stays deleted. -/
theorem Changes.mem_deletedLimits_putAll {c : Changes} {ps : List Put} {k : Ident}
    (h : k ∈ c.deletedLimits.ids ∨ Put.dropLimit k ∈ ps) : k ∈ (c.putAll ps).deletedLimits.ids := by
  induction ps generalizing c with
  | nil => exact h.resolve_right fun hp => nomatch hp
  | cons p ps ih =>
    refine ih ?_
    rcases h with h | h
    · refine .inl ?_
      cases p with
      | dropLimit id => exact (mem_ids_insertAll_singleton ..).2 (.inr h)
      | _ => exact h
    · rcases List.mem_cons.1 h with rfl | h
      · exact .inl ((mem_ids_insertAll_singleton ..).2 (.inl rfl))
      · exact .inr h

namespace World

variable {around : Surroundings} {w : World} {log : List Note} {past : String → Tables}

/-- What was committed when the session under each name last read, after one more event. -/
def pastAfter (w : World) (past : String → Tables) : LedgerEvent → String → Tables
  | .begin name => Function.update past name w.ledger.tables
  | .call name c => if c.reads then Function.update past name w.ledger.tables else past
  | .commit _ | .rollback _ | .addTeam .. => past

/-- The world can be reached, the log holds the notes of the events on the way, and `past` says for
each name what was committed when its session last read. -/
inductive Recalled (around : Surroundings) : World → List Note → (String → Tables) → Prop
  | start (past : String → Tables) : Recalled around { around } [] past
  | step {w : World} {log : List Note} {past : String → Tables} (h : Recalled around w log past)
      (e : LedgerEvent) : Recalled around (w.happen e) (log ++ w.notes e) (w.pastAfter past e)

theorem Recalled.logged (h : Recalled around w log past) : Logged around w log := by
  induction h with
  | start => exact .start
  | step _ e ih => exact ih.step e

/-- **A session has in its snapshot what was committed when it last read.** -/
theorem Recalled.snapshot_eq (h : Recalled around w log past) {name : String} {s : Session}
    (hs : w.open? name = some s) : s.snapshot = past name := by
  induction h generalizing name s with
  | start => cases hs
  | @step w log past h e ih =>
    cases e with
    | begin other =>
      rw [happen, open?_begin] at hs
      rw [pastAfter, Function.update_apply]
      split at hs
      next hname =>
        rw [if_pos hname, ← Option.some.inj hs]
        exact tables_rollback w other
      next hname =>
        rw [if_neg hname]
        exact ih hs
    | commit other =>
      rw [happen, open?_commit] at hs
      split at hs
      · cases hs
      · exact ih hs
    | rollback other =>
      rw [happen, open?_rollback] at hs
      split at hs
      · cases hs
      · exact ih hs
    | addTeam other kind => exact ih hs
    | call other c =>
      rw [pastAfter]
      cases ht : w.open? other with
      | none =>
        rw [happen_call_of_none ht] at hs
        -- nobody is there to read
        have hne : name ≠ other := fun heq => by
          rw [heq, ht] at hs
          cases hs
        split
        · rw [Function.update_of_ne hne]
          exact ih hs
        · exact ih hs
      | some t =>
        obtain ⟨w', -, happen_eq, -, hopen⟩ := run_call ht c
        have hfit := h.logged.traced.sound.fits other t ht
        rw [happen_eq, hopen] at hs
        split at hs
        next hname =>
          rw [← Option.some.inj hs, t.answer_session w.ledger c hfit.view_keyed.invoices, hname]
          by_cases hreads : c.reads = true
          · rw [if_pos hreads, if_pos hreads, Function.update_self]
            rfl
          · rw [if_neg hreads, if_neg hreads, Session.writeAll_snapshot]
            exact ih ht
        next hname =>
          split
          · rw [Function.update_of_ne hname]
            exact ih hs
          · exact ih hs

/-- What is noted of a list of events. -/
def notesAll (w : World) : List LedgerEvent → List Note
  | [] => []
  | e :: es => w.notes e ++ (w.happen e).notesAll es

theorem Logged.happenAll (h : Logged around w log) (es : List LedgerEvent) :
    Logged around (w.happenAll es) (log ++ w.notesAll es) := by
  induction es generalizing w log with
  | nil =>
    rw [notesAll, List.append_nil]
    exact h
  | cons e es ih =>
    rw [notesAll, ← List.append_assoc]
    exact ih (h.step e)

/-- A limit that a session has deleted is there no more once the session has committed. -/
theorem Logged.limit_dropped (h : Logged around w log) {name : String} {s : Session}
    (hs : w.open? name = some s) {k : Ident} (hk : Put.dropLimit k ∈ Log.puts log s.id)
    (hok : (w.commit name).1 = .ok ()) : (w.commit name).2.ledger.tables.limits.get? k = none := by
  have traced := h.traced.sessions name s hs
  have deleted : k ∈ s.changes.deletedLimits.ids := by
    rw [traced.changes_eq]
    exact Changes.mem_deletedLimits_putAll (.inr hk)
  rw [tables_commit hs hok]
  show ((w.ledger.tables.limits.overlay s.changes.limits).eraseAll _).get? k = none
  rw [Rows.get?_eraseAll, if_pos deleted]

/-! ## Every update -/

/-- What a statement that changes rows does, given the tables that it works on and those that it would
work on if it read first. -/
structure UpdatesOn (w : World) (log : List Note) (name : String) (s : Session) (c : StoreCall)
    (seen now : Tables) : Prop where
  /-- It answers what it answers on the tables it works on. -/
  answer : ∃ a w', w.run name none (Program.request (.store c)) = some (a, w') ∧
    c.updateOn seen = some a
  /-- It writes the rows that meet its condition there, and no others. -/
  writes : ∃ ps : List Put, w.notes (.call name c) = ps.map (.wrote s.id) ∧
    ∀ p, p ∈ ps ↔ ∃ k, c.revise seen k = some p
  /-- With a row that nobody else has committed since the session last read, it does the same as it
  would now. -/
  current : ∀ k, ¬ Log.Missed log s.id k → c.revise seen k = c.revise now k
  /-- Where there is no other row, it also answers the same. -/
  answer_current : (∀ k, ¬ Log.Missed log s.id k) → c.updateOn seen = c.updateOn now
  /-- A limit that it deletes is gone for good, whenever the session commits. -/
  dropped : ∀ k, c.revise seen ⟨.limit, k⟩ = some (.dropLimit k) → ∀ (es : List LedgerEvent) s',
    (w.happenAll (.call name c :: es)).open? name = some s' → s'.id = s.id →
      ((w.happenAll (.call name c :: es)).commit name).1 = .ok () →
        ((w.happenAll (.call name c :: es)).commit name).2.ledger.tables.limits.get? k = none

/-- **A statement that changes rows finds what its session last read, with the session's own writes on
top.** In every world that can be reached, by any events of any number of sessions, it answers and
writes as on the tables that were committed when the session last read or began; rows that other
sessions have committed since are missed. With all other rows it does what it would do on the rows
committed now. -/
theorem updates_find_last_read (h : Recalled around w log past) {name : String} {s : Session}
    (hs : w.open? name = some s) {c : StoreCall} (hc : c.updates = true) :
    ∃ seen now, (past name).ReadBy (Log.puts log s.id) seen ∧
      w.ledger.tables.ReadBy (Log.puts log s.id) now ∧ w.UpdatesOn log name s c seen now := by
  have hlogged := h.logged
  have traced := hlogged.traced.sessions name s hs
  have hfit := hlogged.traced.sound.fits name s hs
  have view_eq : (past name).putAll (Log.puts log s.id) = s.view := by
    rw [← traced.apply_eq, ← h.snapshot_eq hs]
    rfl
  have now_eq := traced.apply_eq w.ledger.tables
  have hreads : c.reads = false := by
    cases c <;> first | rfl | cases hc
  have notes_eq : w.notes (.call name c) = (s.writes w.ledger c).map (.wrote s.id) := by
    simp only [notes, hs, Option.elim, callNotes, hreads, Bool.false_eq_true, if_false,
      List.nil_append]
  have writes_iff (p : Put) : p ∈ s.writes w.ledger c ↔ ∃ k, c.revise s.view k = some p :=
    Session.mem_writes_iff hc hfit.view_keyed.limits
  -- a row that is not missed is either the session's own, or it has the version noted for it
  have same (k : RowKey) (hk : ¬ Log.Missed log s.id k) :
      (w.ledger.tables.apply s.changes).SameRow s.view k := by
    by_cases hwritten : k ∈ s.changes.written
    · exact Tables.sameRow_of_written hwritten
    · have unwritten : ∀ n, ¬ Log.WroteAt log s.id k n :=
        fun n hn => hwritten (traced.mem_written.2 ⟨n, hn⟩)
      have fresh : ¬ Log.Stale log s.id k := by
        rintro (ho | hmissed)
        · obtain ⟨n, hn⟩ := ho.wrote
          exact unwritten n hn
        · exact hk hmissed
      have version_eq : w.ledger.versions k = s.base k := by
        by_contra hne
        exact fresh ((traced.stale_iff k).1 hne)
      exact hfit.sameRow_view version_eq
  refine ⟨s.view, w.ledger.tables.apply s.changes, ?_, ?_, ?_⟩
  · rw [← view_eq]
    exact (past name).readBy_putAll _
  · rw [now_eq]
    exact w.ledger.tables.readBy_putAll _
  refine ⟨?_, ⟨_, notes_eq, writes_iff⟩, fun k hk => (StoreCall.revise_congr (same k hk) c).symm,
    fun hall => (StoreCall.updateOn_congr (fun k => same k (hall k)) c).symm, ?_⟩
  · obtain ⟨w', hrun, -⟩ := run_call hs c
    exact ⟨_, w', hrun, s.updateOn_eq w.ledger hc hfit.view_keyed.invoices⟩
  · intro k hk es s' hs' hid hok
    refine (hlogged.happenAll (.call name c :: es)).limit_dropped hs' ?_ hok
    -- the deletion is among the notes of the call, and stays in the log
    have noted : Put.dropLimit k ∈ s.writes w.ledger c := (writes_iff _).2 ⟨_, hk⟩
    rw [hid, notesAll, notes_eq, Log.puts_append, Log.puts_append, Log.puts_map_wrote]
    exact List.mem_append_right _ (List.mem_append_left _ noted)

/-- A session begins, another one stores a limit and commits, and then the first one deletes the limits
of the team: it finds none, and the limit is there after its commit. -/
theorem updates_find_last_read_stale : ∃ w log past s seen now,
    Recalled { clock := ⟨⟨0, 0, by decide⟩⟩ } w log past ∧ w.open? "late" = some s ∧
      (past "late").ReadBy (Log.puts log s.id) seen ∧
      w.ledger.tables.ReadBy (Log.puts log s.id) now ∧
      (StoreCall.deleteLimits 0 none).updateOn seen = some (.ok 0) ∧
      (StoreCall.deleteLimits 0 none).updateOn now = some (.ok 1) ∧
      ((w.happen (.call "late" (.deleteLimits 0 none))).commit "late").1 = .ok () ∧
      (((w.happen (.call "late" (.deleteLimits 0 none))).commit "late").2.ledger.tables.limits.get? 1)
        = some { (default : Limit) with id := 1 } := by
  have stored : Recalled { clock := ⟨⟨0, 0, by decide⟩⟩ } _ _ _ :=
    ((((Recalled.start fun _ => {}).step (.begin "late")).step (.begin "other")).step
      (.call "other" (.saveLimit default))).step (.commit "other")
  obtain ⟨seen, now, hseen, hnow, -⟩ := updates_find_last_read (c := .deleteLimits 0 none) stored
    (by rfl : World.open? _ "late" = some _) rfl
  refine ⟨_, _, _, _, seen, now, stored, rfl, hseen, hnow, ?_, ?_, by decide, by decide⟩
  · rw [hseen.unique (Tables.readBy_putAll _ _)]
    decide
  · rw [hnow.unique (Tables.readBy_putAll _ _)]
    decide

end World

end TeamLedger
