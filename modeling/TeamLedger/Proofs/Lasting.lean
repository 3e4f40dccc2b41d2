/-
Conditions that hold of rows for good.

What a session writes is a row that it sees, changed in a few fields, or a new
row under the next id. A condition on invoices and submissions that these
changes cannot break, and that every new row meets, lasts: once it holds of all
rows, committed or not, it holds of them whatever calls are made later
(`World.Satisfies.happenAll`), and whatever programs are run (`World.Reached`).

Two conditions are of this sort. No submission has the number 0, which in a
query would stand for no number at all (`World.Logged.submission_ne_zero`). And
an invoice stays of the kind that it was stored with.

A third condition grows with the ledger: every row of a submission is as the
submission was stored under its number, but for how far it has come
(`World.Reached.stored_once`). So a session whose view is old sees another row
than the one that is committed only in its status and in who completed it.
-/
import TeamLedger.Proofs.Finding
import TeamLedger.Proofs.Lives

set_option autoImplicit false

namespace TeamLedger

variable {P : Invoice → Prop} {Q : Submission → Prop} {last : Nat}

/-! ## What is fixed of a submission -/

namespace Submission

/-- What is fixed when a submission is stored. -/
structure Same (x y : Submission) : Prop where
  id : y.id = x.id
  createdBy : y.createdBy = x.createdBy
  amount : y.amount = x.amount
  receipt : y.receipt = x.receipt
  createdAt : y.createdAt = x.createdAt

variable {x y z : Submission}

theorem Same.refl (x : Submission) : x.Same x := ⟨rfl, rfl, rfl, rfl, rfl⟩

theorem Same.revised (x : Submission) (status : Status) (completedBy : Option Ident) :
    x.Same { x with status, completedBy } :=
  ⟨rfl, rfl, rfl, rfl, rfl⟩

theorem Same.symm (h : x.Same y) : y.Same x :=
  ⟨h.id.symm, h.createdBy.symm, h.amount.symm, h.receipt.symm, h.createdAt.symm⟩

theorem Same.trans (h : x.Same y) (h' : y.Same z) : x.Same z where
  id := h'.id.trans h.id
  createdBy := h'.createdBy.trans h.createdBy
  amount := h'.amount.trans h.amount
  receipt := h'.receipt.trans h.receipt
  createdAt := h'.createdAt.trans h.createdAt

/-- At the same end they are the same. -/
theorem Same.ended_eq (h : x.Same y) (status : Status) (completedBy : Option Ident) :
    { y with status, completedBy } = { x with status, completedBy } := by
  rw [h.id, h.createdBy, h.amount, h.receipt, h.createdAt]

/-- The submission is as it was stored under its number, but for how far it has come. -/
def StoredBy (stored : Ident → Submission) (x : Submission) : Prop := (stored x.id).Same x

end Submission

/-! ## Rows that satisfy conditions -/

/-- The conditions hold of the invoices and of the submissions among rows. -/
structure Satisfied (P : Invoice → Prop) (Q : Submission → Prop) (invoices : Rows Invoice)
    (submissions : Rows Submission) : Prop where
  invoice : ∀ id i, invoices.get? id = some i → P i
  submission : ∀ id x, submissions.get? id = some x → Q x

/-- No call breaks the conditions if the ids up to `last` have been handed out. -/
structure Lasting (P : Invoice → Prop) (Q : Submission → Prop) (last : Nat) : Prop where
  same : ∀ i j : Invoice, i.Same j → P i → P j
  moved : ∀ x y : Submission, x.Same y → Q x → Q y
  new_invoice : ∀ i : Invoice, (last : Ident) < i.id → P i
  new_submission : ∀ x : Submission, (last : Ident) < x.id → Q x

namespace Satisfied

theorem empty : Satisfied P Q .empty .empty where
  invoice id i hi := by
    rw [Rows.get?_empty] at hi
    cases hi
  submission id x hx := by
    rw [Rows.get?_empty] at hx
    cases hx

theorem apply {t : Tables} {c : Changes} (ht : Satisfied P Q t.invoices t.submissions)
    (hc : Satisfied P Q c.invoices c.submissions) :
    Satisfied P Q (t.apply c).invoices (t.apply c).submissions where
  invoice id i hi := by
    replace hi : (t.invoices.overlay c.invoices).get? id = some i := hi
    rw [Rows.get?_overlay, Option.or_eq_some_iff] at hi
    rcases hi with hi | ⟨-, hi⟩
    · exact hc.invoice id i hi
    · exact ht.invoice id i hi
  submission id x hx := by
    replace hx : (t.submissions.overlay c.submissions).get? id = some x := hx
    rw [Rows.get?_overlay, Option.or_eq_some_iff] at hx
    rcases hx with hx | ⟨-, hx⟩
    · exact hc.submission id x hx
    · exact ht.submission id x hx

/-- Writing rows that meet the conditions. -/
theorem putAll {c : Changes} {ps : List Put} (h : Satisfied P Q c.invoices c.submissions)
    (hi : ∀ i, Put.invoice i ∈ ps → P i) (hx : ∀ x, Put.submission x ∈ ps → Q x) :
    Satisfied P Q (c.putAll ps).invoices (c.putAll ps).submissions := by
  induction ps generalizing c with
  | nil => exact h
  | cons p ps ih =>
    refine ih ?_ (fun i hp => hi i (List.mem_cons_of_mem _ hp))
      fun x hp => hx x (List.mem_cons_of_mem _ hp)
    cases p with
    | invoice j =>
      refine ⟨fun id i hget => ?_, h.submission⟩
      replace hget : (c.invoices.insert j.id j).get? id = some i := hget
      rw [Rows.get?_insert] at hget
      split at hget
      · cases hget
        exact hi j List.mem_cons_self
      · exact h.invoice id i hget
    | submission y =>
      refine ⟨h.invoice, fun id x hget => ?_⟩
      replace hget : (c.submissions.insert y.id y).get? id = some x := hget
      rw [Rows.get?_insert] at hget
      split at hget
      · cases hget
        exact hx y List.mem_cons_self
      · exact h.submission id x hget
    | _ => exact h

end Satisfied

/-! ## One call -/

namespace Session

variable {l : Ledger} {s : Session} {c : StoreCall}

theorem same_of_mem_revisions {f : Invoice → Option Invoice} (hf : ∀ i j, f i = some j → i.Same j)
    {ids : List Ident} {j : Invoice} (hj : Put.invoice j ∈ s.revisions f ids) :
    ∃ id i, s.view.invoices.get? id = some i ∧ i.Same j := by
  obtain ⟨k, hk, ⟨⟩⟩ := List.mem_map.1 hj
  obtain ⟨id, -, hget⟩ := List.mem_filterMap.1 hk
  obtain ⟨i, hi, hij⟩ := Option.bind_eq_some_iff.1 hget
  exact ⟨id, i, hi, hf i j hij⟩

/-- An invoice that a call writes is new, or one that the session sees, the same in all that is fixed
when an invoice is stored. -/
theorem new_or_same {j : Invoice} (hj : Put.invoice j ∈ s.writes l c) :
    j.id = l.newId.1 ∨ ∃ id i, s.view.invoices.get? id = some i ∧ i.Same j := by
  cases c with
  | insertInvoice new =>
    cases List.mem_singleton.1 hj
    exact .inl rfl
  | updateInvoiceStatus id status =>
    refine .inr (same_of_mem_revisions (fun i k h => ?_) hj)
    cases h
    exact .revised i ..
  | setHasSubmission ids value =>
    refine .inr (same_of_mem_revisions (fun i k h => ?_) hj)
    cases h
    exact .revised i ..
  | markPaid ids settlement =>
    refine .inr (same_of_mem_revisions (fun i k h => ?_) hj)
    split at h
    · cases h
      exact .revised i ..
    · cases h
  | linkInvoices submission ids => simp [writes] at hj
  | updateSubmissionStatus id status completedBy => simp [writes] at hj
  | saveLimit limit =>
    simp only [writes] at hj
    split at hj <;> simp at hj
  | deleteLimits teamId forTeam => simp [writes] at hj
  | insertSubmission new | insertLogEntry new | insertHistory new =>
    cases List.mem_singleton.1 hj
  | _ => cases hj

/-- A submission that a call writes is the one that it stores, or one that the session sees, the same in
all that is fixed when a submission is stored. -/
theorem stored_or_same {y : Submission} (hy : Put.submission y ∈ s.writes l c) :
    (∃ new, c = .insertSubmission new ∧ y = new.withId l.newId.1) ∨
      ∃ id x, s.view.submissions.get? id = some x ∧ x.Same y := by
  cases c with
  | insertSubmission new =>
    cases List.mem_singleton.1 hy
    exact .inl ⟨new, rfl, rfl⟩
  | updateSubmissionStatus id status completedBy =>
    obtain ⟨x, hx, ⟨⟩⟩ := Option.map_eq_some_iff.1 (Option.mem_toList.1 hy)
    exact .inr ⟨id, x, hx, .revised x ..⟩
  | updateInvoiceStatus id status => simp [writes, revisions] at hy
  | setHasSubmission ids value => simp [writes, revisions] at hy
  | markPaid ids settlement => simp [writes, revisions] at hy
  | linkInvoices submission ids => simp [writes] at hy
  | saveLimit limit =>
    simp only [writes] at hy
    split at hy <;> simp at hy
  | deleteLimits teamId forTeam => simp [writes] at hy
  | insertInvoice new | insertLogEntry new | insertHistory new =>
    cases List.mem_singleton.1 hy
  | _ => cases hy

end Session

/-- The conditions hold of the rows that are committed, and of those that a session sees and has
written. -/
structure Ledger.Satisfies (P : Invoice → Prop) (Q : Submission → Prop) (last : Nat) (l : Ledger)
    (s : Session) : Prop where
  hosts : l.Hosts s
  given : last ≤ l.lastId
  committed : Satisfied P Q l.tables.invoices l.tables.submissions
  snapshot : Satisfied P Q s.snapshot.invoices s.snapshot.submissions
  changes : Satisfied P Q s.changes.invoices s.changes.submissions

namespace Ledger.Satisfies

variable {l : Ledger} {s : Session}

/-- A call that writes what satisfies the conditions. -/
theorem of_writes (h : l.Satisfies P Q last s) {c : StoreCall}
    (hinvoice : ∀ j, Put.invoice j ∈ s.writes l c → P j)
    (hsubmission : ∀ y, Put.submission y ∈ s.writes l c → Q y) :
    (s.answer l c).2.1.Satisfies P Q last (s.answer l c).2.2 := by
  have hgrants := s.answer_ledger l c
  refine ⟨h.hosts.answer c, Nat.le_trans h.given hgrants.lastId, ?_, ?_, ?_⟩
  · rw [hgrants.tables]
    exact h.committed
  · rw [h.hosts.answer_session, Session.writeAll_snapshot]
    split
    · exact h.committed
    · exact h.snapshot
  · rw [h.hosts.answer_changes]
    exact h.changes.putAll hinvoice hsubmission

/-- **A call** reads what satisfies the conditions, and writes what does. -/
theorem answer (h : l.Satisfies P Q last s) (hlasting : Lasting P Q last) (c : StoreCall) :
    (s.answer l c).2.1.Satisfies P Q last (s.answer l c).2.2 := by
  have hview : Satisfied P Q s.view.invoices s.view.submissions := h.snapshot.apply h.changes
  have hnew : (last : Ident) < l.newId.1 :=
    Int.lt_of_le_of_lt (Int.ofNat_le.2 h.given) (Int.not_le.1 l.not_newId_le)
  refine h.of_writes (fun j hj => ?_) fun y hy => ?_
  · rcases Session.new_or_same hj with hid | ⟨id, i, hi, hsame⟩
    · exact hlasting.new_invoice j (hid ▸ hnew)
    · exact hlasting.same i j hsame (hview.invoice id i hi)
  · rcases Session.stored_or_same hy with ⟨new, -, rfl⟩ | ⟨id, x, hx, hsame⟩
    · exact hlasting.new_submission _ hnew
    · exact hlasting.moved x y hsame (hview.submission id x hx)

end Ledger.Satisfies

/-! ## Worlds -/

/-- The conditions hold of all rows, committed or not. -/
structure World.Satisfies (P : Invoice → Prop) (Q : Submission → Prop) (last : Nat) (w : World) :
    Prop where
  given : last ≤ w.ledger.lastId
  committed : Satisfied P Q w.ledger.tables.invoices w.ledger.tables.submissions
  snapshot : ∀ name s, w.open? name = some s →
    Satisfied P Q s.snapshot.invoices s.snapshot.submissions
  changes : ∀ name s, w.open? name = some s →
    Satisfied P Q s.changes.invoices s.changes.submissions

namespace World.Satisfies

variable {w : World}

theorem start (around : Surroundings) : Satisfies P Q 0 { around } where
  given := Nat.le_refl 0
  committed := .empty
  snapshot _ _ hs := nomatch hs
  changes _ _ hs := nomatch hs

/-- What a session sees, and what its commit would leave. -/
theorem apply (h : w.Satisfies P Q last) {name : String} {s : Session} (hs : w.open? name = some s) :
    Satisfied P Q (w.ledger.tables.apply s.changes).invoices
      (w.ledger.tables.apply s.changes).submissions :=
  h.committed.apply (h.changes name s hs)

/-- Sessions are dropped, or the same ones go on. -/
theorem of_open? (h : w.Satisfies P Q last) {w' : World} (hlast : w'.ledger.lastId = w.ledger.lastId)
    (htables : w'.ledger.tables = w.ledger.tables)
    (hopen : ∀ name s, w'.open? name = some s → w.open? name = some s) : w'.Satisfies P Q last where
  given := by
    rw [hlast]
    exact h.given
  committed := by
    rw [htables]
    exact h.committed
  snapshot name s hs := h.snapshot name s (hopen name s hs)
  changes name s hs := h.changes name s (hopen name s hs)

theorem rollback (h : w.Satisfies P Q last) (name : String) : (w.rollback name).Satisfies P Q last := by
  refine h.of_open? (by rw [ledger_rollback_eq]) (w.tables_rollback name) fun k s hs => ?_
  rw [open?_rollback] at hs
  split at hs
  · cases hs
  · exact hs

theorem begin (h : w.Satisfies P Q last) (name : String) : (w.begin name).Satisfies P Q last := by
  have hr := h.rollback name
  refine ⟨hr.given, hr.committed, fun k s hs => ?_, fun k s hs => ?_⟩
  all_goals
    rw [open?_begin] at hs
    split at hs
  · cases hs
    exact hr.committed
  · exact h.snapshot k s hs
  · cases hs
    exact .empty
  · exact h.changes k s hs

theorem commit (h : w.Satisfies P Q last) (name : String) : (w.commit name).2.Satisfies P Q last := by
  have still_open : ∀ k s, (w.commit name).2.open? k = some s → w.open? k = some s := by
    intro k s hs
    rw [open?_commit] at hs
    split at hs
    · cases hs
    · exact hs
  cases hs : w.open? name with
  | none =>
    have ledger_eq := ledger_commit_of_none hs
    exact h.of_open? (by rw [ledger_eq]) (by rw [ledger_eq]) still_open
  | some s =>
    have ledger_eq := (commit_of_open? hs).2
    by_cases hadmits : w.ledger.Admits s
    · rw [Ledger.commit_of_admits hadmits] at ledger_eq
      refine ⟨?_, ?_, fun k t ht => h.snapshot k t (still_open k t ht),
        fun k t ht => h.changes k t (still_open k t ht)⟩
      · rw [ledger_eq]
        exact h.given
      · rw [ledger_eq]
        exact h.apply hs
    · obtain ⟨e, hrefused⟩ := Ledger.commit_of_not_admits hadmits
      rw [hrefused] at ledger_eq
      exact h.of_open? (by rw [ledger_eq]; rfl) (by rw [ledger_eq]; rfl) still_open

theorem addTeam (h : w.Satisfies P Q last) (name : String) (kind : Team.Kind) :
    (w.addTeam name kind).2.Satisfies P Q last where
  given := Nat.le_succ_of_le h.given
  committed := h.committed
  snapshot := h.snapshot
  changes := h.changes

/-- A session as the ledger hosts it. -/
theorem satisfies (h : w.Satisfies P Q last) (hw : w.Sound) {name : String} {s : Session}
    (hs : w.open? name = some s) : w.ledger.Satisfies P Q last s :=
  ⟨hw.hosts hs, h.given, h.committed, h.snapshot name s hs, h.changes name s hs⟩

/-- After a session has gone on and the others have not. -/
theorem of_satisfies {w' : World} {name : String} {s' : Session}
    (hrows : w'.ledger.Satisfies P Q last s')
    (hopen : ∀ k, w'.open? k = if k = name then some s' else w.open? k)
    (hothers : ∀ k t, w.open? k = some t → Satisfied P Q t.snapshot.invoices t.snapshot.submissions ∧
      Satisfied P Q t.changes.invoices t.changes.submissions) : w'.Satisfies P Q last := by
  have each (k : String) (t : Session) (ht : w'.open? k = some t) :
      Satisfied P Q t.snapshot.invoices t.snapshot.submissions ∧
        Satisfied P Q t.changes.invoices t.changes.submissions := by
    rw [hopen] at ht
    split at ht
    · cases ht
      exact ⟨hrows.snapshot, hrows.changes⟩
    · exact hothers k t ht
  exact ⟨hrows.given, hrows.committed, fun k t ht => (each k t ht).1, fun k t ht => (each k t ht).2⟩

/-- **A program** reads what satisfies the conditions, and writes what does. -/
theorem run {α : Type} {p : Program α} {a : α} {w' : World} {name : String} (h : w.Satisfies P Q last)
    (hlasting : Lasting P Q last) (hw : w.Sound) (hrun : w.run name none p = some (a, w')) :
    w'.Satisfies P Q last := by
  obtain ⟨s, l, s', around', hs, hp, rfl, hopen⟩ := run_eq_some hrun
  have hrows := Program.run_preserves (P := Ledger.Satisfies P Q last)
    (fun l s c h => h.answer hlasting c) p w.around (h.satisfies hw hs)
  rw [hp] at hrows
  exact of_satisfies hrows hopen fun k t ht => ⟨h.snapshot k t ht, h.changes k t ht⟩

theorem call (h : w.Satisfies P Q last) (hlasting : Lasting P Q last) (hw : w.Sound) (name : String)
    (c : StoreCall) : (w.happen (.call name c)).Satisfies P Q last := by
  cases hs : w.open? name with
  | none =>
    rw [happen_call_of_none hs]
    exact h
  | some s =>
    obtain ⟨w', hrun, rfl, -⟩ := run_call hs c
    exact h.run hlasting hw hrun

theorem happen (h : w.Satisfies P Q last) (hlasting : Lasting P Q last) (hw : w.Sound)
    (e : LedgerEvent) : (w.happen e).Satisfies P Q last := by
  cases e with
  | begin name => exact h.begin name
  | rollback name => exact h.rollback name
  | commit name => exact h.commit name
  | addTeam name kind => exact h.addTeam name kind
  | call name c => exact h.call hlasting hw name c

/-- **What lasts, lasts**, whatever happens. -/
theorem happenAll (h : w.Satisfies P Q last) (hlasting : Lasting P Q last) (hw : w.Sound)
    (es : List LedgerEvent) : (w.happenAll es).Satisfies P Q last := by
  induction es generalizing w with
  | nil => exact h
  | cons e es ih => exact ih (h.happen hlasting hw e) (hw.happen e)

end World.Satisfies

/-! ## No submission 0 -/

/-- Being under another number than 0 lasts. -/
theorem lasting_ne_zero : Lasting (fun _ => True) (fun x => x.id ≠ 0) 0 where
  same _ _ _ _ := trivial
  moved x y hsame hx := by
    rw [hsame.id]
    exact hx
  new_invoice _ _ := trivial
  new_submission x hx := Int.ne_of_gt hx

/-- What new rows meet, and what lasts, holds of every world that can be reached. -/
theorem World.Logged.satisfies {around : Surroundings} {w : World} {log : List Note}
    (h : Logged around w log) (hlasting : Lasting P Q 0) : w.Satisfies P Q 0 := by
  induction h with
  | start => exact .start around
  | step h e ih => exact ih.happen hlasting h.traced.sound e

/-- **No submission has the number 0.** -/
theorem World.Logged.submission_ne_zero {around : Surroundings} {w : World} {log : List Note}
    (h : Logged around w log) {name : String} {s : Session} (hs : w.open? name = some s) {id : Ident}
    (hid : ((w.ledger.tables.apply s.changes).submissions.get? id).isSome) : id ≠ 0 := by
  obtain ⟨x, hx⟩ := Option.isSome_iff_exists.1 hid
  have hne : x.id ≠ 0 := ((h.satisfies lasting_ne_zero).apply hs).submission id x hx
  rwa [(h.indexed hs).submissions id x hx] at hne

/-! ## Submissions as they were stored -/

section

variable {stored stored' : Ident → Submission} {l : Ledger} {s : Session}

/-- What is stored under later ids does not matter to rows that are there. -/
theorem Satisfied.extend {invoices : Rows Invoice} {submissions : Rows Submission}
    (h : Satisfied P (Submission.StoredBy stored) invoices submissions)
    (hkeyed : submissions.KeyedBy Submission.id)
    (hwithin : ∀ id, (submissions.get? id).isSome → id ≤ last)
    (hextends : ∀ id ≤ (last : Ident), stored' id = stored id) :
    Satisfied P (Submission.StoredBy stored') invoices submissions where
  invoice := h.invoice
  submission id x hx := by
    have hid : x.id ≤ last := by
      rw [hkeyed id x hx]
      exact hwithin id (by rw [hx]; rfl)
    unfold Submission.StoredBy
    rw [hextends x.id hid]
    exact h.submission id x hx

namespace Ledger.Satisfies

theorem extend (h : l.Satisfies P (Submission.StoredBy stored) last s)
    (hextends : ∀ id ≤ (l.lastId : Ident), stored' id = stored id) :
    l.Satisfies P (Submission.StoredBy stored') last s where
  hosts := h.hosts
  given := h.given
  committed := h.committed.extend h.hosts.keyed.submissions
    (fun id hid => h.hosts.within id (.inr (.inl hid))) hextends
  snapshot := h.snapshot.extend h.hosts.fits.snapshot_keyed.submissions
    (fun id hid => h.hosts.fits.snapshot_within id (.inr (.inl hid))) hextends
  changes := h.changes.extend h.hosts.fits.changes_keyed.submissions
    (fun id hid => h.hosts.fits.changes_within id (.inr (.inl hid))) hextends

/-- **A call** leaves submissions as they were stored. The one that it stores comes under the next id. -/
theorem answer_stored (h : l.Satisfies (fun _ => True) (Submission.StoredBy stored) last s) (c : StoreCall) :
    ∃ stored', (∀ id ≤ (l.lastId : Ident), stored' id = stored id) ∧
      (s.answer l c).2.1.Satisfies (fun _ => True) (Submission.StoredBy stored') last (s.answer l c).2.2 := by
  by_cases hstores : ∃ new, c = .insertSubmission new
  · obtain ⟨new, rfl⟩ := hstores
    have hextends : ∀ id ≤ (l.lastId : Ident),
        Function.update stored l.newId.1 (new.withId l.newId.1) id = stored id := by
      intro id hid
      refine Function.update_of_ne (fun heq => l.not_newId_le ?_) ..
      rwa [heq] at hid
    refine ⟨_, hextends, (h.extend hextends).of_writes (fun _ _ => trivial) fun y hy => ?_⟩
    cases List.mem_singleton.1 hy
    show Submission.Same (Function.update stored l.newId.1 (new.withId l.newId.1) l.newId.1) _
    rw [Function.update_self]
    exact .refl _
  · refine ⟨stored, fun _ _ => rfl, h.of_writes (fun _ _ => trivial) fun y hy => ?_⟩
    rcases Session.stored_or_same hy with ⟨new, hc, -⟩ | ⟨id, x, hx, hsame⟩
    · exact absurd ⟨new, hc⟩ hstores
    · have seen_stored : x.StoredBy stored := (h.snapshot.apply h.changes).submission id x hx
      unfold Submission.StoredBy
      rw [hsame.id]
      exact seen_stored.trans hsame

end Ledger.Satisfies

/-- **A program** leaves submissions as they were stored, and stores others. -/
theorem World.Satisfies.run_stored {α : Type} {p : Program α} {a : α} {w w' : World} {name : String}
    (h : w.Satisfies (fun _ => True) (Submission.StoredBy stored) last) (hw : w.Sound)
    (hrun : w.run name none p = some (a, w')) :
    ∃ stored', w'.Satisfies (fun _ => True) (Submission.StoredBy stored') last := by
  obtain ⟨s, l, s', around', hs, hp, rfl, hopen⟩ := run_eq_some hrun
  -- what was stored before the program stays what it was
  have hkept := Program.run_preserves (P := fun l s => w.ledger.lastId ≤ l.lastId ∧
      ∃ stored', (∀ id ≤ (w.ledger.lastId : Ident), stored' id = stored id) ∧
        l.Satisfies (fun _ => True) (Submission.StoredBy stored') last s)
    (fun l s c ⟨hgiven, stored₁, hextends, hrows⟩ => by
      obtain ⟨stored₂, hextends₂, hrows₂⟩ := hrows.answer_stored c
      have hlast : w.ledger.lastId ≤ (s.answer l c).2.1.lastId :=
        Nat.le_trans hgiven (s.answer_ledger l c).lastId
      refine ⟨hlast, stored₂, fun id hid => ?_, hrows₂⟩
      rw [hextends₂ id (Int.le_trans hid (Int.ofNat_le.2 hgiven)), hextends id hid]) p w.around
    ⟨Nat.le_refl _, stored, fun _ _ => rfl, h.satisfies hw hs⟩
  rw [hp] at hkept
  obtain ⟨-, stored', hextends, hrows⟩ := hkept
  refine ⟨stored', of_satisfies hrows hopen fun k t ht => ?_⟩
  have hother := (h.satisfies hw ht).extend hextends
  exact ⟨hother.snapshot, hother.changes⟩

end

/-! ## Whatever is done -/

/-- The world can be reached, beginning with an empty ledger and no sessions. Sessions begin, run
programs and end in any order. What is around the ledger, and what is remembered with the sessions,
may change in between. -/
inductive World.Reached : World → Prop
  | start (around : Surroundings) : Reached { around }
  | begin {w : World} (h : Reached w) (name : String) : Reached (w.begin name)
  | run {α : Type} {w w' : World} {name : String} {p : Program α} {a : α} (h : Reached w)
      (ran : w.run name none p = some (a, w')) : Reached w'
  | commit {w : World} (h : Reached w) (name : String) : Reached (w.commit name).2
  | rollback {w : World} (h : Reached w) (name : String) : Reached (w.rollback name)
  | addTeam {w : World} (h : Reached w) (name : String) (kind : Team.Kind) :
      Reached (w.addTeam name kind).2
  | around {w w' : World} (h : Reached w) (ledger : w'.ledger = w.ledger)
      (sessions : w'.open? = w.open?) : Reached w'

namespace World.Reached

variable {w : World}

theorem sound (h : w.Reached) : w.Sound := by
  induction h with
  | start around => exact .start around
  | begin _ name ih => exact ih.begin name
  | run _ ran ih => exact ih.run ran
  | commit _ name ih => exact ih.commit name
  | rollback _ name ih => exact ih.rollback name
  | addTeam _ name kind ih => exact ih.addTeam name kind
  | around _ ledger sessions ih =>
    unfold Sound
    rw [ledger, sessions]
    exact ih

theorem happen (h : w.Reached) (e : LedgerEvent) : (w.happen e).Reached := by
  cases e with
  | begin name => exact h.begin name
  | call name c =>
    cases hs : w.open? name with
    | none =>
      rw [happen_call_of_none hs]
      exact h
    | some s =>
      obtain ⟨w', hrun, rfl, -⟩ := run_call hs c
      exact h.run hrun
  | commit name => exact h.commit name
  | rollback name => exact h.rollback name
  | addTeam name kind => exact h.addTeam name kind

theorem happenAll (h : w.Reached) (es : List LedgerEvent) : (w.happenAll es).Reached := by
  induction es generalizing w with
  | nil => exact h
  | cons e es ih => exact ih (h.happen e)

/-- What new rows meet, and what lasts, holds of every world that can be reached. -/
theorem satisfies (h : w.Reached) (hlasting : Lasting P Q 0) : w.Satisfies P Q 0 := by
  induction h with
  | start around => exact .start around
  | begin _ name ih => exact ih.begin name
  | run h ran ih => exact ih.run hlasting h.sound ran
  | commit _ name ih => exact ih.commit name
  | rollback _ name ih => exact ih.rollback name
  | addTeam _ name kind ih => exact ih.addTeam name kind
  | around _ ledger sessions ih =>
    exact ih.of_open? (by rw [ledger]) (by rw [ledger]) fun name s hs => sessions ▸ hs

/-- **A submission is stored once**, and all its rows tell what was stored. -/
theorem stored_once (h : w.Reached) : ∃ stored : Ident → Submission,
    w.Satisfies (fun _ => True) (Submission.StoredBy stored) 0 := by
  induction h with
  | start around => exact ⟨fun _ => default, .start around⟩
  | begin _ name ih => exact ih.imp fun _ ih => ih.begin name
  | run h ran ih =>
    obtain ⟨stored, ih⟩ := ih
    exact ih.run_stored h.sound ran
  | commit _ name ih => exact ih.imp fun _ ih => ih.commit name
  | rollback _ name ih => exact ih.imp fun _ ih => ih.rollback name
  | addTeam _ name kind ih => exact ih.imp fun _ ih => ih.addTeam name kind
  | around _ ledger sessions ih =>
    exact ih.imp fun _ ih => ih.of_open? (by rw [ledger]) (by rw [ledger])
      fun name s hs => sessions ▸ hs

/-- What a session sees of a submission and what it would see if it read now are the same in all that is
fixed. -/
theorem same_of_view (h : w.Reached) {name : String} {s : Session} (hs : w.open? name = some s)
    {x y : Submission} (hx : (w.ledger.tables.apply s.changes).submissions.get? x.id = some x)
    (hy : s.view.submissions.get? x.id = some y) : x.Same y := by
  obtain ⟨stored, hstored⟩ := h.stored_once
  have view_keyed := (h.sound.hosts hs).fits.view_keyed
  have now_stored : x.StoredBy stored := (hstored.apply hs).submission x.id x hx
  have view_stored : y.StoredBy stored :=
    ((hstored.snapshot name s hs).apply (hstored.changes name s hs)).submission x.id y hy
  unfold Submission.StoredBy at now_stored view_stored
  rw [view_keyed.submissions x.id y hy] at view_stored
  exact now_stored.symm.trans view_stored

/-- No submission that a session has stored, or sees once it reads, has the number 0. -/
theorem id_ne_zero (h : w.Reached) {name : String} {s : Session} (hs : w.open? name = some s)
    {x : Submission} (hx : (w.ledger.tables.apply s.changes).submissions.get? x.id = some x) :
    x.id ≠ 0 :=
  ((h.satisfies lasting_ne_zero).apply hs).submission x.id x hx

end World.Reached

end TeamLedger
