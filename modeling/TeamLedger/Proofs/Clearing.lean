/-
Accepting a submission, from end to end.

The success of accepting depends on what the session would see in a new
snapshot, and on nothing else: on the row of the submission, on the locks and the
states of the invoices that are linked to it, and on the sum of those that are
unpaid. What it writes depends on the same. So there is one theorem with the
exact condition on the one hand (`Ledger.Clears`) and all rows afterwards on the
other (`Tables.Accepts`).

That an adjustment calls for no other one is a matter of its kind. The kind lasts
as long as the row does (`Lasting`), so this holds of all that can happen later.
-/
import TeamLedger.Proofs.Accepting
import TeamLedger.Proofs.Lasting
import TeamLedger.Proofs.Updates

set_option autoImplicit false

namespace TeamLedger

/-! ## The invoices of a submission -/

/-- The invoices that are linked to a submission, oldest first. -/
def Tables.linkedByAge (t : Tables) (id : Ident) : List Invoice :=
  Invoice.oldestFirst (t.invoices.values.filter fun i => (⟨i.id, id⟩ : Link) ∈ t.links)

/-- The amounts of invoices, added up in their order, come to their true sum. -/
def Invoice.AddUp (is : List Invoice) : Prop :=
  ∃ m, Money.total (is.map (·.amount)) = .ok m ∧ m.units = sumUnits is

theorem Invoice.AddUp.units_eq {is : List Invoice} (h : AddUp is) {m : Money}
    (hm : Money.total (is.map (·.amount)) = .ok m) : m.units = sumUnits is := by
  obtain ⟨m', hm', hunits⟩ := h
  cases hm.symm.trans hm'
  exact hunits

namespace Tables

variable {t : Tables} {id : Ident} {i : Invoice}

/-- The invoices of a submission are those that its links name. -/
theorem mem_linkedByAge : i ∈ t.linkedByAge id ↔ i ∈ t.invoices.values ∧ ⟨i.id, id⟩ ∈ t.links := by
  unfold linkedByAge
  rw [(Invoice.oldestFirst_perm _).mem_iff, List.mem_filter, decide_eq_true_eq]

/-- These are the invoices that accepting asks for. -/
theorem inOrder_invoicesOf (ht : t.submissions.KeyedBy Submission.id) (hid : id ≠ 0)
    (hrow : (t.submissions.get? id).isSome) (locked : Bool) :
    Root.invoice.inOrder ((Query.invoicesOf id locked).select t) = t.linkedByAge id := by
  refine congrArg Invoice.oldestFirst (List.filter_congr fun i hi => ?_)
  have hmem : i ∈ t.invoices.values ∧ (Query.invoicesOf id locked).matched t i = true ↔
      i ∈ t.invoices.values ∧ ⟨i.id, id⟩ ∈ t.links ∧ (t.submissions.get? id).isSome :=
    List.mem_filter.symm.trans (Query.mem_select_invoicesOf hid locked ht)
  rw [Bool.eq_iff_iff, and_congr_right_iff.1 hmem hi, decide_eq_true_eq]
  exact and_iff_left hrow

end Tables

/-! ## When a submission is accepted -/

/-- A session can accept a submission of an amount: it would see the row of the submission, and the
linked invoices are not locked by another session, they are unpaid or cancelled, and those that are
unpaid have the amount as their sum. -/
structure Ledger.Clears (l : Ledger) (s : Session) (id : Ident) (amount : Money) : Prop where
  row : ((l.tables.apply s.changes).submissions.get? id).isSome
  free : ∀ i ∈ (l.tables.apply s.changes).linkedByAge id, l.taken s.id ⟨.invoice, i.id⟩ = false
  unpaid : ∀ i ∈ (l.tables.apply s.changes).linkedByAge id,
    i.status = .notPaid ∨ i.status = .cancelled
  sum : Invoice.sumUnits (Invoice.unpaidAmong ((l.tables.apply s.changes).linkedByAge id)) =
    amount.units

/-! ## What accepting does -/

/-- **What accepting does to the tables**, for an agent on the copy `c` and with an outcome. -/
structure Tables.Accepts (t t' : Tables) (agent : Agent) (c : Submission) (o : AcceptOutcome) :
    Prop where
  /-- One payment is new. -/
  payment : o.history = ⟨o.history.id, c.amount, agent.userId, o.history.createdAt⟩
  payment_new : t.histories.get? o.history.id = none
  histories : ∀ id, t'.histories.get? id =
    if id = o.history.id then some o.history else t.histories.get? id
  /-- One log entry is new. -/
  logs : ∃ e : LogEntry, e = ⟨e.id, c.id, .accepted, agent.kind, agent.userId, e.createdAt⟩ ∧
    t.logs.get? e.id = none ∧ ∀ id, t'.logs.get? id = if id = e.id then some e else t.logs.get? id
  /-- The row of the submission is accepted. -/
  submission : t'.submissions.get? c.id = (t.submissions.get? c.id).map fun x =>
    { x with status := .accepted, completedBy := some agent.userId }
  submissions : ∀ id, id ≠ c.id → t'.submissions.get? id = t.submissions.get? id
  /-- The unpaid invoices are settled with the payment. -/
  paid : ∀ i ∈ Invoice.unpaidAmong (t.linkedByAge c.id), t'.invoices.get? i.id =
    some (i.settled ⟨o.history.id, c.createdAt, o.history.createdAt⟩)
  paid_ids : o.paidInvoices = (Invoice.unpaidAmong (t.linkedByAge c.id)).map (·.id)
  /-- Those of them that are flagged are adjusted, in their order. -/
  adjusted : ∃ now, List.Forall₂ (Invoice.Reversal now)
    ((Invoice.unpaidAmong (t.linkedByAge c.id)).filter Invoice.flagged) o.adjustments
  ascending : o.adjustments.Pairwise (·.id < ·.id)
  adjustments_new : ∀ a ∈ o.adjustments, t.invoices.get? a.id = none
  adjustments : ∀ a ∈ o.adjustments, t'.invoices.get? a.id = some a
  /-- No other invoice changes, and nothing else. -/
  invoices : ∀ id, (∀ i ∈ Invoice.unpaidAmong (t.linkedByAge c.id), i.id ≠ id) →
    (∀ a ∈ o.adjustments, a.id ≠ id) → t'.invoices.get? id = t.invoices.get? id
  links : t'.links = t.links
  teams : t'.teams = t.teams
  limits : t'.limits = t.limits

namespace Workflow

theorem clearing_eq (w : Workflow) (c x : Submission) (e : LogEntry) (hist : History)
    (settled added : List Invoice) : w.clearing c x e hist settled added =
      .submission { x with status := .accepted, completedBy := some w.agent.userId } ::
        .logEntry e :: .history hist ::
          (settled.map (·.settled ⟨hist.id, c.createdAt, hist.createdAt⟩) ++ added).map .invoice := by
  rw [List.map_append, List.map_map]
  rfl

namespace Cleared

variable {w : Workflow} {l : Ledger} {s : Session} {y : Workflow × Ledger × Session}
  {c x : Submission} {found added : List Invoice} {e : LogEntry} {hist : History} {now : Instant}

/-- What the session's commit would leave then. -/
theorem tables_eq (h : Cleared w l s y c x found e hist now added) (hgrants : l.Grants s.id y.2.1) :
    y.2.1.tables.apply y.2.2.changes = (l.tables.apply s.changes).putAll
      (w.clearing c x e hist (Invoice.unpaidAmong found) added) := by
  rw [h.session]
  exact Session.apply_writeAll (s := s.refresh l) hgrants (by simp [clearing])

theorem found_eq (h : Cleared w l s y c x found e hist now added) (hl : l.Hosts s) (hid : c.id ≠ 0) :
    found = (l.tables.apply s.changes).linkedByAge c.id := by
  rw [← h.finds]
  refine Tables.inOrder_invoicesOf hl.shown_keyed.submissions hid ?_ true
  rw [h.seen]
  rfl

/-- The invoices that are written, each under an id of its own. -/
theorem written_ids (h : Cleared w l s y c x found e hist now added) (hl : l.Hosts s)
    (settlement : Settlement) :
    (((Invoice.unpaidAmong found).map (·.settled settlement) ++ added).map (·.id)).Nodup := by
  have hsub := Invoice.unpaidAmong_sublist found
  have hdistinct := Query.distinct_of_found hl.shown_keyed h.found_perm hsub
  rw [List.map_append, List.map_map]
  refine List.nodup_append.2 ⟨hdistinct, (List.pairwise_map.2 h.ascending).imp Int.ne_of_lt, ?_⟩
  -- what is settled is there already, and the ids of adjustments are new
  intro id hid id' hid' heq
  obtain ⟨i, hi, rfl⟩ := List.mem_map.1 hid
  obtain ⟨a, ha, rfl⟩ := List.mem_map.1 hid'
  exact h.id_ne hl hi ha heq

/-- **The tables afterwards.** -/
theorem accepts (h : Cleared w l s y c x found e hist now added) (hl : l.Hosts s) (hid : c.id ≠ 0)
    (hgrants : l.Grants s.id y.2.1) :
    (l.tables.apply s.changes).Accepts (y.2.1.tables.apply y.2.2.changes) w.agent c
      ⟨hist, (Invoice.unpaidAmong found).map (·.id), added⟩ := by
  obtain rfl := h.found_eq hl hid
  have hx : x.id = c.id :=
    hl.shown_keyed.submissions c.id x h.seen
  have hids := h.written_ids hl ⟨hist.id, c.createdAt, hist.createdAt⟩
  have hnew {id : Ident} (hid : (l.lastId : Ident) < id) : ¬ (l.tables.apply s.changes).Uses id :=
    fun hused => Int.not_le.2 hid (hl.uses_le hused)
  have hnone : ∀ a ∈ added, (l.tables.apply s.changes).invoices.get? a.id = none :=
    fun a ha => h.added_none hl ha
  have hseen := h.seen
  have hreversed := h.reversed
  have htables := h.tables_eq hgrants
  rw [clearing_eq, Tables.putAll_cons, Tables.putAll_cons, Tables.putAll_cons,
    Tables.putAll_invoices_eq] at htables
  rw [htables]
  generalize l.tables.apply s.changes = t at *
  -- the invoices are written last, and their table is the same until then
  have hwritten := fun (id : Ident) (i : Invoice) => @Tables.get?_putAll_invoices (((t.put (.submission
    { x with status := .accepted, completedBy := some w.agent.userId })).put (.logEntry e)).put
      (.history hist)) _ hids id i
  exact {
    payment := h.history
    payment_new := Option.not_isSome_iff_eq_none.1 fun hused =>
      hnew h.history_new (.inr (.inr (.inr (.inl hused))))
    histories := fun id => Rows.get?_insert ..
    logs := ⟨e, h.entry, Option.not_isSome_iff_eq_none.1 fun hused =>
      hnew h.entry_new (.inr (.inr (.inl hused))), fun id => Rows.get?_insert ..⟩
    submission := by
      show (t.submissions.insert x.id _).get? c.id = _
      rw [Rows.get?_insert, if_pos hx.symm, hseen]
      rfl
    submissions := fun id hne => by
      show (t.submissions.insert x.id _).get? id = _
      rw [Rows.get?_insert, hx, if_neg hne]
    paid := fun i hi => (hwritten ..).2 (.inl ⟨List.mem_append_left _ (List.mem_map_of_mem hi), rfl⟩)
    paid_ids := rfl
    adjusted := ⟨now, hreversed⟩
    ascending := h.ascending
    adjustments_new := hnone
    adjustments := fun a ha => (hwritten ..).2 (.inl ⟨List.mem_append_right _ ha, rfl⟩)
    invoices := fun id hpaid hadded => Option.ext fun i => by
      refine (hwritten id i).trans ⟨?_, fun hi => .inr ⟨hi, ?_⟩⟩
      · rintro (⟨hi, hid⟩ | ⟨hi, -⟩)
        · rcases List.mem_append.1 hi with hi | hi
          · obtain ⟨j, hj, rfl⟩ := List.mem_map.1 hi
            exact absurd hid (hpaid j hj)
          · exact absurd hid (hadded i hi)
        · exact hi
      · intro j hj
        rcases List.mem_append.1 hj with hj | hj
        · obtain ⟨k, hk, rfl⟩ := List.mem_map.1 hj
          exact hpaid k hk
        · exact hadded j hj
    links := rfl
    teams := rfl
    limits := rfl }

/-- The session could do this. -/
theorem clears (h : Cleared w l s y c x found e hist now added) (hl : l.Hosts s) (hid : c.id ≠ 0)
    (hgrants : l.Grants s.id y.2.1)
    (hsum : Invoice.AddUp (Invoice.unpaidAmong ((l.tables.apply s.changes).linkedByAge c.id))) :
    l.Clears s c.id c.amount := by
  obtain rfl := h.found_eq hl hid
  refine ⟨by rw [h.seen]; rfl, fun i hi => ?_, h.unpaid, ?_⟩
  · -- what the session has locked in the end nobody else had locked before
    refine Bool.eq_false_iff.2 fun htaken => ?_
    obtain ⟨other, hlocked, hne⟩ := Ledger.taken_eq_true.1 htaken
    rcases hgrants.locks ⟨.invoice, i.id⟩ with hsame | ⟨-, hfree⟩
    · rw [h.locked i hi, hlocked] at hsame
      exact hne (Option.some.inj hsame).symm
    · exact hne (hfree other hlocked)
  · obtain ⟨sum, htotal, hunits⟩ := h.total
    exact (hsum.units_eq htotal).symm.trans hunits

end Cleared

variable {w : Workflow} {l : Ledger} {s : Session} {c : Submission}

/-- **Accepting succeeds** if and only if the session can accept the submission, and then it does all
that it should. -/
theorem run_accept_iff (hl : l.Hosts s) (around : Surroundings) (hc : w.data = some c)
    (hopen : c.status = .submitted)
    (hid : ((l.tables.apply s.changes).submissions.get? c.id).isSome → c.id ≠ 0)
    (hsum : Invoice.AddUp (Invoice.unpaidAmong ((l.tables.apply s.changes).linkedByAge c.id))) :
    ∃ r w' l' s' around', accept.run Session.backend w (l, s) around = (r, w', (l', s'), around') ∧
      ((∃ o, r = .ok o) ↔ l.Clears s c.id c.amount) ∧
      ∀ o, r = .ok o → ∃ x e now, Cleared w l s (w', l', s') c x
        ((l.tables.apply s.changes).linkedByAge c.id) e o.history now o.adjustments ∧
        o.paidInvoices = (Invoice.unpaidAmong
          ((l.tables.apply s.changes).linkedByAge c.id)).map (·.id) := by
  obtain ⟨r, w', l', s', around', hrun⟩ : ∃ r w' l' s' around',
      accept.run Session.backend w (l, s) around = (r, w', (l', s'), around') := ⟨_, _, _, _, _, rfl⟩
  have hends := Service.Ends.of_run hrun
  obtain ⟨hgrants, -, -⟩ := hends.leads hl
  have cleared : ∀ o, r = .ok o → ∃ x e now, Cleared w l s (w', l', s') c x
      ((l.tables.apply s.changes).linkedByAge c.id) e o.history now o.adjustments ∧
      o.paidInvoices = (Invoice.unpaidAmong
        ((l.tables.apply s.changes).linkedByAge c.id)).map (·.id) := by
    rintro o rfl
    rcases accept_goes hl hends with ⟨⟨e, he⟩, -⟩ | ⟨c', x, found, e, hist, now, added, ho, h⟩
    · cases he
    cases hc.symm.trans h.copy
    cases ho
    have found_eq := h.found_eq hl (hid (by rw [h.seen]; rfl))
    rw [← found_eq]
    exact ⟨x, e, now, h, rfl⟩
  refine ⟨r, w', l', s', around', hrun, ⟨?_, fun h => ?_⟩, cleared⟩
  · rintro ⟨o, ho⟩
    obtain ⟨x, e, now, h, -⟩ := cleared o ho
    exact h.clears hl (hid (by rw [h.seen]; rfl)) hgrants hsum
  · obtain ⟨x, hx⟩ := Option.isSome_iff_exists.1 h.row
    obtain ⟨m, hm, hunits⟩ := hsum
    have hlinked := Tables.inOrder_invoicesOf
      hl.shown_keyed.submissions (hid h.row) h.row true
    have hfold : ((l.tables.apply s.changes).linkedByAge c.id).foldlM Settling.add {} = .ok
        ⟨[] ++ _, m, [] ++ _⟩ := Settling.foldlM_eq_ok_iff.2 ⟨h.unpaid, hm, rfl, rfl⟩
    have htotal : m ≈ c.amount := Money.equiv_iff.2 (hunits.trans h.sum)
    obtain ⟨r', w'', l'', s'', around'', hrun', hsettles, -⟩ :=
      run_accept hl around hc hopen hx hlinked h.free hfold htotal
    obtain ⟨o, ho, -⟩ := hsettles.outcome
    rw [hrun] at hrun'
    cases hrun'
    exact ⟨o, ho⟩

end Workflow

/-! ## Adjustments are not adjusted -/

/-- What adjusts an invoice is of the kind of an adjustment. -/
theorem Invoice.Kind.isAdjustment_adjustment (k : Kind) : k.adjustment.isAdjustment = true := by
  cases k <;> rfl

/-- The invoice calls for no adjustment, and none could be made. -/
def Invoice.Unadjustable (i : Invoice) : Prop := i.flagged = false ∧ ∀ now, i.adjustment? now = none

theorem Invoice.unadjustable {i : Invoice} (h : i.kind.isAdjustment = true) : i.Unadjustable := by
  refine ⟨?_, fun now => adjustment?_eq_none_iff.2 h⟩
  rw [flagged, h]
  exact Bool.and_false _

/-- The invoices under these ids are adjustments. -/
def Adjusting (ids : List Ident) (i : Invoice) : Prop := i.id ∈ ids → i.kind.isAdjustment = true

/-- Being an adjustment lasts. -/
theorem lasting_adjusting {ids : List Ident} {last : Nat} (h : ∀ id ∈ ids, id ≤ last) :
    Lasting (Adjusting ids) (fun _ => True) last where
  same i j hsame hi hj := by
    rw [hsame.kind]
    refine hi ?_
    rw [← hsame.id]
    exact hj
  moved _ _ _ _ := trivial
  new_invoice i hi hid := absurd (h i.id hid) (Int.not_le.2 hi)
  new_submission _ _ := trivial

/-- Rows under ids that were handed out before. -/
theorem Satisfied.of_within {ids : List Ident} {last : Nat} {invoices : Rows Invoice}
    {submissions : Rows Submission} (hkeyed : invoices.KeyedBy Invoice.id)
    (hwithin : ∀ id, (invoices.get? id).isSome → id ≤ last) (hids : ∀ id ∈ ids, (last : Ident) < id) :
    Satisfied (Adjusting ids) (fun _ => True) invoices submissions where
  invoice id i hi hid := by
    have hle := hwithin id (by rw [hi]; rfl)
    rw [← hkeyed id i hi] at hle
    exact absurd hle (Int.not_le.2 (hids i.id hid))
  submission _ _ _ := trivial

/-- **After accepting**, all rows under the ids of the adjustments are adjustments. -/
theorem Workflow.Cleared.satisfies {w w' : World} {name : String} {s s' : Session} {wf wf' : Workflow}
    {c x : Submission} {found added : List Invoice} {e : LogEntry} {hist : History} {now : Instant}
    (h : Cleared wf w.ledger s (wf', w'.ledger, s') c x found e hist now added) (hw : w.Sound)
    (hs : w.open? name = some s) (hgrants : w.ledger.Grants s.id w'.ledger)
    (hopen : ∀ k, w'.open? k = if k = name then some s' else w.open? k) :
    w'.Satisfies (Adjusting (added.map (·.id))) (fun _ => True) w'.ledger.lastId := by
  have hnew : ∀ id ∈ added.map (·.id), (w.ledger.lastId : Ident) < id := by
    intro id hid
    obtain ⟨a, ha, rfl⟩ := List.mem_map.1 hid
    exact h.added_new a ha
  have hfits := hw.fits name s hs
  have committed : Satisfied (Adjusting (added.map (·.id))) (fun _ => True)
      w.ledger.tables.invoices w.ledger.tables.submissions :=
    .of_within hw.keyed.invoices (fun id hid => hw.within id (.inl hid)) hnew
  have hsession : s' = (s.refresh w.ledger).writeAll
      (wf.clearing c x e hist (Invoice.unpaidAmong found) added) := h.session
  refine ⟨Nat.le_refl _, ?_, fun k t ht => ?_, fun k t ht => ?_⟩
  · rw [hgrants.tables]
    exact committed
  · rw [hopen] at ht
    split at ht
    · cases ht
      rw [hsession]
      exact committed
    · have hfits := hw.fits k t ht
      exact .of_within hfits.snapshot_keyed.invoices
        (fun id hid => hfits.snapshot_within id (.inl hid)) hnew
  · rw [hopen] at ht
    split at ht
    · cases ht
      rw [hsession, Session.writeAll_changes, Session.refresh_changes]
      refine Satisfied.putAll (.of_within hfits.changes_keyed.invoices
        (fun id hid => hfits.changes_within id (.inl hid)) hnew) (fun i hi hid => ?_) fun _ _ => trivial
      rcases invoice_mem_clearing.1 hi with ⟨j, hj, rfl⟩ | hi
      · -- what was settled was there before, under an id of its own
        obtain ⟨a, ha, hid⟩ := List.mem_map.1 hid
        exact absurd (show j.id = a.id from hid.symm) (h.id_ne ⟨hw.keyed, hw.within, hfits⟩ hj ha)
      · obtain ⟨j, -, hreversal⟩ := Invoice.exists_reversed h.reversed hi
        rw [hreversal.kind]
        exact j.kind.isAdjustment_adjustment
    · have hfits := hw.fits k t ht
      exact .of_within hfits.changes_keyed.invoices
        (fun id hid => hfits.changes_within id (.inl hid)) hnew

/-! ## End to end -/

namespace World

variable {around : Surroundings} {w : World} {log : List Note} {name : String} {s : Session}
  {wf : Workflow} {c : Submission}

/-- **Accepting, from end to end.** In whatever state sessions have brought the ledger to, a workflow
on a submitted copy succeeds if and only if its session can accept the submission; and then the tables
are what they should be, nothing is committed, the other sessions are as before, and whatever happens
later, no invoice that was added calls for an adjustment. -/
theorem accept_iff_clears (h : Logged around w log) (hs : w.open? name = some s)
    (hc : wf.data = some c) (hopen : c.status = .submitted)
    (hsum : Invoice.AddUp
      (Invoice.unpaidAmong ((w.ledger.tables.apply s.changes).linkedByAge c.id))) :
    ∃ r wf' w' s', w.run name none (Workflow.accept wf) = some ((r, wf'), w') ∧
      w'.open? name = some s' ∧ ((∃ o, r = .ok o) ↔ w.ledger.Clears s c.id c.amount) ∧
      ∀ o, r = .ok o →
        (w.ledger.tables.apply s.changes).Accepts (w'.ledger.tables.apply s'.changes) wf.agent c o ∧
        w'.ledger.tables = w.ledger.tables ∧ (∀ other, other ≠ name → w'.open? other = w.open? other) ∧
        ∀ a ∈ o.adjustments, ∀ (es : List LedgerEvent) (k : String) (t : Session),
          (w'.happenAll es).open? k = some t → ∀ i,
            ((w'.happenAll es).ledger.tables.apply t.changes).invoices.get? a.id = some i →
              i.Unadjustable := by
  have hw := h.traced.sound
  have hl : w.ledger.Hosts s := ⟨hw.keyed, hw.within, hw.fits name s hs⟩
  have hid : ((w.ledger.tables.apply s.changes).submissions.get? c.id).isSome → c.id ≠ 0 :=
    h.submission_ne_zero hs
  obtain ⟨w', hrun, hledger, hsessions⟩ := run_of_open hs (Workflow.accept wf)
  obtain ⟨r, wf', l', s', around', haccept, hiff, hcleared⟩ :=
    Workflow.run_accept_iff hl w.around hc hopen hid hsum
  obtain ⟨hgrants, -, hl'⟩ := (Workflow.accept wf).run_leads w.around hl
  rw [Service.program_run haccept] at hrun hledger hsessions hgrants hl'
  dsimp only at hledger hsessions hgrants hl'
  subst hledger
  refine ⟨r, wf', w', s', hrun, ?_, hiff, fun o ho => ?_⟩
  · rw [hsessions, if_pos rfl]
  obtain ⟨x, e, now, hgoes, hpaid⟩ := hcleared o ho
  have hrow : ((w.ledger.tables.apply s.changes).submissions.get? c.id).isSome := by
    rw [hgoes.seen]
    rfl
  have haccepts := hgoes.accepts hl (hid hrow) hgrants
  rw [← hpaid] at haccepts
  refine ⟨haccepts, hgrants.tables, fun other hne => ?_, fun a ha es k t ht i hi => ?_⟩
  · rw [hsessions, if_neg hne]
  · have hgiven : ∀ id ∈ o.adjustments.map Invoice.id, id ≤ w'.ledger.lastId := by
      intro id hid
      obtain ⟨b, hb, rfl⟩ := List.mem_map.1 hid
      refine hl'.uses_le (.inl ?_)
      rw [haccepts.adjustments b hb]
      rfl
    have hsatisfies := hgoes.satisfies hw hs hgrants hsessions
    have hlater := (hsatisfies.happenAll (lasting_adjusting hgiven) (hw.run hrun) es).apply ht
    have hkind := hlater.invoice a.id i hi
    have hsound := (hw.run hrun).happenAll es
    have hiid : i.id = a.id :=
      (hsound.keyed.apply (hsound.fits k t ht).changes_keyed).invoices a.id i hi
    exact Invoice.unadjustable (hkind (hiid ▸ List.mem_map_of_mem ha))

/-- An invoice of 100 that is flagged, one of 50, and one that is cancelled. -/
def threeInvoices : List NewInvoice :=
  [{ fromTeam := 1, toTeam := 2, kind := .product, amount := (Money.ofParts? 100 0).getD .zero,
     orderId := some 7, needAdjustment := true, created := .ofSecond 0 },
    { fromTeam := 1, toTeam := 2, kind := .shipFee, amount := (Money.ofParts? 50 0).getD .zero,
      created := .ofSecond 1 },
    { fromTeam := 1, toTeam := 2, kind := .product, status := .cancelled,
      amount := (Money.ofParts? 30 0).getD .zero, created := .ofSecond 2 }]

/-- A submission of 150. -/
def hundredFifty : Submission :=
  { id := 4, createdBy := 9, completedBy := none, status := .submitted,
    amount := (Money.ofParts? 150 0).getD .zero, receipt := "", createdAt := .ofSecond 3 }

/-- A session stores the invoices, a submission, and links between them, and commits. -/
def submit : List LedgerEvent :=
  .begin "first" :: threeInvoices.map (fun new => .call "first" (.insertInvoice new)) ++
    [.call "first" (.insertSubmission
        { createdBy := 9, amount := hundredFifty.amount, receipt := "", createdAt := .ofSecond 3 }),
      .call "first" (.linkInvoices 4 [1, 2, 3]), .commit "first", .begin "second"]

/-- The submission is accepted: the cancelled invoice is passed over, and the flagged one is adjusted. -/
theorem accept_iff_clears_flagged : ∃ w log s wf c,
    Logged { clock := ⟨.ofSecond 5⟩ } w log ∧ w.open? "second" = some s ∧ wf.data = some c ∧
      c.status = .submitted ∧
      Invoice.AddUp (Invoice.unpaidAmong ((w.ledger.tables.apply s.changes).linkedByAge c.id)) ∧
      ∃ o wf' w', w.run "second" none (Workflow.accept wf) = some ((.ok o, wf'), w') ∧
        o.paidInvoices = [1, 2] ∧ o.adjustments.length = 1 := by
  have key (w log s) (h : Logged { clock := ⟨.ofSecond 5⟩ } w log) (hs : w.open? "second" = some s)
      (hlinked : (w.ledger.tables.apply s.changes).linkedByAge 4 =
        List.zipWith NewInvoice.withId threeInvoices [1, 2, 3])
      (hrow : (w.ledger.tables.apply s.changes).submissions.get? 4 = some hundredFifty)
      (hfree : ∀ i ∈ List.zipWith NewInvoice.withId threeInvoices [1, 2, 3],
        w.ledger.taken s.id ⟨.invoice, i.id⟩ = false) :
      Invoice.AddUp (Invoice.unpaidAmong ((w.ledger.tables.apply s.changes).linkedByAge 4)) ∧
        ∃ o wf' w', w.run "second" none
          (Workflow.accept { agent := .system, data := some hundredFifty }) = some ((.ok o, wf'), w') ∧
        o.paidInvoices = [1, 2] ∧ o.adjustments.length = 1 := by
    have hsum : Invoice.AddUp
        (Invoice.unpaidAmong ((w.ledger.tables.apply s.changes).linkedByAge 4)) := by
      rw [hlinked]
      exact ⟨(Money.ofParts? 150 0).getD .zero, by decide +kernel, by decide +kernel⟩
    refine ⟨hsum, ?_⟩
    have hcopy : Workflow.data { agent := .system, data := some hundredFifty } =
        some hundredFifty := rfl
    obtain ⟨r, wf', w', s', hrun, -, hiff, haccepts⟩ := accept_iff_clears h hs hcopy rfl hsum
    obtain ⟨o, rfl⟩ := hiff.2 {
      row := by rw [show hundredFifty.id = 4 from rfl, hrow]; rfl
      free := by
        rw [show hundredFifty.id = 4 from rfl, hlinked]
        exact hfree
      unpaid := by
        rw [show hundredFifty.id = 4 from rfl, hlinked]
        decide
      sum := by
        rw [show hundredFifty.id = 4 from rfl, hlinked]
        decide +kernel }
    obtain ⟨hresult, -⟩ := haccepts o rfl
    refine ⟨o, wf', w', hrun, ?_, ?_⟩
    · rw [hresult.paid_ids, show hundredFifty.id = 4 from rfl, hlinked]
      decide
    · obtain ⟨now, hadjusted⟩ := hresult.adjusted
      rw [← hadjusted.length_eq, show hundredFifty.id = 4 from rfl, hlinked]
      decide
  have begun : Logged { clock := ⟨.ofSecond 5⟩ } _ _ := .start
  have h := begun.happenAll submit
  exact ⟨_, _, _, { agent := .system, data := some hundredFifty }, hundredFifty, h, rfl, rfl, rfl,
    key _ _ _ h rfl (by decide +kernel) (by decide +kernel) (by decide +kernel)⟩

end World

end TeamLedger
