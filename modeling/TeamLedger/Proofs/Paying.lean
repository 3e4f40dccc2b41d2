/-
What accepting a submission writes.

Accepting checks everything before it writes anything: the locks, the copy, the
sum of the invoices that are still unpaid. Then the row of the submission, its
log entry and the payment are written, the payment settles the unpaid invoices,
and adjustments follow. What is settled makes one move, and every adjustment one
more.
-/
import TeamLedger.Proofs.Reversing
import TeamLedger.Proofs.Workflows

set_option autoImplicit false

namespace TeamLedger

/-- Accepting a submission with those of its invoices that are payable. -/
theorem Move.of_payable {strict : Prop} {t : Tables} {found taken : List Invoice} {x : Submission} {user : Option Ident} {hist : History}
    {settlement : Settlement} {sum : Money} (e : LogEntry) (ht : Built strict t)
    (hx : t.submissions.get? x.id = some x) (hstatus : x.status = .submitted)
    (hfound : found.Perm ((Query.invoicesOf x.id true).select t)) (hsub : taken.Sublist found)
    (hunpaid : ∀ i ∈ taken, i.status = .notPaid)
    (hall : ∀ i ∈ found, i ∈ taken ∨ i.status = .cancelled)
    (hsum : Money.total (taken.map (·.amount)) = .ok sum) (hunits : sum.units = x.amount.units)
    (hexact : strict → Invoice.SumsExactly ((Query.invoicesOf x.id true).select t))
    (hnew : t.histories.get? hist.id = none) (hamount : hist.amount = x.amount)
    (hsettles : settlement.historyId = hist.id) :
    Move strict t (.submission { x with status := .accepted, completedBy := user } ::
      .logEntry e :: .history hist :: taken.map fun i => .invoice (i.settled settlement)) := by
  have hne : x.id ≠ 0 := ht.submission_ne_zero (by rw [hx]; rfl)
  have linked_iff {i : Invoice} :=
    Query.mem_select_invoicesOf (i := i) hne true ht.keyed.submissions
  refine .accept x user e hist settlement taken hx hstatus hnew hamount hsettles
    (Query.distinct_of_found ht.keyed hfound hsub) ?_ hunpaid ?_ ?_ ?_
  · exact fun i hi => Query.there_of_found ht.keyed hfound (hsub.subset hi)
  · exact fun i hi => (linked_iff.1 (hfound.mem_iff.1 (hsub.subset hi))).2.1
  · intro i hl hi
    refine hall i (hfound.mem_iff.2 (linked_iff.2 ⟨?_, hl, ?_⟩))
    · exact ht.keyed.invoices.mem_values_iff.2 hi
    · rw [hx]
      rfl
  · intro hs
    rw [← hunits]
    exact ((hexact hs).units_of_found ht.keyed hfound hsub hsum).symm

namespace Workflow

variable {w : Workflow} {l : Ledger} {s : Session} {y : Workflow × Ledger × Session}

/-- The end of accepting: the payment is stored, it settles invoices that the session sees unpaid, and
adjustments follow. Nothing here can fail. -/
theorem settle_ends {c : Submission} {ids : List Ident} {payable toAdjust : List Invoice}
    {r : Except Failure AcceptOutcome} (hl : l.Hosts s) (hids : ids = payable.map (·.id))
    (hpayable : ∀ i ∈ payable, s.view.invoices.get? i.id = some i ∧ i.status = .notPaid)
    (h : (do
      let now ← Service.now
      let history ← Service.call (.insertHistory
        { amount := c.amount, createdBy := (← get).agent.userId, createdAt := now })
      let _ ← Service.call (.markPaid ids
        { historyId := history.id, paidAt := c.createdAt, acceptedAt := now })
      let adjustments ← Adjustments.create toAdjust
      return { history, paidInvoices := ids, adjustments } : Flow AcceptOutcome).Ends
        (w, l, s) r y) :
    ∃ (hist : History) (now : Instant) (added : List Invoice), r = .ok ⟨hist, ids, added⟩ ∧
      y.1 = w ∧ (l.lastId : Ident) < hist.id ∧
      hist = ⟨hist.id, c.amount, w.agent.userId, hist.createdAt⟩ ∧
      List.Forall₂ (Invoice.Reversal now) (toAdjust.filter fun i => !i.kind.isAdjustment) added ∧
      added.Pairwise (·.id < ·.id) ∧ (∀ a ∈ added, (l.lastId : Ident) < a.id) ∧
      y.2.2 = s.writeAll (.history hist ::
        ((payable.map fun i => .invoice (i.settled ⟨hist.id, c.createdAt, hist.createdAt⟩)) ++
          added.map .invoice)) := by
  obtain ⟨now, h⟩ := h.now_bind
  obtain ⟨hist, hwrites, hid, hhist, hcreated⟩ : ∃ hist : History, s.writes l (.insertHistory
      { amount := c.amount, createdBy := w.agent.userId, createdAt := now }) = [.history hist] ∧
      hist.id = l.newId.1 ∧ hist = ⟨hist.id, c.amount, w.agent.userId, hist.createdAt⟩ ∧
      hist.createdAt = now := ⟨_, rfl, rfl, rfl, rfl⟩
  have hanswer : (s.answer l (.insertHistory
      { amount := c.amount, createdBy := w.agent.userId, createdAt := now })).1 = .ok hist := by
    rw [hhist, hid, hcreated]
    rfl
  obtain ⟨l₁, hgrants₁, hl₁, h⟩ := h.get_bind.write_bind hl rfl hanswer hwrites
  -- the payable invoices are seen as they were found, unpaid, so each of them is settled
  have paid_eq : (s.writeAll [.history hist]).writes l₁ (.markPaid ids
      { historyId := hist.id, paidAt := c.createdAt, acceptedAt := now }) =
      payable.map fun i => .invoice (i.settled ⟨hist.id, c.createdAt, hist.createdAt⟩) := by
    rw [hids, hcreated]
    refine Session.revisions_eq fun i hi => ⟨?_, if_pos (hpayable i hi).2⟩
    rw [s.view_writeAll (by simp)]
    exact (hpayable i hi).1
  obtain ⟨l₂, hgrants₂, hl₂, h⟩ := h.write_bind hl₁ rfl rfl paid_eq
  rw [Session.writeAll_writeAll] at h hl₂
  have lastId_le : (l.lastId : Ident) ≤ l₂.lastId :=
    Int.ofNat_le.2 (Nat.le_trans hgrants₁.lastId hgrants₂.lastId)
  rcases h.bind with ⟨e, rfl, hcreate⟩ | ⟨adjustments, z, hcreate, hpure⟩
  · obtain ⟨now', added, ha, -⟩ := Adjustments.create_ends hl₂ hcreate
    cases ha
  · obtain ⟨now', added, ha, hw, hs, hreversal, hascending, hnew⟩ :=
      Adjustments.create_ends hl₂ hcreate
    cases ha
    obtain ⟨rfl, rfl⟩ := hpure.pure
    refine ⟨hist, now', adjustments, rfl, hw, ?_, hhist, hreversal, hascending, ?_, ?_⟩
    · rw [hid]
      exact Int.not_le.1 l.not_newId_le
    · exact fun a ha => Int.lt_of_le_of_lt lastId_le (hnew a ha)
    · rw [hs, Session.writeAll_writeAll]
      rfl

/-- The writes of accepting: the submission, its log entry, the payment, the invoices that it settles,
and what is added. -/
def clearing (w : Workflow) (c x : Submission) (e : LogEntry) (hist : History)
    (settled added : List Invoice) : List Put :=
  .submission { x with status := .accepted, completedBy := some w.agent.userId } :: .logEntry e ::
    .history hist ::
      ((settled.map fun i => .invoice (i.settled ⟨hist.id, c.createdAt, hist.createdAt⟩)) ++
        added.map .invoice)

theorem invoice_mem_clearing {c x : Submission} {e : LogEntry} {hist : History}
    {settled added : List Invoice} {i : Invoice} :
    Put.invoice i ∈ w.clearing c x e hist settled added ↔
      (∃ j ∈ settled, j.settled ⟨hist.id, c.createdAt, hist.createdAt⟩ = i) ∨ i ∈ added := by
  simp [clearing]

/-- The course of accepting: of the invoices `found` of the submission the unpaid ones add up to its
amount and were settled with the payment `hist`, `e` was written to the log, and for those of them
that were flagged the adjustments `added` were stored. -/
structure Cleared (w : Workflow) (l : Ledger) (s : Session) (y : Workflow × Ledger × Session)
    (c x : Submission) (found : List Invoice) (e : LogEntry) (hist : History) (now : Instant)
    (added : List Invoice) : Prop where
  copy : w.data = some c
  submitted : c.status = .submitted
  seen : (l.tables.apply s.changes).submissions.get? c.id = some x
  finds : Root.invoice.inOrder ((Query.invoicesOf c.id true).select (l.tables.apply s.changes)) = found
  locked : ∀ i ∈ found, y.2.1.locks ⟨.invoice, i.id⟩ = some s.id
  unpaid : ∀ i ∈ found, i.status = .notPaid ∨ i.status = .cancelled
  total : ∃ sum, Money.total ((Invoice.unpaidAmong found).map (·.amount)) = .ok sum ∧
    sum.units = c.amount.units
  agent : y.1.agent = w.agent
  data : y.1.data = some { c with status := .accepted, completedBy := some w.agent.userId }
  entry : e = ⟨e.id, c.id, .accepted, w.agent.kind, w.agent.userId, e.createdAt⟩
  entry_new : (l.lastId : Ident) < e.id
  history : hist = ⟨hist.id, c.amount, w.agent.userId, hist.createdAt⟩
  history_new : (l.lastId : Ident) < hist.id
  reversed : List.Forall₂ (Invoice.Reversal now)
    ((Invoice.unpaidAmong found).filter Invoice.flagged) added
  ascending : added.Pairwise (·.id < ·.id)
  added_new : ∀ a ∈ added, (l.lastId : Ident) < a.id
  session : y.2.2 =
    (s.refresh l).writeAll (w.clearing c x e hist (Invoice.unpaidAmong found) added)

namespace Cleared

variable {c x : Submission} {found added : List Invoice} {e : LogEntry} {hist : History}
  {now : Instant}

theorem found_perm (h : Cleared w l s y c x found e hist now added) :
    found.Perm ((Query.invoicesOf c.id true).select (l.tables.apply s.changes)) := by
  rw [← h.finds]
  exact Root.inOrder_perm .invoice _

theorem there (h : Cleared w l s y c x found e hist now added) (hl : l.Hosts s) {i : Invoice}
    (hi : i ∈ found) : (l.tables.apply s.changes).invoices.get? i.id = some i :=
  Query.there_of_found hl.shown_keyed h.found_perm hi

/-- No row that was there before is under the id of an adjustment. -/
theorem added_none (h : Cleared w l s y c x found e hist now added) (hl : l.Hosts s) {a : Invoice}
    (ha : a ∈ added) : (l.tables.apply s.changes).invoices.get? a.id = none :=
  Option.not_isSome_iff_eq_none.1 fun hused =>
    Int.not_le.2 (h.added_new a ha) (hl.uses_le (.inl hused))

theorem id_ne (h : Cleared w l s y c x found e hist now added) (hl : l.Hosts s) {i a : Invoice}
    (hi : i ∈ Invoice.unpaidAmong found) (ha : a ∈ added) : i.id ≠ a.id := by
  intro heq
  have hthere := h.there hl ((Invoice.unpaidAmong_sublist found).subset hi)
  rw [heq, h.added_none hl ha] at hthere
  cases hthere

/-- Without the adjustments, accepting is a move. -/
theorem settling_move {strict : Prop} (h : Cleared w l s y x x found e hist now added)
    (hl : l.Hosts s) (hbuilt : Built strict (l.tables.apply s.changes))
    (hexact : strict → Invoice.SumsExactly
      ((Query.invoicesOf x.id true).select (l.tables.apply s.changes))) :
    Move strict (l.tables.apply s.changes)
      (w.clearing x x e hist (Invoice.unpaidAmong found) []) := by
  obtain ⟨sum, hsum, hunits⟩ := h.total
  have move : Move strict (l.tables.apply s.changes)
      (.submission { x with status := .accepted, completedBy := some w.agent.userId } ::
        .logEntry e :: .history hist :: (Invoice.unpaidAmong found).map fun i =>
          .invoice (i.settled ⟨hist.id, x.createdAt, hist.createdAt⟩)) := by
    refine .of_payable e hbuilt h.seen h.submitted h.found_perm (Invoice.unpaidAmong_sublist found)
      (fun i hi => (Invoice.mem_unpaidAmong.1 hi).2) (fun i hi => ?_) hsum hunits hexact ?_
      (congrArg History.amount h.history) rfl
    · exact (h.unpaid i hi).imp_left fun hstatus => Invoice.mem_unpaidAmong.2 ⟨hi, hstatus⟩
    · exact Option.not_isSome_iff_eq_none.1 fun hused => Int.not_le.2 h.history_new
        (hl.uses_le (.inr (.inr (.inr (.inl hused)))))
  unfold clearing
  rw [List.map_nil, List.append_nil]
  exact move

/-- Accepting is a move, and every adjustment is a move of its own. -/
theorem moves {strict : Prop} (h : Cleared w l s y x x found e hist now added) (hl : l.Hosts s)
    (hbuilt : Built strict (l.tables.apply s.changes))
    (hexact : strict → Invoice.SumsExactly
      ((Query.invoicesOf x.id true).select (l.tables.apply s.changes)))
    (hpos : strict → ∀ id i, (l.tables.apply s.changes).invoices.get? id = some i →
      0 < i.amount.units) :
    Moves strict (l.tables.apply s.changes)
      (w.clearing x x e hist (Invoice.unpaidAmong found) added) := by
  have clearing_eq : w.clearing x x e hist (Invoice.unpaidAmong found) added =
      w.clearing x x e hist (Invoice.unpaidAmong found) [] ++ added.map .invoice := by
    simp [clearing]
  rw [clearing_eq]
  have hsub := Invoice.unpaidAmong_sublist found
  refine (h.settling_move hl hbuilt hexact).moves.append
    (.of_new (fun a ha => ?_) ?_ (fun a ha => ?_) fun hs a ha => ?_)
  · -- settling writes no invoice under a new id
    rcases Tables.invoice_putAll (l.tables.apply s.changes)
        (w.clearing x x e hist (Invoice.unpaidAmong found) []) a.id with
      ⟨hget, -⟩ | ⟨i, hi, hid, -⟩
    · rw [hget]
      exact h.added_none hl ha
    · obtain ⟨j, hj, rfl⟩ := (invoice_mem_clearing.1 hi).resolve_right List.not_mem_nil
      exact absurd (show j.id = a.id from hid) (h.id_ne hl hj ha)
  · exact List.Pairwise.imp (fun hlt heq => Int.ne_of_lt hlt heq)
      (h.ascending.map _ fun _ _ h => h)
  · obtain ⟨i, -, hreversal⟩ := Invoice.exists_reversed h.reversed ha
    exact hreversal.historyId
  · obtain ⟨i, hi, hreversal⟩ := Invoice.exists_reversed h.reversed ha
    rw [hreversal.amount]
    exact hpos hs i.id i (h.there hl (hsub.subset (List.mem_filter.1 hi).1))

end Cleared

/-- **The course of accepting**, unless it ends before anything is written. -/
theorem accept_goes {r : Except Failure AcceptOutcome} (hl : l.Hosts s)
    (h : accept.Ends (w, l, s) r y) :
    ((∃ e, r = .error e) ∧ Service.Untouched w l s y) ∨
      ∃ c x found e hist now added,
        r = .ok ⟨hist, (Invoice.unpaidAmong found).map (·.id), added⟩ ∧
        Cleared w l s y c x found e hist now added := by
  unfold accept at h
  rcases loaded_bind h with ⟨-, hr, rfl⟩ | ⟨c, hc, h⟩
  · exact .inl ⟨⟨_, hr⟩, .refl ..⟩
  rcases h.unless with ⟨hr, rfl, -⟩ | ⟨hstatus, h⟩
  · exact .inl ⟨⟨_, hr⟩, .refl ..⟩
  obtain ⟨l₁, hledger₁, hgrants₁, hl₁, ⟨herror, rfl, -⟩ | ⟨hlocks, h⟩⟩ := h.find_bind hl
  · exact .inl ⟨herror, rfl, .inr rfl, hledger₁⟩
  have read : Service.Untouched w l s (w, l₁, s.refresh l) := ⟨rfl, .inr rfl, hledger₁⟩
  rcases ofSelection_bind h with ⟨e, -, hr, rfl⟩ | ⟨settling, hsettling, h⟩
  · exact .inl ⟨⟨e, hr⟩, read⟩
  rcases h.unless with ⟨hr, rfl, -⟩ | ⟨htotal, h⟩
  · exact .inl ⟨⟨_, hr⟩, read⟩
  rcases h.bind with ⟨e, rfl, hupdate⟩ | ⟨⟨⟩, ⟨w₂, l₂, s₂⟩, hupdate, h⟩
  · rcases updateStatus_ends hl₁ hupdate with ⟨-, rfl, -⟩ | ⟨-, -, -, -, -, -, he, -⟩
    · exact .inl ⟨⟨e, rfl⟩, read⟩
    · cases he
  obtain ⟨hgrants₂, -, hl₂⟩ := hupdate.leads hl₁
  rcases updateStatus_ends hl₁ hupdate with
    ⟨⟨e, he⟩, -⟩ | ⟨c', x, e, hc', -, hx, -, hdata, hagent, hs₂, hnew, hentry⟩
  · cases he
  cases hc.symm.trans hc'
  dsimp only at hgrants₂ hl₂ hdata hagent hs₂
  -- from here on nothing fails
  replace hx : (l.tables.apply s.changes).submissions.get? c.id = some x := hx
  obtain ⟨hunpaid, hsum, hids, hadjust⟩ := Settling.foldlM_eq_ok_iff.1 hsettling
  have hfound := Root.inOrder_perm .invoice
    ((Query.invoicesOf c.id true).select (l.tables.apply s.changes))
  generalize hrows : Root.invoice.inOrder
    ((Query.invoicesOf c.id true).select (l.tables.apply s.changes)) = found
    at hunpaid hsum hids hadjust hfound
  replace hids : settling.payable = (Invoice.unpaidAmong found).map (·.id) := hids
  replace hadjust : settling.toAdjust = (Invoice.unpaidAmong found).filter Invoice.flagged := hadjust
  rw [hids, hadjust] at h
  -- since the invoices were found the session has written only the submission
  have hview : s₂.view = (l.tables.apply s.changes).putAll
      [.submission { x with status := .accepted, completedBy := some w.agent.userId },
        .logEntry e] := by
    rw [hs₂]
    exact (s.refresh l).view_writeAll (by simp)
  have hpayable : ∀ i ∈ Invoice.unpaidAmong found,
      s₂.view.invoices.get? i.id = some i ∧ i.status = .notPaid := by
    intro i hi
    obtain ⟨hi, hstatus⟩ := Invoice.mem_unpaidAmong.1 hi
    rw [hview]
    exact ⟨Query.there_of_found hl.shown_keyed hfound hi, hstatus⟩
  obtain ⟨hgrants₃, -, -⟩ := h.leads hl₂
  obtain ⟨hist, now, added, hr, hw, hhist_new, hhist, hreversal, hascending, hadded, hs⟩ :=
    settle_ends hl₂ rfl hpayable h
  have lastId_le : (l.lastId : Ident) ≤ l₂.lastId :=
    Int.ofNat_le.2 (Nat.le_trans hgrants₁.lastId hgrants₂.lastId)
  refine .inr ⟨c, x, found, e, hist, now, added, hr, {
    copy := hc
    submitted := by simpa using hstatus
    seen := hx
    finds := hrows
    locked := fun i hi => ?_
    unpaid := hunpaid
    total := ⟨_, hsum, Money.equiv_iff.1 (Decidable.not_not.1 htotal)⟩
    agent := by rw [hw, hagent]
    data := by rw [hw, hdata]
    entry := hentry
    entry_new := Int.lt_of_le_of_lt (Int.ofNat_le.2 hgrants₁.lastId) hnew
    history := by rw [hhist, hagent]
    history_new := Int.lt_of_le_of_lt lastId_le hhist_new
    reversed := ?_
    ascending := hascending
    added_new := fun a ha => Int.lt_of_le_of_lt lastId_le (hadded a ha)
    session := ?_ }⟩
  · have hlock := hlocks (Query.locked_invoicesOf ..) i (hfound.mem_iff.1 hi)
    have hid : s₂.id = s.id := by rw [hs₂]; rfl
    rw [hid] at hgrants₃
    exact hgrants₃.locks_own (hgrants₂.locks_own hlock)
  · -- what is flagged is not an adjustment
    have filter_eq : ((Invoice.unpaidAmong found).filter Invoice.flagged).filter
        (fun i => !i.kind.isAdjustment) = (Invoice.unpaidAmong found).filter Invoice.flagged := by
      refine List.filter_eq_self.2 fun i hi => ?_
      have hflagged := (List.mem_filter.1 hi).2
      rw [Invoice.flagged, Bool.and_eq_true] at hflagged
      exact hflagged.2
    rw [filter_eq] at hreversal
    exact hreversal
  · rw [hs, hs₂, Session.writeAll_writeAll]
    rfl

/-- What accepting has done: on the copy `c`, with the row `x` that the session saw, and with the
writes `qs`. -/
structure Accepted (strict : Prop) (w : Workflow) (l : Ledger) (s : Session)
    (y : Workflow × Ledger × Session) (c x : Submission) (qs : List Put) : Prop where
  copy : w.data = some c
  submitted : c.status = .submitted
  seen : (l.tables.apply s.changes).submissions.get? c.id = some x
  agent : y.1.agent = w.agent
  data : y.1.data = some { c with status := .accepted, completedBy := some w.agent.userId }
  session : y.2.2 = (s.refresh l).writeAll qs
  heads : Put.Heads { x with status := .accepted, completedBy := some w.agent.userId } qs
  locked : ∀ i, Put.invoice i ∈ qs → i.status = .paid →
    y.2.1.locks ⟨.invoice, i.id⟩ = some s.id
  settles : ∀ i, Put.invoice i ∈ qs → (l.tables.apply s.changes).invoices.get? i.id = none ∨
    ∃ j settlement, (l.tables.apply s.changes).invoices.get? i.id = some j ∧
      j.status = .notPaid ∧ i = j.settled settlement
  moves : Built strict (l.tables.apply s.changes) → x = c →
    (strict → Invoice.SumsExactly
      ((Query.invoicesOf c.id true).select (l.tables.apply s.changes))) →
    Moves strict (l.tables.apply s.changes) qs

theorem Accepted.changes {strict : Prop} {c x : Submission} {qs : List Put}
    (h : Accepted strict w l s y c x qs) : y.2.2.changes = s.changes.putAll qs := by
  rw [h.session, Session.writeAll_changes, Session.refresh_changes]

/-- **Accepting** either writes nothing, or does all that it should. -/
theorem accept_ends (strict : Prop) {r : Except Failure AcceptOutcome} (hl : l.Hosts s)
    (hpos : strict → ∀ id i, (l.tables.apply s.changes).invoices.get? id = some i →
      0 < i.amount.units)
    (h : accept.Ends (w, l, s) r y) :
    ((∃ e, r = .error e) ∧ Service.Untouched w l s y) ∨
      (∃ a, r = .ok a) ∧ ∃ c x qs, Accepted strict w l s y c x qs := by
  rcases accept_goes hl h with hfailed | ⟨c, x, found, e, hist, now, added, rfl, hgoes⟩
  · exact .inl hfailed
  have hfound := hgoes.found_perm
  have hsub := Invoice.unpaidAmong_sublist found
  refine .inr ⟨⟨_, rfl⟩, c, x, _, {
    copy := hgoes.copy
    submitted := hgoes.submitted
    seen := hgoes.seen
    agent := hgoes.agent
    data := hgoes.data
    session := hgoes.session
    heads := ⟨_, by simp, by simp, rfl⟩
    locked := ?_
    settles := ?_
    moves := ?_ }⟩
  · intro i hi hpaid
    rcases invoice_mem_clearing.1 hi with ⟨j, hj, rfl⟩ | hi
    · exact hgoes.locked j (hsub.subset hj)
    · obtain ⟨j, -, hreversal⟩ := Invoice.exists_reversed hgoes.reversed hi
      rw [hreversal.status] at hpaid
      cases hpaid
  · intro i hi
    rcases invoice_mem_clearing.1 hi with ⟨j, hj, rfl⟩ | hi
    · exact .inr ⟨j, _, hgoes.there hl (hsub.subset hj), (Invoice.mem_unpaidAmong.1 hj).2, rfl⟩
    · exact .inl (hgoes.added_none hl hi)
  · rintro hbuilt rfl hexact
    exact hgoes.moves hl hbuilt hexact hpos

end Workflow

end TeamLedger
