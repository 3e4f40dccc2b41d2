/-
What is selected is what is settled.

Creating and accepting go through invoices in two ways. The one takes invoices of
a query, passes over some of them, and stops when the amount is reached; the
other takes all invoices that the links lead to. Both go from the oldest invoice
on, and both add up from the left. So as long as the invoices are what they were,
accepting goes through the very invoices that were selected, in the same order,
and comes to the very same total, rounded sums included.

The links have to be those of the creation alone. A link to a number that has
not been given to a submission yet is possible, and the submission that gets the
number then holds one invoice more than was selected
(`accept_settles_selection_dangling`).
-/
import TeamLedger.Proofs.Ages
import TeamLedger.Proofs.Assuring
import TeamLedger.Proofs.Creating
import TeamLedger.Proofs.Equations
import TeamLedger.Proofs.Locks
import TeamLedger.Proofs.Paying

set_option autoImplicit false

namespace TeamLedger

variable {σ τ : Type}

/-! ## Going through unpaid invoices -/

/-- Settling passes over nothing if all is unpaid. -/
theorem Workflow.Settling.foldlM_of_unpaid {is : List Invoice} {st : Settling} {sum : Money}
    (hunpaid : ∀ i ∈ is, i.status = .notPaid)
    (hsum : (is.map (·.amount)).foldlM Money.add st.total = .ok sum) :
    ∃ st', is.foldlM Settling.add st = .ok st' ∧ st'.payable = st.payable ++ is.map (·.id) ∧
      st'.total = sum := by
  have hall := Invoice.unpaidAmong_eq_self hunpaid
  refine ⟨⟨st.payable ++ is.map (·.id), sum, _⟩, foldlM_eq_ok_iff.2 ⟨?_, ?_, ?_, rfl⟩, rfl, rfl⟩
  · exact fun i hi => .inl (hunpaid i hi)
  · rw [hall]
    exact hsum
  · rw [hall]

/-! ## Rules for the parts of accepting -/

section Assures

variable {α : Type} {t : Tables} {s : Session}

/-- **Without a break** the service ends as it assures. -/
theorem Service.Assures.goes {Q : Except Failure α → σ → Session → Prop} {p : Service σ α} {st : σ}
    (h : p.Assures t Q st s) {l : Ledger} (around : Surroundings) (ht : l.tables = t)
    (hl : l.Hosts s) : ∃ r st' l' s' around',
      p.run Session.backend st (l, s) around = (r, st', (l', s'), around') ∧ Q r st' s' ∧
        l.Grants s.id l' := by
  have hQ := Program.Assures.run h around ht hl
  obtain ⟨hgrants, -, -⟩ := (p st).run_leads around hl
  unfold Service.run
  generalize (p st).run Session.backend (l, s) around = z at hQ hgrants
  obtain ⟨⟨r, st'⟩, ⟨l', s'⟩, around'⟩ := z
  exact ⟨r, st', l', s', around', rfl, hQ, hgrants⟩

/-- Adjustments are stored, and nothing else. -/
theorem Adjustments.insertAll_assures {Q : Except Failure (List Invoice) → σ → Session → Prop}
    {now : Instant} {is : List Invoice} {st : σ}
    (hQ : ∀ stored added : List Invoice, Q (.ok stored) st (s.writeAll (added.map .invoice))) :
    (insertAll now is : Service σ (List Invoice)).Assures t Q st s := by
  induction is generalizing s Q with
  | nil => exact .pure (hQ [] [])
  | cons i rest ih =>
    unfold insertAll
    cases hadj : i.adjustment? now with
    | none => exact ih hQ
    | some new =>
      refine .write_bind rfl fun l _ _ => ⟨new.withId l.newId.1, rfl, .count_bind (.bind (ih ?_))⟩
      intro stored added
      refine .pure ?_
      rw [Session.writeAll_writeAll]
      exact hQ _ (new.withId l.newId.1 :: added)

namespace Workflow

variable {w : Workflow} {c x : Submission}
  {Q : Except Failure α → Workflow → Session → Prop}

theorem loaded_assures {f : Submission → Flow α} (hc : w.data = some c)
    (h : (f c).Assures t Q w s) : (loaded >>= f).Assures t Q w s := by
  refine .bind (.get_bind ?_)
  rw [hc]
  exact h

theorem log_assures {status : Submission.Status} {Q : Except Failure Unit → Workflow → Session → Prop}
    (hc : w.data = some c) (h : ∀ e : LogEntry,
      Q (.ok ()) { w with transitions := w.transitions ++ [status] } (s.writeAll [.logEntry e])) :
    (log status).Assures t Q w s := by
  unfold log
  refine loaded_assures hc (.get_bind (.now_bind fun now => .write_bind rfl fun l _ _ => ?_))
  exact ⟨_, rfl, .modify_bind (f := pure) (.pure (h _))⟩

/-- Moving an open submission that the session sees. -/
theorem updateStatus_assures {status : Submission.Status} {f : Unit → Flow α}
    (hc : w.data = some c) (hopen : c.status.isTerminal = false)
    (hx : s.view.submissions.get? c.id = some x)
    (h : ∀ (e : LogEntry) (w' : Workflow), w'.agent = w.agent →
      w'.data = some { c with status, completedBy := some w.agent.userId } →
      (f ()).Assures t Q w' (s.writeAll [.submission { x with
        status, completedBy := some w.agent.userId }, .logEntry e])) :
    (updateStatus status >>= f).Assures t Q w s := by
  refine .bind ?_
  unfold updateStatus
  refine loaded_assures hc ?_
  rw [hopen]
  refine .get_bind (.write_bind rfl fun l _ _ => ⟨1, by simp only [Session.answer, hx], ?_⟩)
  have writes_eq : s.writes l (.updateSubmissionStatus c.id status w.agent.userId) =
      [.submission { x with status, completedBy := some w.agent.userId }] := by
    simp only [Session.writes, hx, Option.map_some, Option.toList_some]
  rw [writes_eq, if_neg Nat.one_ne_zero]
  refine .modify_bind (log_assures (by rw [hc, Option.map_some]) fun e => ?_)
  rw [Session.writeAll_writeAll]
  refine h e _ rfl ?_
  rw [hc, Option.map_some]

/-- What accepting leaves: an outcome with the amount and the payable invoices, the workflow's copy
accepted, and of the submissions only the row of this one rewritten. -/
structure Settles (w : Workflow) (s : Session) (c x : Submission) (payable : List Ident)
    (r : Except Failure AcceptOutcome) (w' : Workflow) (s' : Session) : Prop where
  outcome : ∃ outcome, r = .ok outcome ∧ outcome.history.amount = c.amount ∧
    outcome.paidInvoices = payable
  data : w'.data = some { c with status := .accepted, completedBy := some w.agent.userId }
  row : ∃ ps, s' = s.writeAll ps ∧
    Put.Heads { x with status := .accepted, completedBy := some w.agent.userId } ps

/-- **Once the invoices are found and add up, nothing fails.** -/
theorem settle_assures {linked : List Invoice} {settling : Settling} (hc : w.data = some c)
    (hopen : c.status = .submitted) (hx : s.view.submissions.get? c.id = some x)
    (hfold : linked.foldlM Settling.add {} = .ok settling) (htotal : settling.total ≈ c.amount) :
    (do
      let settling ← ofSelection (linked.foldlM Settling.add {})
      if ¬ settling.total ≈ c.amount then
        Service.refuse (.amount (.declaredMismatch c.id c.amount settling.total))
      updateStatus .accepted
      let now ← Service.now
      let history ← Service.call (.insertHistory
        { amount := c.amount, createdBy := (← get).agent.userId, createdAt := now })
      let _ ← Service.call (.markPaid settling.payable
        { historyId := history.id, paidAt := c.createdAt, acceptedAt := now })
      let adjustments ← Adjustments.create settling.toAdjust
      return { history, paidInvoices := settling.payable, adjustments } :
        Flow AcceptOutcome).Assures t (Settles w s c x settling.payable) w s := by
  have terminal : c.status.isTerminal = false := by rw [hopen]; rfl
  refine .bind ?_
  rw [hfold]
  refine .pure ?_
  dsimp only
  rw [if_neg (not_not.2 htotal)]
  refine updateStatus_assures hc terminal hx fun e w' hagent hdata => ?_
  refine .now_bind fun now => .get_bind (.write_bind rfl fun l _ _ => ⟨_, rfl, ?_⟩)
  obtain ⟨hist, hwrites⟩ : ∃ hist : History, (s.writeAll [.submission { x with
      status := .accepted, completedBy := some w.agent.userId }, .logEntry e]).writes l
      (.insertHistory { amount := c.amount, createdBy := w'.agent.userId, createdAt := now }) =
      [.history hist] := ⟨_, rfl⟩
  rw [hwrites, Session.writeAll_writeAll]
  refine .write_bind rfl fun l' _ _ => ⟨_, rfl, .bind (.now_bind fun now' => ?_)⟩
  refine Adjustments.insertAll_assures fun stored added => .pure ?_
  -- marking invoices as paid and adding adjustments writes invoices only
  rw [Session.writeAll_writeAll, Session.writeAll_writeAll]
  refine ⟨⟨_, rfl, rfl, rfl⟩, hdata, _, rfl, _, ?_, ?_, rfl⟩
  · simp [Session.writes, Session.revisions]
  · simp [Session.writes, Session.revisions]

end Workflow

end Assures

/-! ## Accepting -/

namespace Workflow

variable {w : Workflow} {l : Ledger} {s : Session} {c x : Submission}

theorem run_loaded (b : Backend τ) (st : τ) (around : Surroundings) (hc : w.data = some c) :
    loaded.run b w st around = (.ok c, w, st, around) := by
  unfold loaded
  rw [Service.run_bind, Service.run_get]
  dsimp only
  rw [hc, Service.run_pure]

/-- **A submission that has ended is not accepted again**, whatever the store and whatever is around;
nothing is asked of either. -/
theorem run_accept_of_ended (b : Backend τ) (st : τ) (around : Surroundings) (hc : w.data = some c)
    (hended : c.status ≠ .submitted) :
    accept.run b w st around =
      (.error (.refused (.consistency (.notSubmitted c.id c.status))), w, st, around) := by
  unfold accept
  rw [Service.run_bind, run_loaded b st around hc]
  dsimp only
  rw [if_pos hended]
  rfl

/-- **An open submission whose invoices add up is accepted**, unless one of them is locked. -/
theorem run_accept (hl : l.Hosts s) (around : Surroundings) (hc : w.data = some c)
    (hopen : c.status = .submitted) (hx : (l.tables.apply s.changes).submissions.get? c.id = some x)
    {linked : List Invoice} (hlinked : Root.invoice.inOrder
      ((Query.invoicesOf c.id true).select (l.tables.apply s.changes)) = linked)
    (hfree : ∀ i ∈ linked, l.taken s.id ⟨.invoice, i.id⟩ = false) {settling : Settling}
    (hfold : linked.foldlM Settling.add {} = .ok settling) (htotal : settling.total ≈ c.amount) :
    ∃ r w' l' s' around', accept.run Session.backend w (l, s) around = (r, w', (l', s'), around') ∧
      Settles w (s.refresh l) c x settling.payable r w' s' ∧ l'.tables = l.tables := by
  have hlocked : (Query.invoicesOf c.id true).locked = true := Query.locked_invoicesOf c.id true
  rcases s.answer_find_locked l hlocked with ⟨-, answer_eq⟩ | ⟨i, hi, htaken, -⟩
  · rw [hlinked] at answer_eq
    obtain ⟨l₁, answer_eq, tables_eq⟩ : ∃ l₁,
        s.answer l (.find .invoice (Query.invoicesOf c.id true)) = (.ok linked, l₁, s.refresh l) ∧
          l₁.tables = l.tables := ⟨_, answer_eq, rfl⟩
    have hhosts := hl.answer (.find .invoice (Query.invoicesOf c.id true))
    rw [answer_eq] at hhosts
    obtain ⟨metrics, find_eq⟩ := Service.run_call_session w around answer_eq
    obtain ⟨r, w', l', s', around', hrun, hsettles, hgrants⟩ :=
      (settle_assures (s := s.refresh l) hc hopen hx hfold htotal).goes { around with metrics }
        tables_eq hhosts
    refine ⟨r, w', l', s', around', ?_, hsettles, hgrants.tables.trans tables_eq⟩
    unfold accept
    rw [Service.run_bind, run_loaded _ _ around hc]
    dsimp only
    rw [if_neg (not_not.2 hopen), Service.run_bind, find_eq]
    exact hrun
  · have hi_free := hfree i (hlinked ▸ (Root.inOrder_perm .invoice _).mem_iff.2 hi)
    exact absurd (hi_free.symm.trans htaken) Bool.false_ne_true

end Workflow

/-! ## After a creation -/

/-- The second state has the submission, its links and its invoices as the first one has them. -/
structure Tables.SameBatch (t t' : Tables) (id : Ident) : Prop where
  row : t'.submissions.get? id = t.submissions.get? id
  links : ∀ i, ⟨i, id⟩ ∈ t'.links ↔ ⟨i, id⟩ ∈ t.links
  invoices : ∀ i, ⟨i, id⟩ ∈ t.links → t'.invoices.get? i = t.invoices.get? i

theorem Tables.SameBatch.refl (t : Tables) (id : Ident) : t.SameBatch t id :=
  ⟨rfl, fun _ => Iff.rfl, fun _ _ => rfl⟩

/-- The invoice as one that is part of a submission. -/
def Invoice.marked (i : Invoice) : Invoice := { i with hasSubmission := true }

/-- The writes of a creation. -/
def Submission.batch (x : Submission) (taken : List Invoice) (e : LogEntry) : List Put :=
  .submission x :: (taken.map (fun i => .invoice i.marked) ++
    (taken.map (fun i => .link ⟨i.id, x.id⟩) ++ [.logEntry e]))

namespace Submission

variable {x : Submission} {taken : List Invoice} {e : LogEntry}

theorem heads_batch : Put.Heads x (x.batch taken e) :=
  ⟨_, by simp, by simp, rfl⟩

theorem invoice_mem_batch {i : Invoice} :
    Put.invoice i ∈ x.batch taken e ↔ ∃ j ∈ taken, j.marked = i := by
  simp [batch]

theorem links_batch :
    (x.batch taken e).filterMap Put.link? = (taken.map (·.id)).map (⟨·, x.id⟩) := by
  have marks : (taken.map fun i => Put.invoice i.marked).filterMap Put.link? = [] := by
    simp [Put.link?, List.filterMap_map, Function.comp_def]
  have links : (taken.map fun i => Put.link ⟨i.id, x.id⟩).filterMap Put.link? =
      (taken.map (·.id)).map (⟨·, x.id⟩) := by
    simp [Put.link?, List.filterMap_map, Function.comp_def]
  unfold batch
  rw [List.filterMap_cons_none rfl, List.filterMap_append, List.filterMap_append, marks, links]
  exact List.append_nil _

end Submission

namespace Workflow.Batched

variable {w : Workflow} {l : Ledger} {s : Session} {y : Workflow × Ledger × Session}
  {query : Query .invoice} {x : Submission} {active : List Ident} {taken : List Invoice}
  {e : LogEntry}

/-- What the session's commit would leave then. -/
theorem tables_eq (h : Batched w l s y query x active taken e) (hgrants : l.Grants s.id y.2.1) :
    y.2.1.tables.apply y.2.2.changes = (l.tables.apply s.changes).putAll (x.batch taken e) := by
  rw [h.session, hgrants.tables, Session.writeAll_changes, Session.refresh_changes]
  exact Tables.apply_putAll _ _ (by simp)

theorem there (h : Batched w l s y query x active taken e) (hl : l.Hosts s) {i : Invoice}
    (hi : i ∈ taken) : (l.tables.apply s.changes).invoices.get? i.id = some i :=
  Query.there_of_found hl.shown_keyed (Root.inOrder_perm .invoice _)
    (h.listed.subset hi)

theorem invoice_after (h : Batched w l s y query x active taken e) (hl : l.Hosts s) {i : Invoice}
    (hi : i ∈ taken) : ((l.tables.apply s.changes).putAll (x.batch taken e)).invoices.get? i.id =
      some i.marked := by
  rcases Tables.invoice_putAll (l.tables.apply s.changes) (x.batch taken e) i.id with
    ⟨-, hne⟩ | ⟨j, hj, hid, hget⟩
  · exact absurd rfl (hne i.marked (Submission.invoice_mem_batch.2 ⟨i, hi, rfl⟩))
  · obtain ⟨k, hk, rfl⟩ := Submission.invoice_mem_batch.1 hj
    -- there is one invoice under the id
    have heq := h.there hl hk
    rw [show k.id = i.id from hid, h.there hl hi] at heq
    rw [hget, Option.some.inj heq]

/-- **The invoices that accepting finds** are those that were selected, in the same order. -/
theorem linked_after (h : Batched w l s y query x active taken e) (hl : l.Hosts s)
    (hfresh : ∀ i, ⟨i, x.id⟩ ∉ (l.tables.apply s.changes).links) {t : Tables} (ht : t.Keyed)
    (hsame : ((l.tables.apply s.changes).putAll (x.batch taken e)).SameBatch t x.id) :
    Root.invoice.inOrder ((Query.invoicesOf x.id true).select t) = taken.map Invoice.marked := by
  have hkeyed : (l.tables.apply s.changes).Keyed := hl.shown_keyed
  have hrow : (t.submissions.get? x.id).isSome := by
    rw [hsame.row, Submission.heads_batch.get?_putAll, if_pos rfl]
    rfl
  have linked_iff (i : Ident) : ⟨i, x.id⟩ ∈ t.links ↔ ∃ j ∈ taken, j.id = i := by
    rw [hsame.links, Tables.putAll_links, Submission.links_batch, List.mem_append]
    simp [hfresh i]
  refine Invoice.eq_of_mem_iff (@Query.inOrder_sorted .invoice _ _ ht.invoices) ?_ fun i => ?_
  · -- the mark has no part in the order
    rw [List.pairwise_map]
    exact (Query.inOrder_sorted query hkeyed.invoices).sublist h.listed
  · rw [(Root.inOrder_perm .invoice _).mem_iff,
      Query.mem_select_invoicesOf h.numbered true ht.submissions, linked_iff]
    constructor
    · rintro ⟨hi, ⟨j, hj, hid⟩, -⟩
      have hget := ht.invoices.mem_values_iff.1 hi
      rw [← hid, hsame.invoices j.id ((hsame.links _).1 ((linked_iff _).2 ⟨j, hj, rfl⟩)),
        h.invoice_after hl hj] at hget
      rw [← Option.some.inj hget]
      exact List.mem_map_of_mem hj
    · intro hi
      obtain ⟨j, hj, rfl⟩ := List.mem_map.1 hi
      have hlink : ⟨j.id, x.id⟩ ∈ t.links := (linked_iff _).2 ⟨j, hj, rfl⟩
      refine ⟨ht.invoices.mem_values_iff.2 ?_, ⟨j, hj, rfl⟩, hrow⟩
      exact (hsame.invoices j.id ((hsame.links _).1 hlink)).trans (h.invoice_after hl hj)

/-- The marked invoices add up as they did when they were selected. -/
theorem adds_up (h : Batched w l s y query x active taken e) : ∃ settling,
    (taken.map Invoice.marked).foldlM Settling.add {} = .ok settling ∧
      settling.payable = taken.map (·.id) ∧ settling.total ≈ x.amount := by
  obtain ⟨sum, hsum, hunits⟩ := h.total
  have hunpaid : ∀ i ∈ taken.map Invoice.marked, i.status = .notPaid := by
    intro i hi
    obtain ⟨j, hj, rfl⟩ := List.mem_map.1 hi
    exact (h.free j hj).1
  have amounts_eq : (taken.map Invoice.marked).map (·.amount) = taken.map (·.amount) := by
    rw [List.map_map]
    rfl
  have hmarked : ((taken.map Invoice.marked).map (·.amount)).foldlM Money.add ({} : Settling).total =
      .ok sum := by
    rw [amounts_eq]
    exact hsum
  obtain ⟨settling, hfold, hpayable, rfl⟩ := Settling.foldlM_of_unpaid hunpaid hmarked
  refine ⟨settling, hfold, ?_, Money.equiv_iff.2 hunits⟩
  rw [hpayable, List.map_map]
  rfl

end Workflow.Batched

/-! ## What is selected is settled -/

namespace Workflow

/-- A workflow that loads the submission after it has been accepted has an accepted one. -/
theorem Settles.loads_accepted {w w' w₁ w₂ : Workflow} {l l' l₁ l₂ : Ledger}
    {s s' s₁ s₂ : Session} {c x y : Submission} {payable : List Ident}
    {r : Except Failure AcceptOutcome} {q : Query .submission} {around around₁ : Surroundings}
    (h : Settles w (s.refresh l) c x payable r w' s') (htables : l'.tables = l.tables)
    (hl₁ : l₁.Hosts s₁) (hrow : (l₁.tables.apply s₁.changes).submissions.get? x.id =
      (l'.tables.apply s'.changes).submissions.get? x.id)
    (hload : (load q).run Session.backend w₁ (l₁, s₁) around = (.ok y, w₂, (l₂, s₂), around₁))
    (hid : y.id = x.id) : w₂.data = some y ∧ y.status = .accepted := by
  obtain ⟨-, ⟨⟨e, he⟩, -⟩ | ⟨y', hy', hw₂, hget, -⟩⟩ := load_ends hl₁ (Service.Ends.of_run hload)
  · cases he
  cases hy'
  obtain ⟨ps, hs', hheads⟩ := h.row
  rw [hid, hrow, hs', htables, Session.writeAll_changes, Session.refresh_changes,
    Tables.apply_putAll _ _ hheads.no_limit, hheads.get?_putAll, if_pos rfl] at hget
  refine ⟨by rw [show w₂ = _ from hw₂], ?_⟩
  rw [← Option.some.inj hget]

variable {w w₁ : Workflow} {l l₁ : Ledger} {s s₁ : Session} {query : Query .invoice}
  {receipt : String} {amount : Money} {x : Submission} {around around₁ : Surroundings}

/-- **What creating selects, accepting settles.** If a submission has been created and no link had named
its number before, then wherever the submission, its links and its invoices are seen as the creation left
them, and no other session has locked the invoices, the submission can be accepted: under a payment of
its amount, with the invoices that were selected, in that order. It cannot be accepted again, neither by
the same workflow nor by one that has loaded it since; then nothing is written. -/
theorem accept_settles_selection (hl : l.Hosts s)
    (hcreate : (create query receipt amount).run Session.backend w (l, s) around =
      (.ok x, w₁, (l₁, s₁), around₁))
    (hfresh : ∀ i, ⟨i, x.id⟩ ∉ (l.tables.apply s.changes).links) :
    ∃ active selected,
      Selection.select (Root.invoice.inOrder (query.select (l.tables.apply s.changes))) active
        x.amount = .ok selected ∧
      (l₁.tables.apply s₁.changes).links =
        (l.tables.apply s.changes).links ++ selected.map (⟨·, x.id⟩) ∧
      ∀ (w' : Workflow) (l' : Ledger) (s' : Session) (around' : Surroundings), l'.Hosts s' →
        (l₁.tables.apply s₁.changes).SameBatch (l'.tables.apply s'.changes) x.id →
        (∀ i ∈ selected, l'.taken s'.id ⟨.invoice, i⟩ = false) → w'.data = some x →
        ∃ outcome w₂ l₂ s₂ around₂,
          accept.run Session.backend w' (l', s') around' = (.ok outcome, w₂, (l₂, s₂), around₂) ∧
          outcome.history.amount = x.amount ∧ outcome.paidInvoices = selected ∧
          (∀ (τ : Type) (b : Backend τ) (st : τ) (around₃ : Surroundings),
            accept.run b w₂ st around₃ =
              (.error (.refused (.consistency (.notSubmitted x.id .accepted))), w₂, st, around₃)) ∧
          ∀ (w₃ w₄ : Workflow) (l₃ l₄ : Ledger) (s₃ s₄ : Session) (around₃ around₄ : Surroundings)
            (q : Query .submission) (c : Submission), l₃.Hosts s₃ →
            (l₃.tables.apply s₃.changes).submissions.get? x.id =
              (l₂.tables.apply s₂.changes).submissions.get? x.id →
            (load q).run Session.backend w₃ (l₃, s₃) around₃ = (.ok c, w₄, (l₄, s₄), around₄) →
            c.id = x.id → ∀ (τ : Type) (b : Backend τ) (st : τ) (around₅ : Surroundings),
              accept.run b w₄ st around₅ =
                (.error (.refused (.consistency (.notSubmitted x.id .accepted))), w₄, st, around₅) := by
  have hends := Service.Ends.of_run hcreate
  obtain ⟨hgrants, -, -⟩ := hends.leads hl
  rcases create_goes hl hends with ⟨e, he, -⟩ | ⟨x', active, taken, e, hx', -, h⟩
  · cases he
  cases hx'
  have htables := h.tables_eq hgrants
  refine ⟨active, taken.map (·.id), h.selected, ?_, fun w' l' s' around' hl' hsame hfree hdata => ?_⟩
  · rw [htables, Tables.putAll_links, Submission.links_batch]
  rw [htables] at hsame
  have hkeyed' : (l'.tables.apply s'.changes).Keyed := hl'.keyed.apply hl'.fits.changes_keyed
  have hlinked := h.linked_after hl hfresh hkeyed' hsame
  have hrow : (l'.tables.apply s'.changes).submissions.get? x.id = some x := by
    rw [hsame.row, Submission.heads_batch.get?_putAll, if_pos rfl]
  obtain ⟨settling, hfold, hpayable, htotal⟩ := h.adds_up
  have hfree' : ∀ i ∈ taken.map Invoice.marked, l'.taken s'.id ⟨.invoice, i.id⟩ = false := by
    intro i hi
    obtain ⟨j, hj, rfl⟩ := List.mem_map.1 hi
    exact hfree j.id (List.mem_map_of_mem hj)
  obtain ⟨r, w₂, l₂, s₂, around₂, hrun, hsettles, htables₂⟩ :=
    run_accept hl' around' hdata h.submitted hrow hlinked hfree' hfold htotal
  obtain ⟨outcome, rfl, hhistory, hpaid⟩ := hsettles.outcome
  refine ⟨outcome, w₂, l₂, s₂, around₂, hrun, hhistory, hpaid.trans hpayable,
    fun τ b st around₃ => ?same, ?loaded⟩
  case same => exact run_accept_of_ended b st around₃ hsettles.data Submission.Status.noConfusion
  case loaded =>
    intro w₃ w₄ l₃ l₄ s₃ s₄ around₃ around₄ q c hl₃ hrow₃ hload hid τ b st around₅
    obtain ⟨hc, haccepted⟩ := hsettles.loads_accepted htables₂ hl₃ hrow₃ hload hid
    rw [run_accept_of_ended b st around₅ hc (by rw [haccepted]; exact Submission.Status.noConfusion),
      hid, haccepted]

/-- Stores an invoice of 100 and one of 50. -/
def twoInvoices : Program Unit := do
  let invoice : NewInvoice :=
    { fromTeam := 1, toTeam := 2, kind := .product, amount := .zero, created := .ofSecond 0 }
  let _ ← Program.request
    (.store (.insertInvoice { invoice with amount := (Money.ofParts? 100 0).getD .zero }))
  let _ ← Program.request
    (.store (.insertInvoice { invoice with amount := (Money.ofParts? 50 0).getD .zero }))

/-- The program has been run in the first session of an empty ledger. -/
def afterwards (p : Program Unit) : Ledger × Session :=
  (p.run Session.backend ((Ledger.begin {}).2, (Ledger.begin {}).1)
    { clock := ⟨.ofSecond 0⟩ }).2.1

theorem sound_afterwards (p : Program Unit) : (afterwards p).1.Sound
    (Function.update (Function.update (fun _ => none) "first" (some (Ledger.begin {}).1)) "first"
      (some (afterwards p).2)) :=
  (Ledger.Sound.empty.begin "first").program (Function.update_self ..) p _

/-- Then a submission of 100 is created. -/
def hundredAfter (p : Program Unit) :
    Except Failure Submission × Workflow × (Ledger × Session) × Surroundings :=
  (create (.start .invoice false) "" ((Money.ofParts? 100 0).getD .zero)).run Session.backend
    { agent := .system } (afterwards p) { clock := ⟨.ofSecond 1⟩ }

/-- The submission that is created if there are two invoices. -/
def hundred : Submission where
  id := 3
  createdBy := 0
  completedBy := none
  status := .submitted
  amount := (Money.ofParts? 100 0).getD .zero
  receipt := ""
  createdAt := .ofSecond 1

theorem hundredAfter_eq {p : Program Unit} (h : (hundredAfter p).1 = .ok hundred) :
    (create (.start .invoice false) "" ⟨100, 0, by decide, by decide⟩).run Session.backend
      { agent := .system } ((afterwards p).1, (afterwards p).2) { clock := ⟨⟨1, 0, by decide⟩⟩ } =
      (.ok hundred, (hundredAfter p).2.1,
        ((hundredAfter p).2.2.1.1, (hundredAfter p).2.2.1.2), (hundredAfter p).2.2.2) :=
  Prod.ext h rfl

/-- The session commits, and another one begins. -/
def nextSession (l : Ledger) (s : Session) : Session × Ledger := (l.commit s).2.begin

/-- The older one of two invoices is selected. After a commit another session accepts the submission. -/
theorem accept_settles_selection_committed : ∃ (l : Ledger) (s : Session) (outcome : AcceptOutcome),
    (hundredAfter twoInvoices).1 = .ok hundred ∧ (hundredAfter twoInvoices).2.2.1 = (l, s) ∧
    (accept.run Session.backend { agent := .system, data := some hundred }
      ((nextSession l s).2, (nextSession l s).1) { clock := ⟨⟨2, 0, by decide⟩⟩ }).1 = .ok outcome ∧
    outcome.history.amount = hundred.amount ∧ outcome.paidInvoices = [1] := by
  have created : (hundredAfter twoInvoices).1 = .ok hundred := by decide +kernel
  have run_eq := hundredAfter_eq created
  generalize hl₁ : (hundredAfter twoInvoices).2.2.1.1 = l₁ at run_eq
  generalize hs₁ : (hundredAfter twoInvoices).2.2.1.2 = s₁ at run_eq
  have sound := sound_afterwards twoInvoices
  have hosts : (afterwards twoInvoices).1.Hosts (afterwards twoInvoices).2 :=
    ⟨sound.keyed, sound.within, sound.fits "first" _ (Function.update_self ..)⟩
  have fresh : ((afterwards twoInvoices).1.tables.apply (afterwards twoInvoices).2.changes).links =
      [] := by decide +kernel
  obtain ⟨active, selected, -, hlinks, hsettles⟩ := accept_settles_selection hosts run_eq
    fun i => by rw [fresh]; exact List.not_mem_nil
  have selected_eq : selected = [1] := by
    have linked : (l₁.tables.apply s₁.changes).links = [⟨1, 3⟩] := by
      rw [← hl₁, ← hs₁]
      decide +kernel
    rw [linked, fresh, List.nil_append] at hlinks
    have ids_eq := congrArg (List.map Link.invoiceId) hlinks
    simpa using ids_eq.symm
  subst selected_eq
  have admits : l₁.Admits s₁ := by
    rw [← Ledger.conflict?_eq_none, ← hl₁, ← hs₁]
    decide +kernel
  have later : l₁.Sound (Function.update (Function.update (Function.update (fun _ => none) "first"
      (some (Ledger.begin {}).1)) "first" (some (afterwards twoInvoices).2)) "first" (some s₁)) := by
    have := sound.program (Function.update_self ..) (create (.start .invoice false) ""
      ⟨100, 0, by decide, by decide⟩ { agent := .system }) { clock := ⟨⟨1, 0, by decide⟩⟩ }
    unfold hundredAfter at hl₁ hs₁
    rw [← hl₁, ← hs₁]
    exact this
  have next_sound := (later.commit (Function.update_self ..)).begin "second"
  have next_hosts : (nextSession l₁ s₁).2.Hosts (nextSession l₁ s₁).1 :=
    ⟨next_sound.keyed, next_sound.within, next_sound.fits "second" _ (Function.update_self ..)⟩
  have same : (l₁.tables.apply s₁.changes).SameBatch
      ((nextSession l₁ s₁).2.tables.apply (nextSession l₁ s₁).1.changes) hundred.id := by
    have tables_eq : (nextSession l₁ s₁).2.tables.apply (nextSession l₁ s₁).1.changes =
        l₁.tables.apply s₁.changes := by
      unfold nextSession
      rw [Ledger.commit_of_admits admits]
      exact Tables.apply_empty _
    rw [tables_eq]
    exact .refl _ _
  have free : ∀ i ∈ [(1 : Ident)], (nextSession l₁ s₁).2.taken (nextSession l₁ s₁).1.id
      ⟨.invoice, i⟩ = false := by
    rw [List.forall_mem_singleton, ← hl₁, ← hs₁]
    decide +kernel
  obtain ⟨outcome, w₂, l₂, s₂, around₂, hrun, hamount, hpaid, -⟩ :=
    hsettles { agent := .system, data := some hundred } _ _ { clock := ⟨⟨2, 0, by decide⟩⟩ } next_hosts
      same free rfl
  exact ⟨l₁, s₁, outcome, created, Prod.ext hl₁ hs₁, congrArg Prod.fst hrun, hamount, hpaid⟩

/-- Stores two invoices, and a link of the second one to the number that comes next. -/
def danglingLink : Program Unit := do
  twoInvoices
  let _ ← Program.request (.store (.linkInvoices 3 [2]))

/-- Links are not checked when they are stored. So the submission may get a number that an invoice has
been linked to already, and then its invoices come to more than was selected. -/
theorem accept_settles_selection_dangling :
    ¬ ∀ (w w₁ : Workflow) (l l₁ : Ledger) (s s₁ : Session) (query : Query .invoice) (receipt : String)
      (amount : Money) (x : Submission) (around around₁ : Surroundings), l.Hosts s →
      (create query receipt amount).run Session.backend w (l, s) around =
        (.ok x, w₁, (l₁, s₁), around₁) →
      ∀ (w' : Workflow) (l' : Ledger) (s' : Session) (around' : Surroundings), l'.Hosts s' →
        (l₁.tables.apply s₁.changes).SameBatch (l'.tables.apply s'.changes) x.id →
        (∀ i, ⟨i, x.id⟩ ∈ (l'.tables.apply s'.changes).links →
          l'.taken s'.id ⟨.invoice, i⟩ = false) → w'.data = some x →
        ∃ outcome, (accept.run Session.backend w' (l', s') around').1 = .ok outcome := by
  intro hall
  have created : (hundredAfter danglingLink).1 = .ok hundred := by decide +kernel
  have run_eq := hundredAfter_eq created
  have sound := sound_afterwards danglingLink
  have hosts : (afterwards danglingLink).1.Hosts (afterwards danglingLink).2 :=
    ⟨sound.keyed, sound.within, sound.fits "first" _ (Function.update_self ..)⟩
  obtain ⟨-, -, hosts₁⟩ := (Service.Ends.of_run run_eq).leads hosts
  have links_eq : ((hundredAfter danglingLink).2.2.1.1.tables.apply
      (hundredAfter danglingLink).2.2.1.2.changes).links = [⟨2, 3⟩, ⟨1, 3⟩] := by decide +kernel
  have free : ∀ k ∈ [(⟨2, 3⟩ : Link), ⟨1, 3⟩], (hundredAfter danglingLink).2.2.1.1.taken
      (hundredAfter danglingLink).2.2.1.2.id ⟨.invoice, k.invoiceId⟩ = false := by decide +kernel
  obtain ⟨outcome, haccept⟩ := hall _ _ _ _ _ _ _ _ _ _ _ _ hosts run_eq
    { agent := .system, data := some hundred } _ _ { clock := ⟨⟨2, 0, by decide⟩⟩ } hosts₁ (.refl _ _)
    (fun i hi => free ⟨i, 3⟩ (links_eq ▸ hi)) rfl
  have refused : (accept.run Session.backend { agent := .system, data := some hundred }
      (hundredAfter danglingLink).2.2.1 { clock := ⟨⟨2, 0, by decide⟩⟩ }).1 =
        .error (.refused (.amount (.declaredMismatch 3 ⟨100, 0, by decide, by decide⟩
          ⟨150, 0, by decide, by decide⟩))) := by decide +kernel
  rw [refused] at haccept
  cases haccept

end Workflow

end TeamLedger
