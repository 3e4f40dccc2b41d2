/-
What rejecting a submission writes.

Rejecting writes the row of the submission before it has read anything, on a view
that may be old. So what it writes is a move only if the row that the session saw
is the one that is stored. A session that can still commit at the end has seen
this one (`Ledger.Fits.sameRow_view`). The invoices are looked up afterwards, as
the session's commit would leave them by then.
-/
import TeamLedger.Proofs.Workflows

set_option autoImplicit false

namespace TeamLedger

/-- Rejecting a submission sets free its invoices. They are looked up when the submission is rejected
already, which makes no difference to them. -/
theorem Move.of_freed {strict : Prop} {t : Tables} {found : List Invoice} {x : Submission} {user : Option Ident} (e : LogEntry) (ht : Built strict t)
    (hx : t.submissions.get? x.id = some x) (hstatus : x.status = .submitted)
    (hfound : found.Perm ((Query.invoicesOf x.id false).select (t.putAll
      [.submission { x with status := .rejected, completedBy := user }, .logEntry e]))) :
    Move strict t (.submission { x with status := .rejected, completedBy := user } ::
      .logEntry e :: found.map fun i => .invoice { i with hasSubmission := false }) := by
  have hne : x.id ≠ 0 := ht.submission_ne_zero (by rw [hx]; rfl)
  have linked_iff {i : Invoice} : i ∈ found ↔
      t.invoices.get? i.id = some i ∧ ⟨i.id, x.id⟩ ∈ t.links := by
    rw [hfound.mem_iff, Query.mem_select_invoicesOf hne false (ht.keyed.putAll _).submissions,
      ← ht.keyed.invoices.mem_values_iff]
    simp [Tables.put]
  refine .reject x user e found hx hstatus ?_ ?_ ?_
  · exact fun i hi => (linked_iff.1 hi).1
  · exact fun i hi => (linked_iff.1 hi).2
  · exact fun i hl hi => linked_iff.2 ⟨hi, hl⟩

namespace Workflow

variable {w : Workflow} {l : Ledger} {s : Session} {y : Workflow × Ledger × Session}

/-- The writes of rejecting: the submission, its log entry, and the invoices that are set free. -/
def rejection (w : Workflow) (x : Submission) (e : LogEntry) (freed : List Invoice) : List Put :=
  .submission { x with status := .rejected, completedBy := some w.agent.userId } :: .logEntry e ::
    freed.map fun i => .invoice { i with hasSubmission := false }

/-- The course of rejecting: the row `x` that the session saw was rejected, and `e` was written to the
log. Then the invoices `freed` of the submission were looked up, and they lost their flags. The row is
written before anything is read, so the view may be old. -/
structure Freed (w : Workflow) (l : Ledger) (s : Session) (y : Workflow × Ledger × Session)
    (c x : Submission) (e : LogEntry) (freed : List Invoice) : Prop where
  copy : w.data = some c
  submitted : c.status = .submitted
  seen : s.view.submissions.get? c.id = some x
  finds : Root.invoice.inOrder ((Query.invoicesOf c.id false).select
    ((l.tables.apply s.changes).putAll (w.rejection x e []))) = freed
  agent : y.1.agent = w.agent
  data : y.1.data = some { c with status := .rejected, completedBy := some w.agent.userId }
  entry : e = ⟨e.id, c.id, .rejected, w.agent.kind, w.agent.userId, e.createdAt⟩
  entry_new : (l.lastId : Ident) < e.id
  session : y.2.2 = ((s.writeAll (w.rejection x e [])).refresh l).writeAll
    (freed.map fun i => .invoice { i with hasSubmission := false })

namespace Freed

variable {c x : Submission} {e : LogEntry} {freed : List Invoice}

theorem found_perm (h : Freed w l s y c x e freed) : freed.Perm ((Query.invoicesOf c.id false).select
    ((l.tables.apply s.changes).putAll (w.rejection x e []))) := by
  rw [← h.finds]
  exact Root.inOrder_perm .invoice _

theorem there (h : Freed w l s y c x e freed) (hl : l.Hosts s) {i : Invoice} (hi : i ∈ freed) :
    (l.tables.apply s.changes).invoices.get? i.id = some i :=
  Query.there_of_found (hl.shown_keyed.putAll _) h.found_perm hi

theorem changes (h : Freed w l s y c x e freed) :
    y.2.2.changes = s.changes.putAll (w.rejection x e freed) := by
  rw [h.session, Session.writeAll_changes, Session.refresh_changes, Session.writeAll_changes,
    ← Changes.putAll_append]
  rfl

end Freed

/-- **The course of rejecting**, unless it ends before anything is done. That can only be if the
submission has ended already or the session does not see it. -/
theorem reject_goes {r : Except Failure Nat} (hl : l.Hosts s) (h : reject.Ends (w, l, s) r y) :
    ((∃ e, r = .error e) ∧ y = (w, l, s) ∧ ∀ c, w.data = some c → c.status.isTerminal = false →
        s.view.submissions.get? c.id = none) ∨
      ∃ c x e freed, r = .ok freed.length ∧ Freed w l s y c x e freed := by
  unfold reject at h
  rcases h.bind with ⟨e, rfl, hupdate⟩ | ⟨⟨⟩, ⟨w₁, l₁, s₁⟩, hupdate, h⟩
  · rcases updateStatus_ends hl hupdate with ⟨-, hy, hunseen⟩ | ⟨-, -, -, -, -, -, he, -⟩
    · exact .inl ⟨⟨e, rfl⟩, hy, hunseen⟩
    · cases he
  obtain ⟨hgrants₁, -, hl₁⟩ := hupdate.leads hl
  rcases updateStatus_ends hl hupdate with
    ⟨⟨e, he⟩, -⟩ | ⟨c, x, e, hc, hopen, hx, -, hdata, hagent, hs₁, hnew, hentry⟩
  · cases he
  dsimp only at hgrants₁ hl₁ hdata hagent hs₁
  rcases loaded_bind h with ⟨hnone, -⟩ | ⟨c', hc', h⟩
  · rw [hdata] at hnone
    cases hnone
  cases hdata.symm.trans hc'
  obtain ⟨l₂, -, -, hl₂, ⟨-, -, hlocked, -⟩ | ⟨-, h⟩⟩ := h.find_bind hl₁
  · rw [Query.locked_invoicesOf] at hlocked
    cases hlocked
  -- the invoices are looked up when the submission is rejected already
  have tables_eq : l₁.tables.apply s₁.changes =
      (l.tables.apply s.changes).putAll (w.rejection x e []) := by
    rw [hs₁]
    exact Session.apply_writeAll hgrants₁ (by simp)
  have hfound := Root.inOrder_perm .invoice
    ((Query.invoicesOf c.id false).select (l₁.tables.apply s₁.changes))
  generalize hrows : Root.invoice.inOrder
    ((Query.invoicesOf c.id false).select (l₁.tables.apply s₁.changes)) = freed at h hfound
  rw [tables_eq] at hfound hrows
  -- each of them is seen then, so that each of them changes and counts
  have freed_seen : ∀ i ∈ freed, (s₁.refresh l₁).view.invoices.get? i.id = some i := by
    intro i hi
    rw [Session.refresh_view, tables_eq]
    exact Query.there_of_found (hl.shown_keyed.putAll _) hfound hi
  have writes_eq : (s₁.refresh l₁).writes l₂ (.setHasSubmission (freed.map (·.id)) false) =
      freed.map fun i => .invoice { i with hasSubmission := false } :=
    Session.revisions_eq fun i hi => ⟨freed_seen i hi, rfl⟩
  have answer_eq : ((s₁.refresh l₁).answer l₂ (.setHasSubmission (freed.map (·.id)) false)).1 =
      .ok freed.length := by
    have count := Session.updateInvoices_count (g := fun i => { i with hasSubmission := false })
      (fun _ => rfl) (freed.map (·.id)) (s₁.refresh l₁) hl₂.fits.view_keyed.invoices
    refine congrArg Except.ok (count.trans ?_)
    rw [← freed.length_map Invoice.id, List.countP_eq_length]
    intro id hid
    obtain ⟨i, hi, rfl⟩ := List.mem_map.1 hid
    rw [freed_seen i hi]
    rfl
  obtain ⟨hr, hw, hs⟩ := h.write hl₂ rfl writes_eq
  exact .inr ⟨c, x, e, freed, hr.trans answer_eq, {
    copy := hc
    submitted := Submission.Status.eq_submitted hopen
    seen := hx
    finds := hrows
    agent := by rw [hw, hagent]
    data := by rw [hw, hdata]
    entry := hentry
    entry_new := hnew
    session := by
      rw [hs, Session.refresh_of_grants hgrants₁, hs₁]
      rfl }⟩

/-- What rejecting has done: on the copy `c`, with the row `x` that the session saw, and with the
writes `qs`. The row is written before anything is read, so the view may be old. -/
structure Rejected (strict : Prop) (w : Workflow) (l : Ledger) (s : Session)
    (y : Workflow × Ledger × Session) (c x : Submission) (qs : List Put) : Prop where
  copy : w.data = some c
  submitted : c.status = .submitted
  seen : s.view.submissions.get? c.id = some x
  agent : y.1.agent = w.agent
  data : y.1.data = some { c with status := .rejected, completedBy := some w.agent.userId }
  changes : y.2.2.changes = s.changes.putAll qs
  noted : y.2.2.base ⟨.submission, x.id⟩ = s.base ⟨.submission, x.id⟩
  heads : Put.Heads { x with status := .rejected, completedBy := some w.agent.userId } qs
  frees : ∀ i, Put.invoice i ∈ qs → ∃ j,
    (l.tables.apply s.changes).invoices.get? i.id = some j ∧ i = { j with hasSubmission := false }
  moves : Built strict (l.tables.apply s.changes) → x = c →
    (l.tables.apply s.changes).submissions.get? c.id = some c →
    Moves strict (l.tables.apply s.changes) qs

/-- **Rejecting** either writes nothing, or does all that it should. -/
theorem reject_ends (strict : Prop) {r : Except Failure Nat} (hl : l.Hosts s)
    (h : reject.Ends (w, l, s) r y) :
    ((∃ e, r = .error e) ∧ Service.Untouched w l s y) ∨
      (∃ a, r = .ok a) ∧ ∃ c x qs, Rejected strict w l s y c x qs := by
  rcases reject_goes hl h with ⟨herror, rfl, -⟩ | ⟨c, x, e, freed, hr, hgoes⟩
  · exact .inl ⟨herror, .refl ..⟩
  refine .inr ⟨⟨_, hr⟩, c, x, _, {
    copy := hgoes.copy
    submitted := hgoes.submitted
    seen := hgoes.seen
    agent := hgoes.agent
    data := hgoes.data
    changes := hgoes.changes
    noted := ?_
    heads := ⟨_, by simp, by simp, rfl⟩
    frees := ?_
    moves := ?_ }⟩
  · rw [hgoes.session]
    refine if_pos ?_
    exact Changes.mem_written_putAll.2 (.inl ⟨_, List.mem_cons_self, rfl⟩)
  · intro i hi
    obtain ⟨j, hj, rfl⟩ : ∃ j ∈ freed, i = { j with hasSubmission := false } := by
      simpa [rejection, eq_comm] using hi
    exact ⟨j, hgoes.there hl hj, rfl⟩
  · rintro hbuilt rfl hthere
    exact (Move.of_freed e hbuilt hthere hgoes.submitted hgoes.found_perm).moves

end Workflow

end TeamLedger
