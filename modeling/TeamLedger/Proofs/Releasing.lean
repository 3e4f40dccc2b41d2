/-
Rejecting a submission, from end to end.

Rejecting sets free all that is linked to a submission. It asks for no locks, it
looks at no states, and the failed attempts to accept the submission before do
not matter: a call that fails leaves the workflow as it was, and what the session
has written (`Workflow.Act.untouched`). So as long as a workflow holds a submission
under way as it is stored (`World.Holding`), the submission can be rejected, with
the same effect on all tables (`Tables.Releases`).

The session need not see the submission as it is stored. The row it sees may be an
old one, but differs only in the status and in who completed the submission, and
both are written.
-/
import TeamLedger.Proofs.Clearing
import TeamLedger.Proofs.Marks
import TeamLedger.Proofs.Refusals

set_option autoImplicit false

namespace TeamLedger

/-! ## What rejecting does -/

/-- The invoice without its mark if it is linked to a submission. -/
def Tables.released (t : Tables) (submission : Ident) (i : Invoice) : Invoice :=
  if ⟨i.id, submission⟩ ∈ t.links then { i with hasSubmission := false } else i

/-- **What rejecting does to the tables**, for an agent on the submission `x`. -/
structure Tables.Releases (t t' : Tables) (agent : Agent) (x : Submission) : Prop where
  /-- The row of the submission is rejected. -/
  submission : t'.submissions.get? x.id =
    some { x with status := .rejected, completedBy := some agent.userId }
  submissions : ∀ id, id ≠ x.id → t'.submissions.get? id = t.submissions.get? id
  /-- One log entry is new. -/
  logs : ∃ e : LogEntry, e = ⟨e.id, x.id, .rejected, agent.kind, agent.userId, e.createdAt⟩ ∧
    t.logs.get? e.id = none ∧ ∀ id, t'.logs.get? id = if id = e.id then some e else t.logs.get? id
  /-- What is linked is free, whatever its status. -/
  invoices : t'.invoices = t.invoices.map (t.released x.id)
  /-- Nothing else changes, the links neither. -/
  links : t'.links = t.links
  histories : t'.histories = t.histories
  teams : t'.teams = t.teams
  limits : t'.limits = t.limits

namespace Tables

variable {t : Tables}

theorem released_of_mem {submission : Ident} {i : Invoice} (h : ⟨i.id, submission⟩ ∈ t.links) :
    t.released submission i = { i with hasSubmission := false } := if_pos h

theorem released_of_not_mem {submission : Ident} {i : Invoice} (h : ⟨i.id, submission⟩ ∉ t.links) :
    t.released submission i = i := if_neg h

theorem id_released (t : Tables) (submission : Ident) (i : Invoice) :
    (t.released submission i).id = i.id := by
  unfold released
  split <;> rfl

/-- Writing the invoices of a submission without their marks sets them free. -/
theorem putAll_released (ht : t.invoices.KeyedBy Invoice.id) (submission : Ident) :
    (t.putAll (((t.linkedByAge submission).map (t.released submission)).map .invoice)).invoices =
      t.invoices.map (t.released submission) := by
  have distinct : (((t.linkedByAge submission).map (t.released submission)).map (·.id)).Nodup := by
    rw [List.map_map, show (·.id) ∘ t.released submission = Invoice.id from
      funext (t.id_released submission)]
    refine ((Invoice.oldestFirst_perm _).map _).nodup_iff.2 ?_
    exact ht.nodup_map.sublist (List.filter_sublist.map _)
  -- row by row: either side has a row under an id just when the other one has the same
  refine Rows.ext_get? fun id => Option.ext fun j => ?_
  rw [get?_putAll_invoices distinct, Rows.get?_map, Option.map_eq_some_iff]
  constructor
  · rintro (⟨hj, rfl⟩ | ⟨hj, hnot⟩)
    · obtain ⟨i, hi, rfl⟩ := List.mem_map.1 hj
      rw [id_released]
      exact ⟨i, ht.mem_values_iff.1 (mem_linkedByAge.1 hi).1, rfl⟩
    · -- what is not written is not linked
      refine ⟨j, hj, released_of_not_mem fun hlink => ?_⟩
      have hmem : j ∈ t.linkedByAge submission :=
        mem_linkedByAge.2 ⟨Rows.mem_values.2 ⟨id, hj⟩, hlink⟩
      exact hnot _ (List.mem_map_of_mem hmem) ((t.id_released submission j).trans (ht id j hj))
  · rintro ⟨i, hi, rfl⟩
    by_cases hlink : ⟨i.id, submission⟩ ∈ t.links
    · refine .inl ⟨List.mem_map_of_mem (mem_linkedByAge.2 ⟨Rows.mem_values.2 ⟨id, hi⟩, hlink⟩), ?_⟩
      exact (t.id_released submission i).trans (ht id i hi)
    · refine .inr ⟨by rw [released_of_not_mem hlink, hi], fun j hj hid => hlink ?_⟩
      obtain ⟨k, hk, rfl⟩ := List.mem_map.1 hj
      rw [ht id i hi, ← hid, id_released]
      exact (mem_linkedByAge.1 hk).2

end Tables

namespace Workflow.Freed

variable {w : Workflow} {l : Ledger} {s : Session} {y : Workflow × Ledger × Session}
  {c x : Submission} {e : LogEntry} {freed : List Invoice}

/-- What the session's commit would leave then. -/
theorem tables_eq (h : Freed w l s y c x e freed) (hgrants : l.Grants s.id y.2.1) :
    y.2.1.tables.apply y.2.2.changes =
      (l.tables.apply s.changes).putAll (w.rejection x e freed) := by
  rw [hgrants.tables, h.changes]
  exact Tables.apply_putAll _ _ (by simp [rejection])

/-- The invoices that are set free are all that are linked. -/
theorem freed_eq (h : Freed w l s y c x e freed) (hl : l.Hosts s) (hsame : c.Same x)
    (hid : c.id ≠ 0) : freed = (l.tables.apply s.changes).linkedByAge c.id := by
  rw [← h.finds]
  refine Tables.inOrder_invoicesOf
    (hl.shown_keyed.putAll _).submissions hid ?_ false
  show (((l.tables.apply s.changes).submissions.insert x.id _).get? c.id).isSome
  rw [hsame.id, Rows.get?_insert, if_pos rfl]
  rfl

/-- **The tables afterwards**, if the session has seen the submission but for how far it has come. -/
theorem releases (h : Freed w l s y c x e freed) (hl : l.Hosts s) (hsame : c.Same x)
    (hid : c.id ≠ 0) (hgrants : l.Grants s.id y.2.1) :
    (l.tables.apply s.changes).Releases (y.2.1.tables.apply y.2.2.changes) w.agent c := by
  have hkeyed : (l.tables.apply s.changes).Keyed := hl.shown_keyed
  -- the entry comes under an id that has just been handed out
  have hentry : (l.tables.apply s.changes).logs.get? e.id = none :=
    Option.not_isSome_iff_eq_none.1 fun hused =>
      Int.not_le.2 h.entry_new (hl.uses_le (.inr (.inr (.inl hused))))
  have hfreed := h.freed_eq hl hsame hid
  have htables := h.tables_eq hgrants
  have hlog := h.entry
  generalize l.tables.apply s.changes = t at *
  -- what is written of an invoice is what the rule makes of it
  have writes_eq : freed.map (fun i => Put.invoice { i with hasSubmission := false }) =
      ((t.linkedByAge c.id).map (t.released c.id)).map .invoice := by
    rw [hfreed, List.map_map]
    refine List.map_congr_left fun i hi => ?_
    rw [Function.comp_apply, Tables.released_of_mem (Tables.mem_linkedByAge.1 hi).2]
  have invoices_eq := ((t.put (.submission
    { c with status := .rejected, completedBy := some w.agent.userId })).put
      (.logEntry e)).putAll_released hkeyed.invoices c.id
  rw [rejection, hsame.ended_eq, writes_eq, Tables.putAll_cons, Tables.putAll_cons, Tables.putAll_invoices_eq] at htables
  rw [htables]
  exact {
    submission := by
      show (t.submissions.insert c.id _).get? c.id = _
      rw [Rows.get?_insert, if_pos rfl]
    submissions := fun id hne => by
      show (t.submissions.insert c.id _).get? id = _
      rw [Rows.get?_insert, if_neg hne]
    logs := ⟨e, hlog, hentry, fun id => Rows.get?_insert ..⟩
    invoices := invoices_eq
    links := rfl
    histories := rfl
    teams := rfl
    limits := rfl }

end Workflow.Freed

/-! ## Workflows that hold a submission -/

/-- A session is open under the name, and if it reads now it sees the tables. -/
def World.Shows (w : World) (name : String) (t : Tables) : Prop :=
  ∃ s, w.open? name = some s ∧ w.ledger.tables.apply s.changes = t

/-- A workflow holds a submission under way, as it is stored. The session has read since it was
stored, and may see an old row of it. -/
structure World.Holding (w : World) (name : String) (t : Tables) (wf : Workflow) (x : Submission) :
    Prop where
  reached : w.Reached
  shows : w.Shows name t
  copy : wf.data = some x
  submitted : x.status = .submitted
  stored : t.submissions.get? x.id = some x
  seen : ∀ s, w.open? name = some s → (s.view.submissions.get? x.id).isSome

namespace World.Holding

variable {w : World} {name : String} {t : Tables} {wf : Workflow} {x : Submission}

/-- A workflow that has created a submission holds it. -/
theorem of_create {w' : World} {wf' : Workflow} {query : Query .invoice} {receipt : String}
    {amount : Money} (hw : w.Reached)
    (hrun : w.run name none (Workflow.create query receipt amount wf) = some ((.ok x, wf'), w'))
    (ht : w'.Shows name t) : w'.Holding name t wf' x := by
  obtain ⟨s, s', hs, hs', -, hends, -⟩ := hw.sound.served hrun
  have hl := hw.sound.hosts hs
  obtain ⟨hgrants, -, -⟩ := hends.leads hl
  obtain ⟨active, taken, e, -, hbatched⟩ := Workflow.batched_of_create hl hends
  have stored : ((w.ledger.tables.apply s.changes).putAll (x.batch taken e)).submissions.get? x.id =
      some x := by
    rw [Submission.heads_batch.get?_putAll, if_pos rfl]
  have session_eq : s' = (s.refresh w.ledger).writeAll (x.batch taken e) := hbatched.session
  obtain ⟨s'', hs'', rfl⟩ := ht
  cases hs'.symm.trans hs''
  refine ⟨hw.run hrun, ⟨s', hs', rfl⟩, hbatched.data, hbatched.submitted, ?_, fun s'' hs'' => ?_⟩
  · rw [show w'.ledger.tables.apply s'.changes = _ from hbatched.tables_eq hgrants]
    exact stored
  · cases hs'.symm.trans hs''
    rw [session_eq, Session.view_writeAll _ (by simp [Submission.batch])]
    exact Option.isSome_of_eq_some stored

/-- **The submission can be rejected.** All invoices that are linked to it are set free, and they are
counted. The workflow's copy is rejected, nothing is committed, and the other sessions are as before. -/
theorem rejects (h : w.Holding name t wf x) : ∃ wf' w' t',
    w.run name none (Workflow.reject wf) = some ((.ok (t.linkedByAge x.id).length, wf'), w') ∧
      w'.Shows name t' ∧ t.Releases t' wf.agent x ∧
      wf'.data = some { x with status := .rejected, completedBy := some wf.agent.userId } ∧
      w'.ledger.tables = w.ledger.tables ∧
      ∀ other, other ≠ name → w'.open? other = w.open? other := by
  obtain ⟨s, hs, rfl⟩ := h.shows
  have hl := h.reached.sound.hosts hs
  have hid : x.id ≠ 0 := h.reached.id_ne_zero hs h.stored
  have hseen := h.seen s hs
  obtain ⟨r, wf', w', s', hrun, hs', hends, htables, hothers⟩ :=
    h.reached.sound.serve hs Workflow.reject wf
  obtain ⟨hgrants, -, -⟩ := hends.leads hl
  rcases Workflow.reject_goes hl hends with ⟨-, -, hunseen⟩ | ⟨c, row, e, freed, rfl, hgoes⟩
  · -- it could fail only if the session did not see the submission
    have hnone := hunseen x h.copy (by rw [h.submitted]; rfl)
    rw [hnone] at hseen
    cases hseen
  · cases h.copy.symm.trans hgoes.copy
    have hsame : x.Same row := h.reached.same_of_view hs h.stored hgoes.seen
    rw [hgoes.freed_eq hl hsame hid] at hrun
    exact ⟨wf', w', _, hrun, ⟨s', hs', rfl⟩, hgoes.releases hl hsame hid hgrants, hgoes.data, htables,
      hothers⟩

end World.Holding

/-- A workflow tries to accept its submission, and fails. -/
def World.FailsToAccept (name : String) (a b : Workflow × World) : Prop :=
  ∃ e, a.2.run name none (Workflow.accept a.1) = some ((.error e, b.1), b.2)

namespace World.Holding

variable {name : String} {t : Tables} {x : Submission} {a b : Workflow × World}

/-- **A failed attempt** makes no difference. -/
theorem failed (h : a.2.Holding name t a.1 x) (hfails : FailsToAccept name a b) :
    b.2.Holding name t b.1 x ∧ b.1 = a.1 ∧ b.2.ledger.tables = a.2.ledger.tables ∧
      ∀ other, other ≠ name → b.2.open? other = a.2.open? other := by
  obtain ⟨wf, w⟩ := a
  obtain ⟨wf', w'⟩ := b
  obtain ⟨e, hrun⟩ := hfails
  obtain ⟨s, hs, rfl⟩ := h.shows
  obtain ⟨s₀, s', hs₀, hs', -, hends, htables, hothers⟩ := h.reached.sound.served hrun
  cases hs.symm.trans hs₀
  have huntouched := Workflow.Act.untouched (a := .accept) (h.reached.sound.hosts hs) hends
  obtain rfl : wf' = wf := huntouched.state
  have changes_eq : s'.changes = s.changes := huntouched.changes
  refine ⟨{
    reached := h.reached.run hrun
    shows := ⟨s', hs', by rw [htables, changes_eq]⟩
    copy := h.copy
    submitted := h.submitted
    stored := h.stored
    seen := fun s'' hs'' => ?_ }, rfl, htables, hothers⟩
  cases hs'.symm.trans hs''
  rcases huntouched.session with hsame | hread
  · rw [show s' = s from hsame]
    exact h.seen s hs
  · -- the attempt has read, and so sees what is stored
    rw [show s' = s.refresh w.ledger from hread]
    exact Option.isSome_of_eq_some h.stored

/-- Nor do any number of them. -/
theorem failedAll (h : a.2.Holding name t a.1 x)
    (hfails : Relation.ReflTransGen (FailsToAccept name) a b) :
    b.2.Holding name t b.1 x ∧ b.1 = a.1 ∧ b.2.ledger.tables = a.2.ledger.tables ∧
      ∀ other, other ≠ name → b.2.open? other = a.2.open? other := by
  -- on the number of attempts; the last one starts from where the others have left off
  induction hfails with
  | refl => exact ⟨h, rfl, rfl, fun _ _ => rfl⟩
  | tail _ hstep ih =>
    obtain ⟨hb, hstate, htables, hothers⟩ := ih
    obtain ⟨hc, hstate', htables', hothers'⟩ := hb.failed hstep
    exact ⟨hc, hstate'.trans hstate, htables'.trans htables,
      fun other hne => (hothers' other hne).trans (hothers other hne)⟩

end World.Holding

end TeamLedger
