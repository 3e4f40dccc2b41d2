/-
What creating a submission writes.

Creating asks for invoices, and then for those of them that are part of a
submission under way. Both are read as the session's commit would leave them, so
what is chosen is a function of these tables alone (`Tables.chosen`). Whatever
fails does so before the first write; after that nothing is left that could fail,
and what has been written are the rows of one move.
-/
import TeamLedger.Proofs.Workflows

set_option autoImplicit false

namespace TeamLedger

/-! ## What creating selects -/

namespace Tables

variable (t : Tables)

/-- Those of the invoices that are part of a batch under way, as the tables are. -/
def activeAmong (is : List Invoice) : List Ident :=
  if is.isEmpty then []
  else (Root.invoice.inOrder ((Query.activeInvoices (is.map (·.id))).select t)).map (·.id)

/-- **What creating selects**: the amount of the submission, and its invoices. -/
def chosen (query : Query .invoice) (amount : Money) : Except Failure (Money × List Ident) :=
  if amount.isNegative then .error (.refused (.validation (.negativePayment amount)))
  else
    let found := Root.invoice.inOrder (query.select t)
    match Workflow.targetOf found amount with
    | .error operation => .error (.overflow operation)
    | .ok target =>
      (Selection.select found (t.activeAmong found) target).map fun selected => (target, selected)

variable {t}

theorem mem_activeAmong (ht : t.Keyed) {is : List Invoice}
    (his : ∀ i ∈ is, t.invoices.get? i.id = some i) {id : Ident} :
    id ∈ t.activeAmong is ↔ id ∈ is.map (·.id) ∧ t.Active id := by
  unfold activeAmong
  cases is with
  | nil => simp
  | cons i is =>
    rw [if_neg (by simp), List.mem_map]
    have found_iff {j : Invoice} := (Root.inOrder_perm .invoice
      ((Query.activeInvoices ((i :: is).map (·.id))).select t)).mem_iff.trans
        (Query.mem_select_activeInvoices (i := j) (List.cons_ne_nil _ _))
    constructor
    · rintro ⟨j, hj, rfl⟩
      obtain ⟨-, hid, ⟨iid, xid⟩, hlink, rfl, x, hx, hstatus⟩ := found_iff.1 hj
      obtain rfl : x.id = xid := ht.submissions _ _ hx
      exact ⟨hid, x, hlink, hx, hstatus⟩
    · rintro ⟨hid, x, hlink, hx, hstatus⟩
      obtain ⟨j, hj, rfl⟩ := List.mem_map.1 hid
      exact ⟨j, found_iff.2 ⟨ht.invoices.mem_values_iff.2 (his j hj), hid, ⟨j.id, x.id⟩, hlink, rfl,
        x, hx, hstatus⟩, rfl⟩

end Tables

/-! ## The course of creating -/

/-- Creating a submission of some of the invoices that were found. -/
theorem Move.of_selected {strict : Prop} {t : Tables} {q : Query .invoice}
    {found taken : List Invoice} {x : Submission} {active : List Ident} {sum : Money} (e : LogEntry)
    (ht : t.Keyed) (hfound : found.Perm (q.select t)) (hsub : taken.Sublist found) (hne : taken ≠ [])
    (hfine : ∀ i ∈ taken, i.status = .notPaid ∧ i.id ∉ active)
    (hactive : ∀ i ∈ found, t.Active i.id → i.id ∈ active) (hid : x.id ≠ 0)
    (hnew : t.submissions.get? x.id = none) (hstatus : x.status = .submitted)
    (hsum : Money.total (taken.map (·.amount)) = .ok sum) (hunits : sum.units = x.amount.units)
    (hexact : strict → Invoice.SumsExactly (q.select t)) :
    Move strict t (.submission x :: (taken.map (fun i => .invoice { i with hasSubmission := true }) ++
      (taken.map (fun i => .link ⟨i.id, x.id⟩) ++ [.logEntry e]))) := by
  refine .batch x taken e hid hnew hstatus (Query.distinct_of_found ht hfound hsub) ?_ ?_ ?_ hne ?_
  · exact fun i hi => Query.there_of_found ht hfound (hsub.subset hi)
  · exact fun i hi => (hfine i hi).1
  · exact fun i hi hway => (hfine i hi).2 (hactive i (hsub.subset hi) hway)
  · intro hs
    rw [← hunits]
    exact ((hexact hs).units_of_found ht hfound hsub hsum).symm

namespace Workflow

variable {w : Workflow} {l : Ledger} {s : Session} {y : Workflow × Ledger × Session}

/-- Looking for invoices that are part of a submission under way answers which of them are, as the tables
are now, and writes nothing. -/
theorem activeAmong_ends {is : List Invoice} {r : Except Failure (List Ident)} (hl : l.Hosts s)
    (h : (activeAmong is).Ends (w, l, s) r y) :
    r = .ok ((l.tables.apply s.changes).activeAmong is) ∧ Service.Untouched w l s y := by
  unfold activeAmong at h
  unfold Tables.activeAmong
  split at h
  next hempty =>
    obtain ⟨rfl, rfl⟩ := h.pure
    rw [if_pos hempty]
    exact ⟨rfl, .refl ..⟩
  next hempty =>
    have hne : is.map (·.id) ≠ [] := by
      simpa using hempty
    rw [if_neg hempty]
    obtain ⟨l', hledger, -, -, ⟨-, -, hlocked, -⟩ | ⟨-, h⟩⟩ := h.find_bind hl
    · rw [Query.activeInvoices_eq hne] at hlocked
      cases hlocked
    · obtain ⟨rfl, rfl⟩ := h.pure
      exact ⟨rfl, rfl, .inr rfl, hledger⟩

/-- What creating has done: it stored the submission `x`, with the writes `qs`. -/
structure Created (strict : Prop) (w : Workflow) (l : Ledger) (s : Session)
    (y : Workflow × Ledger × Session) (query : Query .invoice) (x : Submission) (qs : List Put) :
    Prop where
  new : (l.tables.apply s.changes).submissions.get? x.id = none
  submitted : x.status = .submitted
  agent : y.1.agent = w.agent
  data : y.1.data = some x
  session : y.2.2 = (s.refresh l).writeAll qs
  heads : Put.Heads x qs
  takes : ∀ i, Put.invoice i ∈ qs → ∃ j, (l.tables.apply s.changes).invoices.get? i.id = some j ∧
    j.status = .notPaid ∧ i = { j with hasSubmission := true }
  move : (strict → Invoice.SumsExactly (query.select (l.tables.apply s.changes))) →
    Move strict (l.tables.apply s.changes) qs

theorem Created.changes {strict : Prop} {query : Query .invoice} {x : Submission} {qs : List Put}
    (h : Created strict w l s y query x qs) : y.2.2.changes = s.changes.putAll qs := by
  rw [h.session, Session.writeAll_changes, Session.refresh_changes]

/-- The course of creating: of the invoices that were found some were selected, the submission `x` of
them was stored, they were marked and linked, and `e` was written to the log. -/
structure Batched (w : Workflow) (l : Ledger) (s : Session) (y : Workflow × Ledger × Session)
    (query : Query .invoice) (x : Submission) (active : List Ident) (taken : List Invoice)
    (e : LogEntry) : Prop where
  selected : Selection.select (Root.invoice.inOrder (query.select (l.tables.apply s.changes))) active
    x.amount = .ok (taken.map (·.id))
  listed : taken.Sublist (Root.invoice.inOrder (query.select (l.tables.apply s.changes)))
  nonempty : taken ≠ []
  free : ∀ i ∈ taken, i.status = .notPaid ∧ i.id ∉ active
  total : ∃ sum, Money.total (taken.map (·.amount)) = .ok sum ∧ sum.units = x.amount.units
  passed : ∀ i ∈ Root.invoice.inOrder (query.select (l.tables.apply s.changes)),
    (l.tables.apply s.changes).Active i.id → i.id ∈ active
  new : (l.tables.apply s.changes).submissions.get? x.id = none
  numbered : x.id ≠ 0
  submitted : x.status = .submitted
  agent : y.1.agent = w.agent
  data : y.1.data = some x
  session : y.2.2 = (s.refresh l).writeAll (.submission x ::
    (taken.map (fun i => .invoice { i with hasSubmission := true }) ++
      (taken.map (fun i => .link ⟨i.id, x.id⟩) ++ [.logEntry e])))

/-- **The course of creating.** It ends before anything is written if the rows that it asks for are locked
or nothing can be chosen from the tables; otherwise the submission is that of what was chosen. -/
theorem create_goes {query : Query .invoice} {receipt : String} {amount : Money}
    {r : Except Failure Submission} (hl : l.Hosts s)
    (h : (create query receipt amount).Ends (w, l, s) r y) :
    (∃ e, r = .error e ∧ Service.Untouched w l s y ∧
        (query.Blocked l s ∨ (l.tables.apply s.changes).chosen query amount = .error e)) ∨
      ∃ x active taken e, r = .ok x ∧
        (l.tables.apply s.changes).chosen query amount = .ok (x.amount, taken.map (·.id)) ∧
        Batched w l s y query x active taken e := by
  unfold create at h
  unfold Tables.chosen
  rcases h.unless with ⟨hr, rfl, hneg⟩ | ⟨hneg, h⟩
  · rw [if_pos hneg]
    exact .inl ⟨_, hr, .refl .., .inr rfl⟩
  rw [if_neg hneg]
  obtain ⟨l₁, hledger₁, hgrants₁, hl₁, ⟨⟨e, rfl⟩, rfl, hblocked⟩ | ⟨-, h⟩⟩ := h.find_bind hl
  · exact .inl ⟨e, rfl, ⟨rfl, .inr rfl, hledger₁⟩, .inl hblocked⟩
  have read : Service.Untouched w l s (w, l₁, s.refresh l) := ⟨rfl, .inr rfl, hledger₁⟩
  have hfound := Root.inOrder_perm .invoice (query.select (l.tables.apply s.changes))
  dsimp only
  generalize hrows : Root.invoice.inOrder (query.select (l.tables.apply s.changes)) = found
    at h hfound ⊢
  have hkeyed : (l.tables.apply s.changes).Keyed := hl.shown_keyed
  have tables_eq : l₁.tables.apply (s.refresh l).changes = l.tables.apply s.changes := by
    rw [hgrants₁.tables]
    rfl
  have found_there : ∀ i ∈ found, (l.tables.apply s.changes).invoices.get? i.id = some i :=
    fun i hi => Query.there_of_found hkeyed hfound hi
  rcases h.ofMoney_bind with ⟨operation, htarget, rfl, rfl⟩ | ⟨target, htarget, h⟩
  · rw [htarget]
    exact .inl ⟨_, rfl, read, .inr rfl⟩
  rw [htarget]
  dsimp only
  rcases h.bind with ⟨e, rfl, hactive⟩ | ⟨active, ⟨w₂, l₂, s₂⟩, hactive, hrest⟩
  · cases (activeAmong_ends hl₁ hactive).1
  -- what is active is looked up as of now, and nothing has changed since the invoices were found
  obtain ⟨hgrants₂, -, hl₂⟩ := hactive.leads hl₁
  obtain ⟨ha, huntouched⟩ := activeAmong_ends hl₁ hactive
  rw [tables_eq] at ha
  obtain rfl : active = (l.tables.apply s.changes).activeAmong found := Except.ok.inj ha
  have looked : Service.Untouched w l s (w₂, l₂, s₂) := huntouched.of_read hgrants₁ hledger₁
  obtain rfl : w = w₂ := looked.state.symm
  obtain rfl : s.refresh l = s₂ := (huntouched.session_eq hgrants₁).symm
  clear h hactive huntouched
  rcases ofSelection_bind hrest with ⟨e, hselected, rfl, rfl⟩ | ⟨selected, hselected, h⟩
  · rw [hselected]
    exact .inl ⟨e, rfl, looked, .inr rfl⟩
  -- from here on nothing fails
  obtain ⟨taken, hsub, rfl, hne, hfine, sum, hsum, hunits⟩ := Selection.select_eq_ok hselected
  obtain ⟨now, h⟩ := h.now_bind
  generalize hx : (NewSubmission.withId
    { createdBy := w.agent.userId, amount := target, receipt, createdAt := now } l₂.newId.1) = x
  have hid : x.id = l₂.newId.1 := by rw [← hx]; rfl
  have hamount : x.amount = target := by rw [← hx]; rfl
  have flagged_eq {l' : Ledger} : ((s.refresh l).writeAll [.submission x]).writes l'
      (.setHasSubmission (taken.map (·.id)) true) =
      taken.map fun i => .invoice { i with hasSubmission := true } := by
    refine Session.revisions_eq fun i hi => ⟨?_, rfl⟩
    rw [Session.view_writeAll _ (by simp)]
    exact found_there i (hsub.subset hi)
  obtain ⟨l₃, hgrants₃, hl₃, h⟩ := h.get_bind.write_bind hl₂ rfl (a := x) (congrArg _ hx)
    (congrArg (fun x => [Put.submission x]) hx)
  obtain ⟨l₄, hgrants₄, hl₄, h⟩ := h.write_bind hl₃ rfl rfl flagged_eq
  obtain ⟨l₅, hgrants₅, hl₅, h⟩ := h.write_bind hl₄ rfl rfl rfl
  replace h := Service.modify_bind h
  rcases h.bind with ⟨e, rfl, hlog⟩ | ⟨⟨⟩, z, hlog, hpure⟩
  · obtain ⟨e', he, -⟩ := log_ends hl₅ rfl hlog
    cases he
  obtain ⟨e, -, hdata, hagent, hs, -⟩ := log_ends hl₅ rfl hlog
  obtain ⟨rfl, rfl⟩ := hpure.pure
  have tables_eq₂ : l₂.tables.apply (s.refresh l).changes = l.tables.apply s.changes := by
    rw [hgrants₂.tables]
    exact tables_eq
  refine .inr ⟨x, _, taken, e, rfl, by rw [hselected, hamount]; rfl, {
      selected := by rw [hrows, hamount, hselected]
      listed := by rw [hrows]; exact hsub
      nonempty := hne
      free := hfine
      total := ⟨sum, hsum, by rw [hunits, hamount]⟩
      passed := by
        rw [hrows]
        exact fun i hi hway =>
          (Tables.mem_activeAmong hkeyed found_there).2 ⟨List.mem_map_of_mem hi, hway⟩
      new := ?_
      numbered := ?_
      submitted := by rw [← hx]; rfl
      agent := hagent
      data := hdata
      session := ?_ }⟩
  · rw [hid, ← tables_eq₂]
    exact Option.not_isSome_iff_eq_none.1 fun hused => hl₂.newId_unused (.inr (.inl hused))
  · rw [hid]
    exact Int.ne_of_gt (Int.ofNat_lt.2 (Nat.succ_pos _))
  · rw [hs, Session.writeAll_writeAll, Session.writeAll_writeAll, Session.writeAll_writeAll]
    simp only [Session.writes, List.map_map]
    rfl

/-- What has been created was chosen from the tables, and is a batch. -/
theorem batched_of_create {query : Query .invoice} {receipt : String} {amount : Money}
    {x : Submission} (hl : l.Hosts s)
    (h : (create query receipt amount).Ends (w, l, s) (.ok x) y) : ∃ active taken e,
      (l.tables.apply s.changes).chosen query amount = .ok (x.amount, taken.map (·.id)) ∧
        Batched w l s y query x active taken e := by
  rcases create_goes hl h with ⟨e, he, -⟩ | ⟨x', active, taken, e, hx, hchosen, hbatched⟩
  · cases he
  · cases hx
    exact ⟨active, taken, e, hchosen, hbatched⟩

/-- **Creating** either writes nothing, or does all that it should. -/
theorem create_ends (strict : Prop) {query : Query .invoice} {receipt : String} {amount : Money}
    {r : Except Failure Submission} (hl : l.Hosts s)
    (h : (create query receipt amount).Ends (w, l, s) r y) :
    ((∃ e, r = .error e) ∧ Service.Untouched w l s y) ∨
      ∃ x qs, r = .ok x ∧ Created strict w l s y query x qs := by
  rcases create_goes hl h with ⟨e, hr, huntouched, -⟩ | ⟨x, active, taken, e, rfl, -, hgoes⟩
  · exact .inl ⟨⟨e, hr⟩, huntouched⟩
  have hkeyed : (l.tables.apply s.changes).Keyed := hl.shown_keyed
  have hfound := Root.inOrder_perm .invoice (query.select (l.tables.apply s.changes))
  obtain ⟨sum, hsum, hunits⟩ := hgoes.total
  refine .inr ⟨x, _, rfl, {
      new := hgoes.new
      submitted := hgoes.submitted
      agent := hgoes.agent
      data := hgoes.data
      session := hgoes.session
      heads := ⟨_, by simp, by simp, rfl⟩
      takes := fun i hi => ?_
      move := Move.of_selected e hkeyed hfound hgoes.listed hgoes.nonempty hgoes.free hgoes.passed
        hgoes.numbered hgoes.new hgoes.submitted hsum hunits }⟩
  obtain ⟨j, hj, rfl⟩ : ∃ j ∈ taken, i = { j with hasSubmission := true } := by
    simpa [eq_comm] using hi
  exact ⟨j, Query.there_of_found hkeyed hfound (hgoes.listed.subset hj), (hgoes.free j hj).1, rfl⟩

end Workflow

end TeamLedger
