/-
A session's turn at an order: it loads all invoices of the order, readjusts
them, and commits.

If the set was just loaded, and nothing has been committed since, the rows that
the readjustment cancels are there and the teams match. So it cannot fail unless
the paid amounts are out of range. What it writes is settled then except for the
id of the new invoice, which is the next one whenever it is asked for. This is
what the readjustment assures, however its calls lie between those of other
sessions.

With amounts in range a turn can only fail at its first call, over a lock. A
session that is past it (`Inside`) holds the locks of all invoices of the order,
and nothing stands between it and its commit but a commit of someone else.
-/
import TeamLedger.Proofs.Ages
import TeamLedger.Proofs.Assuring
import TeamLedger.Proofs.Pairs

set_option autoImplicit false

namespace TeamLedger.Readjustment

variable {r : Readjustment} {order : Ident} {t : Tables} {s : Session}

/-! ## Exact amounts -/

/-- In whatever order they come, the paid invoices can be taken off the target one by one, with nothing
lost by rounding, and they can be added up. -/
def Exact (r : Readjustment) (paid : List Invoice) : Prop :=
  ∀ is : List Invoice, is.Perm paid →
    (∃ m, (is.map (·.amount)).foldlM Money.sub r.amount = .ok m ∧
      m.units = r.amount.units - Invoice.sumUnits paid) ∧
    ∃ m, Money.total (is.map (·.amount)) = .ok m

theorem Exact.perm {paid paid' : List Invoice} (h : r.Exact paid) (hperm : paid'.Perm paid) :
    r.Exact paid' := by
  intro is his
  rw [Invoice.sumUnits_perm hperm]
  exact h is (his.trans hperm)

/-- Nothing is taken off, and nothing is lost. -/
theorem exact_nil (r : Readjustment) : r.Exact [] := by
  intro is his
  cases List.perm_nil.1 his
  exact ⟨⟨r.amount, rfl, (Int.sub_zero _).symm⟩, .zero, rfl⟩

/-- What remains of the target is not rounded, if the paid invoices can be taken off at all, oldest
first. -/
def Unrounded (r : Readjustment) (paid : List Invoice) : Prop :=
  ∀ m, ((Invoice.oldestFirst paid).map (·.amount)).foldlM Money.sub r.amount = .ok m →
    m.units = r.amount.units - Invoice.sumUnits paid

theorem Exact.unrounded {paid : List Invoice} (h : r.Exact paid) : r.Unrounded paid := by
  intro m hm
  obtain ⟨⟨m', hm', hunits⟩, -⟩ := h _ (Invoice.oldestFirst_perm paid)
  cases hm.symm.trans hm'
  exact hunits

theorem Unrounded.perm {paid paid' : List Invoice} (h : r.Unrounded paid)
    (hids : (paid.map (·.id)).Nodup) (hperm : paid.Perm paid') : r.Unrounded paid' := by
  unfold Unrounded
  rw [← Invoice.oldestFirst_eq_of_perm hids hperm, ← Invoice.sumUnits_perm hperm]
  exact h

/-! ## The walk -/

/-- The amounts can be taken off what remains and be added to what was paid. -/
def Progress.Fits (p : Progress) (amounts : List Money) : Prop :=
  (∃ m, amounts.foldlM Money.sub p.residual = .ok m) ∧ ∃ m, amounts.foldlM Money.add p.paid = .ok m

/-- **The walk** cancels what is open and takes off what is paid. It fails only at a paid amount. -/
theorem walk_assures {Q : Except Failure Progress → WorkingSet → Session → Prop}
    {passed rest : List Invoice} {p : Progress}
    (hteams : ∀ i ∈ rest, i.fromTeam = r.fromTeam ∧ i.toTeam = r.toTeam)
    (hthere : ∀ i ∈ rest, s.view.invoices.get? i.id = some i)
    (hdistinct : (rest.map (·.id)).Nodup)
    (hQ : ∀ p' set, ((rest.filter fun i => i.status = .paid).map (·.amount)).foldlM Money.sub
      p.residual = .ok p'.residual → Q (.ok p') set (s.writeAll ((rows rest []).map .invoice)))
    (herror : ¬ p.Fits ((rest.filter fun i => i.status = .paid).map (·.amount)) →
      ∀ e set s', Q (.error e) set s') :
    (walk r passed rest p).Assures t Q (passed ++ rest) s := by
  induction rest generalizing passed p s with
  | nil => exact hQ p _ rfl
  | cons i rest ih =>
    obtain ⟨hfrom, hto⟩ := hteams i List.mem_cons_self
    have hteams_rest : ∀ j ∈ rest, j.fromTeam = r.fromTeam ∧ j.toTeam = r.toTeam :=
      fun j hj => hteams j (List.mem_cons_of_mem _ hj)
    have hthere_rest : ∀ j ∈ rest, s.view.invoices.get? j.id = some j :=
      fun j hj => hthere j (List.mem_cons_of_mem _ hj)
    obtain ⟨hnew, hdistinct_rest⟩ := List.nodup_cons.1 hdistinct
    have passed_eq (j : Invoice) : passed ++ j :: rest = (passed ++ [j]) ++ rest := by
      rw [List.append_assoc, List.singleton_append]
    -- both statuses that are open lead here
    have step_cancel (hopen : i.Open) : (do
        let _ ← Service.call (.updateInvoiceStatus i.id .cancelled)
        MonadStateOf.set (passed ++ i.cancel :: rest)
        walk r (passed ++ [i.cancel]) rest
          { p with cancelled := p.cancelled ++ [i.id] } : Managing Progress).Assures t Q
        (passed ++ i :: rest) s := by
      refine Service.Assures.write_bind rfl fun l _ _ => ?_
      have writes_eq : s.writes l (.updateInvoiceStatus i.id .cancelled) = [.invoice i.cancel] := by
        show s.revisions (fun j => some j.cancel) ([i].map (·.id)) = [i].map fun j => .invoice j.cancel
        refine Session.revisions_eq fun j hj => ?_
        cases List.mem_singleton.1 hj
        exact ⟨hthere i List.mem_cons_self, rfl⟩
      rw [writes_eq]
      refine ⟨_, rfl, Service.Assures.set_bind ?_⟩
      rw [passed_eq]
      have skipped : ((i :: rest).filter fun j => j.status = .paid) =
          rest.filter fun j => j.status = .paid :=
        List.filter_cons_of_neg (by simpa using hopen.not_paid)
      rw [skipped] at hQ herror
      refine ih hteams_rest (fun j hj => ?_) hdistinct_rest (fun p' set hp' => ?_) herror
      · -- the others have other ids
        have hne : j.id ≠ i.id := fun heq => hnew (List.mem_map.2 ⟨j, hj, heq⟩)
        rw [s.view_writeAll (by simp)]
        show (s.view.invoices.insert i.id i.cancel).get? j.id = _
        rw [Rows.get?_insert, if_neg hne]
        exact hthere_rest j hj
      · have rows_eq : rows (i :: rest) [] = i.cancel :: rows rest [] := by
          unfold rows
          rw [List.filter_cons_of_pos (by simpa using hopen)]
          rfl
        have := hQ p' set hp'
        rwa [rows_eq, List.map_cons, ← List.singleton_append, ← Session.writeAll_writeAll] at this
    -- an invoice that is not open is not written
    have rows_skip (hnot : ¬ i.Open) : rows (i :: rest) [] = rows rest [] := by
      unfold rows
      rw [List.filter_cons_of_neg (by simpa using hnot)]
    unfold walk
    rw [if_neg (not_not.2 hfrom), if_neg (not_not.2 hto)]
    split
    next hstatus =>
      have kept : ((i :: rest).filter fun j => j.status = .paid) =
          i :: rest.filter fun j => j.status = .paid :=
        List.filter_cons_of_pos (by simpa using hstatus)
      rw [kept, List.map_cons] at hQ herror
      rw [rows_skip fun hopen => hopen.not_paid hstatus] at hQ
      unfold Progress.Fits at herror
      rw [List.foldlM_cons] at hQ
      rw [List.foldlM_cons, List.foldlM_cons] at herror
      cases hsub : p.residual.sub i.amount with
      | error e =>
        rw [hsub] at herror
        exact Service.Assures.ofMoney_bind_error rfl (herror (fun h => nomatch h.1) _ _ _)
      | ok residual =>
        rw [hsub] at hQ herror
        refine Service.Assures.ofMoney_bind rfl ?_
        cases hadd : p.paid.add i.amount with
        | error e =>
          rw [hadd] at herror
          exact Service.Assures.ofMoney_bind_error rfl (herror (fun h => nomatch h.2) _ _ _)
        | ok paid =>
          rw [hadd] at herror
          refine Service.Assures.ofMoney_bind rfl ?_
          rw [passed_eq]
          exact ih hteams_rest hthere_rest hdistinct_rest hQ herror
    next hstatus => exact step_cancel (.inl hstatus)
    next hstatus => exact step_cancel (.inr hstatus)
    next hstatus =>
      have skipped : ((i :: rest).filter fun j => j.status = .paid) =
          rest.filter fun j => j.status = .paid :=
        List.filter_cons_of_neg (by simp [hstatus])
      rw [skipped] at hQ herror
      rw [rows_skip (by rintro (h | h) <;> cases hstatus.symm.trans h)] at hQ
      rw [passed_eq]
      exact ih hteams_rest hthere_rest hdistinct_rest hQ herror

/-! ## The readjustment -/

theorem correlation_of_ne {id : Ident} (h : id ≠ 0) : correlation (some id) = some id := by
  simp [correlation, h]

/-- What is stored for an amount that remains. -/
theorem Ordered.stores (hr : r.Ordered order) {residual : Money} (h : residual.isZero = false)
    (now : Instant) (id : Ident) :
    r.Stores order residual.units [(r.remainder residual now).withId id] := by
  have units_ne : residual.units ≠ 0 := fun hzero => by
    rw [Money.isZero_iff.2 hzero] at h
    cases h
  have order_eq : correlation r.orderId = some order := by
    rw [hr.orderId, correlation_of_ne hr.order_ne]
  by_cases hneg : residual.isNegative = true
  · have units_neg := Money.isNegative_iff.1 hneg
    refine .backward _ units_neg rfl ?_ ⟨if_pos hneg, if_pos hneg, order_eq⟩
    exact (Money.units_abs residual).trans (if_pos units_neg)
  · have units_not_neg : ¬ residual.units < 0 := fun h => hneg (Money.isNegative_iff.2 h)
    refine .forward _ (by omega) rfl ?_ ⟨if_neg hneg, if_neg hneg, order_eq⟩
    exact (Money.units_abs residual).trans (if_neg units_not_neg)

/-- How a session ends in which a readjustment goes through: with the changes of the readjustment and
nothing else, and with the versions that it had noted. -/
def GoesThrough (r : Readjustment) (order : Ident) (t : Tables) (versions : RowKey → Nat)
    (result : Except Failure Outcome) (s : Session) : Prop :=
  (∃ outcome, result = .ok outcome) ∧ s.base = versions ∧ ∃ set added,
    s.changes = ({} : Changes).putAll ((rows set added).map .invoice) ∧
      r.Leaves order t set added (t.apply s.changes)

/-- How a session ends with a readjustment of what it has loaded: the readjustment goes through, or the
paid amounts are out of range and it fails. -/
def Ends (r : Readjustment) (order : Ident) (t : Tables) (versions : RowKey → Nat)
    (result : Except Failure Outcome) (s : Session) : Prop :=
  GoesThrough r order t versions result s ∨
    (∃ e, result = .error e) ∧ ¬ r.Exact (t.paidBetween r.fromTeam r.toTeam order)

/-- **A readjustment of what was just loaded goes through**, unless the paid amounts are out of
range. -/
theorem apply_assures (hr : r.Ordered order) (ht : t.Keyed)
    (hunrounded : r.Unrounded (t.paidBetween r.fromTeam r.toTeam order)) {set : WorkingSet}
    (hset : set = Invoice.oldestFirst (t.between r.fromTeam r.toTeam order))
    (hsnapshot : s.snapshot = t) (hchanges : s.changes = {}) :
    r.apply.Assures t (fun result _ s' => Ends r order t s.base result s') set s := by
  have view_eq : s.view = t := by
    rw [Session.view, hsnapshot, hchanges, Tables.apply_empty]
  have found : set.Perm (t.between r.fromTeam r.toTeam order) := hset ▸ Invoice.oldestFirst_perm _
  have there {i : Invoice} (hi : i ∈ set) :
      t.invoices.get? i.id = some i ∧ i.Between r.fromTeam r.toTeam order :=
    (Tables.mem_between ht).1 (found.mem_iff.1 hi)
  have paid_eq : (set.filter fun i => i.status = .paid) =
      Invoice.oldestFirst (t.paidBetween r.fromTeam r.toTeam order) := by
    rw [hset, Invoice.oldestFirst_filter (Tables.nodup_between ht)]
    rfl
  have fits (hexact : r.Exact (t.paidBetween r.fromTeam r.toTeam order)) :
      Progress.Fits { residual := r.amount } ((set.filter fun i => i.status = .paid).map (·.amount)) := by
    obtain ⟨⟨residual, hresidual, -⟩, hpaid⟩ := hexact _ (found.filter _)
    exact ⟨⟨residual, hresidual⟩, hpaid⟩
  -- the session after writing
  have ending {residual : Money} {added : List Invoice}
      (hresidual : residual.units = r.balance order t)
      (hstores : r.Stores order residual.units added)
      (hfresh : ∀ i ∈ added, t.invoices.get? i.id = none) (outcome : Outcome) :
      Ends r order t s.base (.ok outcome) (s.writeAll ((rows set added).map .invoice)) := by
    refine .inl ⟨⟨outcome, rfl⟩, rfl, set, added, ?_, found, ?_, hfresh, ?_⟩
    · rw [Session.writeAll_changes, hchanges]
    · rw [← hresidual]
      exact hstores
    · rw [Session.writeAll_changes, hchanges, Tables.apply_putAll _ _ (by simp), Tables.apply_empty]
  unfold apply
  have has_order : (correlation r.orderId).isNone = false := by
    rw [hr.orderId, correlation_of_ne hr.order_ne]
    rfl
  rw [if_neg (by simp [has_order])]
  refine Service.Assures.get_bind (Service.Assures.bind ?_)
  refine walk_assures (fun i hi => ⟨(there hi).2.1, (there hi).2.2.1⟩) (fun i hi => ?_) ?_
    (fun p set' hp => ?_) fun hunfit e _ _ => .inr ⟨⟨e, rfl⟩, mt fits hunfit⟩
  · rw [view_eq]
    exact (there hi).1
  · exact (found.map _).nodup_iff.2 (Tables.nodup_between ht)
  have units_eq : p.residual.units = r.balance order t := by
    rw [paid_eq] at hp
    exact hunrounded p.residual hp
  dsimp only
  split
  next hzero =>
    refine Service.Assures.pure
      (ending units_eq (.nothing (Money.isZero_iff.1 hzero)) (fun i hi => ?_) _)
    cases hi
  next hnonzero =>
    refine Service.Assures.now_bind fun now => Service.Assures.write_bind rfl fun l hl hhosts => ?_
    refine ⟨_, rfl, Service.Assures.count_bind (Service.Assures.modify_bind ?_)⟩
    have fresh : t.invoices.get? l.newId.1 = none := by
      have unused := Option.not_isSome_iff_eq_none.1 fun hused => hhosts.newId_unused (.inl hused)
      rw [hl] at unused
      exact Tables.eq_none_of_apply.2 unused
    have rows_eq (new : Invoice) : rows set [new] = rows set [] ++ [new] := by
      unfold rows
      rw [List.append_nil]
    refine Service.Assures.pure ?_
    show Ends r order t s.base _ ((s.writeAll ((rows set []).map .invoice)).writeAll
      ([(r.remainder p.residual now).withId l.newId.1].map .invoice))
    rw [Session.writeAll_writeAll, ← List.map_append, ← rows_eq]
    refine ending units_eq (hr.stores (by simpa using hnonzero) now l.newId.1) (fun i hi => ?_) _
    cases List.mem_singleton.1 hi
    exact fresh

theorem GoesThrough.admits {l : Ledger} {result : Except Failure Outcome}
    (h : GoesThrough r order t l.versions result s) : l.Admits s := by
  obtain ⟨-, hbase, -⟩ := h
  intro k _
  rw [hbase]

/-- **The commit** of such a session succeeds, and the tables are what the readjustment leaves. -/
theorem GoesThrough.commit {w : World} {name : String} {result : Except Failure Outcome}
    (h : GoesThrough r order w.ledger.tables w.ledger.versions result s)
    (hs : w.open? name = some s) : (w.commit name).1 = .ok () ∧
      (w.commit name).2.ledger.locks = (w.ledger.release s.id).locks ∧ ∃ set added,
        s.changes = ({} : Changes).putAll ((rows set added).map .invoice) ∧
        r.Leaves order w.ledger.tables set added (w.commit name).2.ledger.tables := by
  obtain ⟨result_eq, ledger_eq⟩ := World.commit_of_open? hs
  rw [Ledger.commit_of_admits h.admits] at result_eq ledger_eq
  obtain ⟨-, -, set, added, hchanges, hleaves⟩ := h
  rw [ledger_eq]
  exact ⟨result_eq, rfl, set, added, hchanges, hleaves⟩

/-! ## A turn -/

/-- The invoices of the order are loaded, with locks, and readjusted. -/
def turn (r : Readjustment) (order : Ident) : Managing Outcome := do
  let _ ← load (.ofPair r.fromTeam r.toTeam order)
  r.apply

/-- A turn begins with one call to the store. If it is refused the turn is over, and otherwise what it
answers is readjusted. -/
theorem turn_eq (r : Readjustment) (order : Ident) (set : WorkingSet) : ∃ next, (r.turn order) set =
    .ask (.store (.find .invoice (.ofPair r.fromTeam r.toTeam order))) next ∧
      (∀ rows, next (.ok rows) = r.apply rows) ∧ ∀ e, next (.error e) = .done (.error e, set) :=
  ⟨_, rfl, fun _ => rfl, fun _ => rfl⟩

/-- The session has the locks of all invoices of the order, and what is left of its turn goes through,
unless the paid amounts are out of range. -/
structure Inside (r : Readjustment) (order : Ident) (l : Ledger) (s : Session)
    (rest : Program (Except Failure Outcome × WorkingSet)) : Prop where
  assures : rest.Assures l.tables (fun x s => Ends r order l.tables l.versions x.1 s) s
  locks : ∀ i ∈ l.tables.between r.fromTeam r.toTeam order, l.locks ⟨.invoice, i.id⟩ = some s.id

/-- **After its first call** a session is inside, if the call was not refused over a lock. -/
theorem Ordered.inside (hr : r.Ordered order) {l : Ledger} (hl : l.Hosts s) (hchanges : s.changes = {})
    (hunrounded : r.Unrounded (l.tables.paidBetween r.fromTeam r.toTeam order)) :
    (∃ e, (s.answer l (.find .invoice (.ofPair r.fromTeam r.toTeam order))).1 = .error e) ∧
        (∃ id other, l.locks ⟨.invoice, id⟩ = some other ∧ other ≠ s.id) ∨
      ∃ rows, (s.answer l (.find .invoice (.ofPair r.fromTeam r.toTeam order))).1 = .ok rows ∧
        Inside r order (s.answer l (.find .invoice (.ofPair r.fromTeam r.toTeam order))).2.1
          (s.answer l (.find .invoice (.ofPair r.fromTeam r.toTeam order))).2.2 (r.apply rows) := by
  have hgrants := s.answer_ledger l (.find .invoice (.ofPair r.fromTeam r.toTeam order))
  have answer_eq := s.answer_find l (.ofPair r.fromTeam r.toTeam order)
  have session_eq : (s.answer l (.find .invoice (.ofPair r.fromTeam r.toTeam order))).2.2 = s.refresh l :=
    s.find_session _ l
  have locked : (Query.ofPair r.fromTeam r.toTeam order).locked = true := by
    rw [Query.ofPair_eq hr.fromTeam_ne hr.toTeam_ne hr.order_ne]
  rw [hchanges, Tables.apply_empty,
    Query.select_ofPair hr.fromTeam_ne hr.toTeam_ne hr.order_ne] at answer_eq
  rcases answer_eq with ⟨herror, -, i, -, hheld⟩ | ⟨hrows, hlocks⟩
  · exact .inl ⟨herror, i.id, hheld⟩
  · refine .inr ⟨_, hrows, ?_, ?_⟩
    · rw [session_eq, hgrants.tables, hgrants.versions]
      have base_eq : (s.refresh l).base = l.versions := by
        funext k
        refine if_neg ?_
        rw [hchanges]
        exact List.not_mem_nil
      rw [← base_eq]
      exact apply_assures hr hl.keyed hunrounded rfl rfl hchanges
    · rw [session_eq, hgrants.tables]
      exact hlocks locked

end TeamLedger.Readjustment
