/-
What a readjustment does to the ledger.

A working set is as old as its loading. What a readjustment cancels it picks by
the set, but the row that it writes is the one its session sees, and between the
two it reads nothing. So it cancels rows that nobody has touched behind the
session's view, if the session can commit at all; whether one of them has been
paid in the meantime depends on what is known of the set.

The walk through the set is told once and in full (`walk_goes`): it passes a
first part of the set, cancels what is open there, and stops at the end, or
before an invoice between other teams, or where amounts overflow. Wherever it
stops, what it has cancelled stays cancelled.
-/
import TeamLedger.Readjustment
import TeamLedger.Proofs.Workflows

set_option autoImplicit false

namespace TeamLedger

/-! ## Open invoices -/

/-- The invoice is neither paid nor cancelled. -/
def Invoice.Open (i : Invoice) : Prop := i.status = .notFinal ∨ i.status = .notPaid

namespace Invoice

instance (i : Invoice) : Decidable i.Open := inferInstanceAs (Decidable (_ ∨ _))

/-- The invoice, cancelled. -/
def cancel (i : Invoice) : Invoice := { i with status := .cancelled }

theorem not_open_cancel (i : Invoice) : ¬ i.cancel.Open := by
  rintro (h | h) <;> cases h

theorem Open.not_paid {i : Invoice} (h : i.Open) : i.status ≠ .paid := by
  intro hpaid
  rcases h with h | h <;> cases h.symm.trans hpaid

/-- What a readjustment makes of an invoice that it passes. -/
def closed (i : Invoice) : Invoice := if i.Open then i.cancel else i

theorem not_open_closed (i : Invoice) : ¬ i.closed.Open := by
  unfold closed
  split
  · exact i.not_open_cancel
  · assumption

/-- The ids of those that are open. -/
def openIds (is : List Invoice) : List Ident := (is.filter fun i => i.Open).map (·.id)

/-- The amounts of those that are paid. -/
def paidAmounts (is : List Invoice) : List Money :=
  (is.filter fun i => i.status = .paid).map (·.amount)

theorem openIds_append (is js : List Invoice) : openIds (is ++ js) = openIds is ++ openIds js := by
  rw [openIds, List.filter_append, List.map_append]
  rfl

theorem paidAmounts_append (is js : List Invoice) :
    paidAmounts (is ++ js) = paidAmounts is ++ paidAmounts js := by
  rw [paidAmounts, List.filter_append, List.map_append]
  rfl

theorem mem_openIds {is : List Invoice} {id : Ident} :
    id ∈ openIds is ↔ ∃ i ∈ is, i.Open ∧ i.id = id := by
  simp [openIds, and_assoc]

end Invoice

open Invoice (openIds paidAmounts)

theorem Money.abs_units_pos {a : Money} (h : a.isZero = false) : 0 < a.abs.units := by
  have mantissa_ne : a.mantissa ≠ 0 := by simpa [isZero] using h
  have mantissa_pos : (0 : Int) < a.mantissa.natAbs := by omega
  exact Int.mul_pos mantissa_pos (Int.pow_pos (by decide))

/-- The same invoice may be cancelled more than once. -/
theorem Moves.cancels {strict : Prop} {t : Tables} {zs : List Invoice}
    (h : ∀ z ∈ zs, ∃ i, t.invoices.get? z.id = some i ∧ z = { i with status := .cancelled } ∧
      (strict → i.status ≠ .paid)) : Moves strict t (zs.map .invoice) := by
  induction zs generalizing t with
  | nil => exact .nil t
  | cons z zs ih =>
    obtain ⟨i, hi, rfl, hunpaid⟩ := h z List.mem_cons_self
    refine .cons (.cancel i hi hunpaid) (ih fun z hz => ?_)
    obtain ⟨j, hj, hzj, hj_unpaid⟩ := h z (List.mem_cons_of_mem _ hz)
    show ∃ k, (t.invoices.insert i.id { i with status := .cancelled }).get? z.id = some k ∧ _
    rw [Rows.get?_insert]
    by_cases hid : z.id = i.id
    · rw [hid] at hj
      cases hi.symm.trans hj
      rw [if_pos hid]
      exact ⟨_, rfl, hzj, fun _ hpaid => nomatch hpaid⟩
    · rw [if_neg hid]
      exact ⟨j, hj, hzj, hj_unpaid⟩

namespace Readjustment

variable {set : WorkingSet} {l : Ledger} {s : Session} {y : WorkingSet × Ledger × Session}

/-- **Loading** either fails and leaves the working set as it is, or replaces it by what the query
returns from the tables as they are now. -/
theorem load_goes {q : Query .invoice} {r : Except Failure (List Invoice)} (hl : l.Hosts s)
    (h : (load q).Ends (set, l, s) r y) : y.2.2 = s.refresh l ∧
      ((∃ e, r = .error e) ∧ y.1 = set ∨ r = .ok y.1 ∧
        y.1 = Root.invoice.inOrder (q.select (l.tables.apply s.changes)) ∧
        (q.locked = true → ∀ i ∈ q.select (l.tables.apply s.changes),
          y.2.1.locks ⟨.invoice, i.id⟩ = some s.id)) := by
  unfold load at h
  obtain ⟨l', -, -, -, ⟨herror, rfl, -⟩ | ⟨hlocks, h⟩⟩ := h.find_bind hl
  · exact ⟨rfl, .inl ⟨herror, rfl⟩⟩
  obtain ⟨rfl, rfl⟩ := Service.Ends.pure h.set_bind
  exact ⟨rfl, .inr ⟨rfl, rfl, hlocks⟩⟩

/-- What is loaded are rows as the tables are now, with locks on them if the query says so. -/
theorem load_ends {q : Query .invoice} {r : Except Failure (List Invoice)} (hl : l.Hosts s)
    (h : (load q).Ends (set, l, s) r y) :
    y.2.2 = s.refresh l ∧ ((∃ e, r = .error e) ∧ y.1 = set ∨ (∃ a, r = .ok a) ∧
      ∀ i ∈ y.1, (l.tables.apply s.changes).invoices.get? i.id = some i ∧
        (q.locked = true → y.2.1.locks ⟨.invoice, i.id⟩ = some s.id)) := by
  obtain ⟨hs, hfailed | ⟨hr, hset, hlocks⟩⟩ := load_goes hl h
  · exact ⟨hs, .inl hfailed⟩
  refine ⟨hs, .inr ⟨⟨_, hr⟩, fun i hi => ?_⟩⟩
  rw [hset] at hi
  have hfound := Root.inOrder_perm .invoice (q.select (l.tables.apply s.changes))
  refine ⟨Query.there_of_found hl.shown_keyed hfound hi, fun hlocked => ?_⟩
  exact hlocks hlocked i (hfound.mem_iff.1 hi)

/-! ## The walk -/

/-- The invoice is between the teams of the readjustment, and in its direction. -/
def Matches (r : Readjustment) (i : Invoice) : Prop :=
  i.fromTeam = r.fromTeam ∧ i.toTeam = r.toTeam

instance (r : Readjustment) (i : Invoice) : Decidable (r.Matches i) :=
  inferInstanceAs (Decidable (_ ∧ _))

/-- What is said of an invoice between other teams. -/
def mismatch (r : Readjustment) (i : Invoice) : ConsistencyError :=
  if i.fromTeam ≠ r.fromTeam then .fromTeamMismatch i.id i.fromTeam r.fromTeam
  else .toTeamMismatch i.id i.toTeam r.toTeam

/-- What a session writes to cancel the open ones among invoices: those that it sees, as it sees
them. -/
def cancellations (s : Session) (is : List Invoice) : List Put :=
  s.revisions (fun j => some j.cancel) (openIds is)

theorem cancellations_append (s : Session) (is js : List Invoice) :
    cancellations s (is ++ js) = cancellations s is ++ cancellations s js := by
  unfold cancellations
  rw [Invoice.openIds_append, Session.revisions_append]

/-- What has been cancelled before makes no difference. -/
theorem cancellations_writeAll (hs : s.view.invoices.KeyedBy Invoice.id) (is js : List Invoice) :
    cancellations (s.writeAll (cancellations s is)) js = cancellations s js :=
  Session.revisions_writeAll hs (by rintro i j ⟨⟩; exact ⟨rfl, rfl⟩) _ _

/-- The invoices `met` have been passed. All of them match, and the open ones are cancelled, in the
working set and in the session. -/
structure Passes (r : Readjustment) (s : Session) (y : WorkingSet × Ledger × Session)
    (passed met tail : List Invoice) : Prop where
  matched : ∀ i ∈ met, r.Matches i
  working : y.1 = passed ++ met.map Invoice.closed ++ tail
  session : y.2.2 = s.writeAll (cancellations s met)

/-- Where a walk stops that has passed the invoices `met`: at the end, with what is paid taken off the
target and added up; before an invoice that does not match; or before one whose amount leads to an
overflow. -/
inductive Stops (r : Readjustment) (p : Progress) (met : List Invoice) :
    List Invoice → Except Failure Progress → Prop
  | arrived (p' : Progress) (residual : (paidAmounts met).foldlM Money.sub p.residual = .ok p'.residual)
      (paid : (paidAmounts met).foldlM Money.add p.paid = .ok p'.paid)
      (cancelled : p'.cancelled = p.cancelled ++ openIds met) : Stops r p met [] (.ok p')
  | mismatched (bad : Invoice) (rest : List Invoice) (h : ¬ r.Matches bad) :
      Stops r p met (bad :: rest) (.error (.refused (.consistency (r.mismatch bad))))
  | overflowed (i : Invoice) (rest : List Invoice) (operation : Money.Overflow)
      (h : (paidAmounts (met ++ [i])).foldlM Money.sub p.residual = .error operation ∨
        (paidAmounts (met ++ [i])).foldlM Money.add p.paid = .error operation) :
      Stops r p met (i :: rest) (.error (.overflow operation))

variable {r : Readjustment} {p p' : Progress} {i : Invoice} {passed met tail : List Invoice}
  {result : Except Failure Progress}

theorem Passes.nil (r : Readjustment) (s : Session) (l : Ledger) (passed tail : List Invoice) :
    Passes r s (passed ++ tail, l, s) passed [] tail :=
  ⟨fun i hi => (nomatch hi), by simp, rfl⟩

/-- One more invoice in front. -/
theorem Passes.cons (hs : s.view.invoices.KeyedBy Invoice.id) (hi : r.Matches i)
    (h : Passes r (s.writeAll (cancellations s [i])) y (passed ++ [i.closed]) met tail) :
    Passes r s y passed (i :: met) tail where
  matched := List.forall_mem_cons.2 ⟨hi, h.matched⟩
  working := by
    rw [h.working, List.map_cons]
    simp
  session := by
    rw [h.session, cancellations_writeAll hs, Session.writeAll_writeAll, ← cancellations_append]
    rfl

theorem Stops.cons (hresidual : (paidAmounts [i]).foldlM Money.sub p.residual = .ok p'.residual)
    (hpaid : (paidAmounts [i]).foldlM Money.add p.paid = .ok p'.paid)
    (hcancelled : p'.cancelled = p.cancelled ++ openIds [i]) (h : Stops r p' met tail result) :
    Stops r p (i :: met) tail result := by
  have subtracted (is : List Invoice) : (paidAmounts (i :: is)).foldlM Money.sub p.residual =
      (paidAmounts is).foldlM Money.sub p'.residual := by
    rw [← List.singleton_append, Invoice.paidAmounts_append, List.foldlM_append, hresidual]
    rfl
  have added (is : List Invoice) : (paidAmounts (i :: is)).foldlM Money.add p.paid =
      (paidAmounts is).foldlM Money.add p'.paid := by
    rw [← List.singleton_append, Invoice.paidAmounts_append, List.foldlM_append, hpaid]
    rfl
  cases h with
  | arrived p'' residual paid cancelled =>
    refine .arrived p'' ((subtracted met).trans residual) ((added met).trans paid) ?_
    rw [cancelled, hcancelled, List.append_assoc, ← Invoice.openIds_append]
    rfl
  | mismatched bad rest h => exact .mismatched bad rest h
  | overflowed j rest operation h =>
    refine .overflowed j rest operation ?_
    rw [List.cons_append, subtracted, added]
    exact h

/-- **The course of a walk.** -/
theorem walk_goes {rest : List Invoice} (hl : l.Hosts s)
    (h : (walk r passed rest p).Ends (passed ++ rest, l, s) result y) :
    ∃ met tail, rest = met ++ tail ∧ Passes r s y passed met tail ∧ Stops r p met tail result := by
  induction rest generalizing passed p l s with
  | nil =>
    obtain ⟨rfl, rfl⟩ := Service.Ends.pure h
    exact ⟨[], [], rfl, .nil .., .arrived p rfl rfl (List.append_nil _).symm⟩
  | cons i rest ih =>
    have hs : s.view.invoices.KeyedBy Invoice.id := hl.fits.view_keyed.invoices
    have passed_eq (j : Invoice) : passed ++ j :: rest = (passed ++ [j]) ++ rest := by
      rw [List.append_assoc, List.singleton_append]
    unfold walk at h
    rcases h.unless with ⟨rfl, rfl, hfrom⟩ | ⟨hfrom, h⟩
    · have mismatch_eq : r.mismatch i = .fromTeamMismatch i.id i.fromTeam r.fromTeam := if_pos hfrom
      rw [← mismatch_eq]
      exact ⟨[], _, rfl, .nil .., .mismatched i rest fun hmatches => hfrom hmatches.1⟩
    rcases h.unless with ⟨rfl, rfl, hto⟩ | ⟨hto, h⟩
    · have mismatch_eq : r.mismatch i = .toTeamMismatch i.id i.toTeam r.toTeam := if_neg hfrom
      rw [← mismatch_eq]
      exact ⟨[], _, rfl, .nil .., .mismatched i rest fun hmatches => hto hmatches.2⟩
    have hmatches : r.Matches i := ⟨not_not.1 hfrom, not_not.1 hto⟩
    -- an invoice that is not open is left as it is
    have pass (hnot : ¬ i.Open) {n : Progress} (hcancelled : n.cancelled = p.cancelled)
        (hresidual : (paidAmounts [i]).foldlM Money.sub p.residual = .ok n.residual)
        (hpaid : (paidAmounts [i]).foldlM Money.add p.paid = .ok n.paid)
        (h : (walk r (passed ++ [i]) rest n).Ends (passed ++ i :: rest, l, s) result y) :
        ∃ met tail, i :: rest = met ++ tail ∧ Passes r s y passed met tail ∧
          Stops r p met tail result := by
      have none_open : openIds [i] = [] := by simp [openIds, hnot]
      have same : s.writeAll (cancellations s [i]) = s := by
        rw [cancellations, none_open]
        rfl
      have closed_eq : i.closed = i := if_neg hnot
      rw [passed_eq] at h
      obtain ⟨met, tail, rfl, hpasses, hstops⟩ := ih hl h
      refine ⟨i :: met, tail, rfl, .cons hs hmatches ?_, .cons hresidual hpaid ?_ hstops⟩
      · rw [same, closed_eq]
        exact hpasses
      · rw [none_open, List.append_nil]
        exact hcancelled
    -- both statuses that are open lead here
    have cancel (hopen : i.Open)
        (h : (do
          let _ ← Service.call (.updateInvoiceStatus i.id .cancelled)
          MonadStateOf.set (passed ++ i.cancel :: rest)
          walk r (passed ++ [i.cancel]) rest
            { p with cancelled := p.cancelled ++ [i.id] } : Managing Progress).Ends
              (passed ++ i :: rest, l, s) result y) :
        ∃ met tail, i :: rest = met ++ tail ∧ Passes r s y passed met tail ∧
          Stops r p met tail result := by
      have one_open : openIds [i] = [i.id] := by simp [openIds, hopen]
      have none_paid : paidAmounts [i] = [] := by simp [paidAmounts, hopen.not_paid]
      have closed_eq : i.closed = i.cancel := if_pos hopen
      have writes_eq : s.writes l (.updateInvoiceStatus i.id .cancelled) = cancellations s [i] := by
        rw [cancellations, one_open]
        rfl
      obtain ⟨l', -, hl', h⟩ := h.write_bind hl rfl rfl writes_eq
      replace h := h.set_bind
      rw [passed_eq] at h
      obtain ⟨met, tail, rfl, hpasses, hstops⟩ := ih hl' h
      refine ⟨i :: met, tail, rfl, .cons hs hmatches ?_, .cons ?_ ?_ ?_ hstops⟩
      · rw [closed_eq]
        exact hpasses
      · rw [none_paid]
        rfl
      · rw [none_paid]
        rfl
      · rw [one_open]
    split at h
    next hstatus =>
      have one_paid : paidAmounts [i] = [i.amount] := by simp [paidAmounts, hstatus]
      have subtracted : (paidAmounts [i]).foldlM Money.sub p.residual = p.residual.sub i.amount := by
        rw [one_paid, List.foldlM_cons]
        exact bind_pure _
      have added : (paidAmounts [i]).foldlM Money.add p.paid = p.paid.add i.amount := by
        rw [one_paid, List.foldlM_cons]
        exact bind_pure _
      rcases h.ofMoney_bind with ⟨operation, hover, rfl, rfl⟩ | ⟨residual, hresidual, h⟩
      · refine ⟨[], _, rfl, .nil .., .overflowed i rest operation (.inl ?_)⟩
        exact subtracted.trans hover
      rcases h.ofMoney_bind with ⟨operation, hover, rfl, rfl⟩ | ⟨paid, hpaid, h⟩
      · refine ⟨[], _, rfl, .nil .., .overflowed i rest operation (.inr ?_)⟩
        exact added.trans hover
      exact pass (fun hopen => hopen.not_paid hstatus) (n := { p with residual, paid }) rfl
        (subtracted.trans hresidual) (added.trans hpaid) h
    next hstatus => exact cancel (.inl hstatus) h
    next hstatus => exact cancel (.inr hstatus) h
    next hstatus =>
      have none_paid : paidAmounts [i] = [] := by simp [paidAmounts, hstatus]
      refine pass (by rintro (h | h) <;> cases hstatus.symm.trans h) rfl ?_ ?_ h
      · rw [none_paid]
        rfl
      · rw [none_paid]
        rfl

/-! ## What is written -/

/-- The rows `zs` are cancelled forms of rows that the session saw, and each of them is an open invoice
of the list. -/
def Cancels (s : Session) (zs is : List Invoice) : Prop :=
  ∀ z ∈ zs, (∃ i, s.view.invoices.get? z.id = some i ∧ z = { i with status := .cancelled }) ∧
    ∃ i ∈ is, i.Open ∧ i.id = z.id

theorem Passes.cancels (hs : s.view.invoices.KeyedBy Invoice.id) (h : Passes r s y passed met tail) :
    ∃ zs, y.2.2 = s.writeAll (zs.map .invoice) ∧ Cancels s zs (met ++ tail) ∧
      ∀ i ∈ y.1, i.Open → i ∈ passed ++ (met ++ tail) := by
  refine ⟨_, h.session, fun z hz => ?_, fun i hi hopen => ?_⟩
  · obtain ⟨id, hid, hz⟩ := List.mem_filterMap.1 hz
    obtain ⟨i, hi, hopen, rfl⟩ := Invoice.mem_openIds.1 hid
    obtain ⟨j, hj, hz⟩ := Option.bind_eq_some_iff.1 hz
    cases hz
    have hid : j.id = i.id := hs _ _ hj
    exact ⟨⟨j, (congrArg _ hid).trans hj, rfl⟩, i, List.mem_append_left _ hi, hopen, hid.symm⟩
  · rw [h.working, List.mem_append, List.mem_append] at hi
    rcases hi with (hi | hi) | hi
    · exact List.mem_append_left _ hi
    · obtain ⟨j, -, rfl⟩ := List.mem_map.1 hi
      exact absurd hopen j.not_open_closed
    · exact List.mem_append_right _ (List.mem_append_right _ hi)

/-- The readjustment names a transaction or an order. Zero names none. -/
def Correlated (r : Readjustment) : Prop :=
  (correlation r.txId).isSome ∨ (correlation r.orderId).isSome

/-- A readjustment that has come to its end with an outcome, when `residual` was left of the target. -/
structure Completed (r : Readjustment) (set : WorkingSet) (l : Ledger) (s : Session)
    (y : WorkingSet × Ledger × Session) (residual : Money) (o : Outcome) : Prop where
  matched : ∀ i ∈ set, r.Matches i
  left : (paidAmounts set).foldlM Money.sub r.amount = .ok residual
  paid : (paidAmounts set).foldlM Money.add .zero = .ok o.paid
  cancelled : o.cancelled = openIds set
  /-- For what is left an invoice is stored under a new id. -/
  created : residual.isZero = true ∧ o.created = none ∨ residual.isZero = false ∧
    ∃ now id, (l.lastId : Ident) < id ∧ o.created = some ((r.remainder residual now).withId id)
  working : y.1 = set.map Invoice.closed ++ o.created.toList
  session : y.2.2 = s.writeAll (cancellations s set ++ o.created.toList.map .invoice)

/-- **The course of a readjustment.** It may end before the walk, within it, or behind it; and there
nothing can fail. -/
theorem apply_goes {result : Except Failure Outcome} (hl : l.Hosts s)
    (h : r.apply.Ends (set, l, s) result y) :
    (result = .error (.refused (.validation .noCorrelation)) ∧ y = (set, l, s) ∧ ¬ r.Correlated) ∨
      r.Correlated ∧
        ((∃ met tail e, set = met ++ tail ∧ result = .error e ∧ Passes r s y [] met tail ∧
            Stops r { residual := r.amount } met tail (.error e)) ∨
          ∃ o residual, result = .ok o ∧ Completed r set l s y residual o) := by
  unfold apply at h
  rcases h.unless with ⟨hr, rfl, hnone⟩ | ⟨hnone, h⟩
  · refine .inl ⟨hr, rfl, fun hcorrelated => ?_⟩
    rcases hcorrelated with hid | hid
    · exact absurd hnone.1 (by simp [Option.isSome_iff_ne_none.1 hid])
    · exact absurd hnone.2 (by simp [Option.isSome_iff_ne_none.1 hid])
  have hcorrelated : r.Correlated := by
    simpa [Correlated, Option.isNone_iff_eq_none, ← Option.isSome_iff_ne_none, or_iff_not_imp_left]
      using hnone
  refine .inr ⟨hcorrelated, ?_⟩
  rcases h.get_bind.bind with ⟨e, rfl, hwalk⟩ | ⟨p, ⟨set₁, l₁, s₁⟩, hwalk, h⟩
  · obtain ⟨met, tail, hset, hpasses, hstops⟩ := walk_goes hl hwalk
    exact .inl ⟨met, tail, e, hset, rfl, hpasses, hstops⟩
  obtain ⟨hgrants, -, hl₁⟩ := hwalk.leads hl
  obtain ⟨met, tail, hset, hpasses, hstops⟩ := walk_goes hl hwalk
  dsimp only at hgrants hl₁ hset
  cases hstops with
  | arrived _ hresidual hpaid hcancelled =>
    rw [List.append_nil] at hset
    obtain rfl := hset
    have set_eq : set₁ = set.map Invoice.closed := by simpa using hpasses.working
    have session_eq : s₁ = s.writeAll (cancellations s set) := hpasses.session
    -- whatever is stored at the end, this much is known
    have completed {o : Outcome} (hcancelled' : o.cancelled = p.cancelled) (hpaid' : o.paid = p.paid)
        (hcreated : p.residual.isZero = true ∧ o.created = none ∨ p.residual.isZero = false ∧
          ∃ now id, (l.lastId : Ident) < id ∧
            o.created = some ((r.remainder p.residual now).withId id))
        (hset : y.1 = set.map Invoice.closed ++ o.created.toList)
        (hs : y.2.2 = s.writeAll (cancellations s set ++ o.created.toList.map .invoice)) :
        Completed r set l s y p.residual o :=
      ⟨hpasses.matched, hresidual, hpaid'.symm ▸ hpaid, hcancelled'.trans hcancelled, hcreated, hset, hs⟩
    split at h
    next hzero =>
      obtain ⟨rfl, rfl⟩ := Service.Ends.pure h
      refine .inr ⟨_, _, rfl, completed rfl rfl (.inl ⟨hzero, rfl⟩) ?_ ?_⟩
      · exact set_eq.trans (List.append_nil _).symm
      · exact session_eq.trans (by simp)
    next hresidual =>
      obtain ⟨now, h⟩ := h.now_bind
      obtain ⟨l₂, -, -, h⟩ := h.write_bind hl₁ rfl rfl rfl
      replace h := Service.modify_bind h.count_bind
      obtain ⟨rfl, rfl⟩ := Service.Ends.pure h
      refine .inr ⟨_, _, rfl, completed rfl rfl
        (.inr ⟨by simpa using hresidual, now, l₁.newId.1, ?_, rfl⟩) ?_ ?_⟩
      · exact Int.lt_of_le_of_lt (Int.ofNat_le.2 hgrants.lastId) (Int.not_le.1 l₁.not_newId_le)
      · exact congrArg (· ++ _) set_eq
      · show s₁.writeAll _ = _
        rw [session_eq, Session.writeAll_writeAll]
        rfl

/-- What a readjustment has done, to its end or up to a failure: it cancelled the invoices `zs`, and
perhaps stored one more. -/
structure Readjusted (strict : Prop) (set : WorkingSet) (l : Ledger) (s : Session)
    (y : WorkingSet × Ledger × Session) (zs added : List Invoice) : Prop where
  session : y.2.2 = s.writeAll ((zs ++ added).map .invoice)
  cancels : Cancels s zs set
  added_new : ∀ i ∈ added, (l.tables.apply s.changes).invoices.get? i.id = none
  added_unpaid : ∀ i ∈ added, i.status = .notPaid
  set_open : ∀ i ∈ y.1, i.Open → i ∈ set ∨ i ∈ added
  moves : (∀ z ∈ zs, ∃ i, (l.tables.apply s.changes).invoices.get? z.id = some i ∧
      z = { i with status := .cancelled } ∧ (strict → i.status ≠ .paid)) →
    Moves strict (l.tables.apply s.changes) ((zs ++ added).map .invoice)

theorem apply_ends (strict : Prop) {result : Except Failure Outcome} (hl : l.Hosts s)
    (h : r.apply.Ends (set, l, s) result y) : ∃ zs added, Readjusted strict set l s y zs added := by
  have hs : s.view.invoices.KeyedBy Invoice.id := hl.fits.view_keyed.invoices
  -- nothing is stored at the end, or the walk has failed on the way
  have cancelled_only {zs : List Invoice} (hy : y.2.2 = s.writeAll (zs.map .invoice))
      (hzs : Cancels s zs set) (hset : ∀ i ∈ y.1, i.Open → i ∈ set) :
      Readjusted strict set l s y zs [] := by
    refine ⟨by rw [hy, List.append_nil], hzs, fun i hi => (nomatch hi), fun i hi => (nomatch hi),
      fun i hi hopen => .inl (hset i hi hopen), fun hrows => ?_⟩
    rw [List.append_nil]
    exact Moves.cancels hrows
  rcases apply_goes hl h with ⟨-, rfl, -⟩ |
    ⟨-, ⟨met, tail, e, rfl, -, hpasses, -⟩ | ⟨o, residual, -, hdone⟩⟩
  · exact ⟨[], [], cancelled_only rfl (fun z hz => nomatch hz) fun i hi _ => hi⟩
  · obtain ⟨zs, hy, hzs, hset⟩ := hpasses.cancels hs
    exact ⟨zs, [], cancelled_only hy hzs hset⟩
  have passes : Passes r s (set.map Invoice.closed, l, s.writeAll (cancellations s set)) [] set [] :=
    ⟨hdone.matched, by simp, rfl⟩
  obtain ⟨zs, hcancels, hzs, hset⟩ := passes.cancels hs
  simp only [List.nil_append, List.append_nil] at hcancels hzs hset
  have session_eq : y.2.2 = s.writeAll ((zs ++ o.created.toList).map .invoice) := by
    rw [hdone.session, ← Session.writeAll_writeAll, hcancels, Session.writeAll_writeAll, List.map_append]
  have open_eq : ∀ i ∈ y.1, i.Open → i ∈ set ∨ i ∈ o.created.toList := by
    intro i hi hopen
    rw [hdone.working, List.mem_append] at hi
    exact hi.imp_left fun hi => hset i hi hopen
  rcases hdone.created with ⟨-, hnone⟩ | ⟨hresidual, now, id, hid, hsome⟩
  · rw [hnone] at session_eq open_eq
    refine ⟨zs, [], cancelled_only ?_ hzs fun i hi hopen => ?_⟩
    · rw [session_eq, Option.toList_none, List.append_nil]
    · exact (open_eq i hi hopen).resolve_right List.not_mem_nil
  · rw [hsome, Option.toList_some] at session_eq open_eq
    have new_none : (l.tables.apply s.changes).invoices.get? id = none :=
      Option.not_isSome_iff_eq_none.1 fun hused => Int.not_le.2 hid (hl.uses_le (.inl hused))
    refine ⟨zs, [(r.remainder residual now).withId id], session_eq, hzs, ?_, ?_, open_eq, ?_⟩
    · intro i hi
      cases List.mem_singleton.1 hi
      exact new_none
    · intro i hi
      cases List.mem_singleton.1 hi
      rfl
    · intro hrows
      rw [List.map_append]
      refine (Moves.cancels hrows).append (Move.moves (.insert _ ?_ rfl fun _ => ?_))
      · -- what is cancelled is there already
        rcases Tables.invoice_putAll (l.tables.apply s.changes) (zs.map .invoice) id with
          ⟨hget, -⟩ | ⟨z, hz, rfl, -⟩
        · exact hget.trans new_none
        · obtain ⟨i, hi, -⟩ := hrows z (by simpa using hz)
          cases new_none.symm.trans hi
      · exact Money.abs_units_pos hresidual

end Readjustment

end TeamLedger
