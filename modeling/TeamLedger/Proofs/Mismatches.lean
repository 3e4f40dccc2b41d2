/-
A readjustment that meets an invoice between other teams.

The walk looks at the teams of an invoice when it comes to it, not before it sets
out. So what it leaves behind, if it has to stop, depends on where the invoice
stands: the open invoices before it have been cancelled, in the working set and
in the session, and a commit makes that last. Only if there are none of them that
the session sees, nothing has happened.
-/
import TeamLedger.Proofs.Locks
import TeamLedger.Proofs.Readjusting

set_option autoImplicit false

namespace TeamLedger

open Invoice (openIds paidAmounts)

namespace Readjustment

variable {r : Readjustment} {s : Session}

/-- **A walk that fails** does so at an invoice: because it does not match, or because its amount cannot
be counted in. -/
theorem Stops.failed {p : Progress} {met tail : List Invoice} {e : Failure}
    (h : r.Stops p met tail (.error e)) : ∃ i rest, tail = i :: rest ∧
      (¬ r.Matches i ∧ e = .refused (.consistency (r.mismatch i)) ∨
        ∃ operation, e = .overflow operation ∧
          ((paidAmounts (met ++ [i])).foldlM Money.sub p.residual = .error operation ∨
            (paidAmounts (met ++ [i])).foldlM Money.add p.paid = .error operation)) := by
  cases h with
  | mismatched bad rest h => exact ⟨bad, rest, rfl, .inl ⟨h, rfl⟩⟩
  | overflowed i rest operation h => exact ⟨i, rest, rfl, .inr ⟨operation, rfl, h⟩⟩

theorem mem_cancellations {is : List Invoice} {p : Put} : p ∈ cancellations s is ↔
    ∃ id ∈ openIds is, ∃ i, s.view.invoices.get? id = some i ∧ p = .invoice i.cancel := by
  simp only [cancellations, Session.revisions, List.mem_map, List.mem_filterMap,
    Option.bind_eq_some_iff, Option.some.injEq]
  constructor
  · rintro ⟨_, ⟨id, hopen, i, hrow, rfl⟩, rfl⟩
    exact ⟨id, hopen, i, hrow, rfl⟩
  · rintro ⟨id, hopen, i, hrow, rfl⟩
    exact ⟨_, ⟨id, hopen, i, hrow, rfl⟩, rfl⟩

theorem limit_not_mem_cancellations (s : Session) (is : List Invoice) (x : Limit) :
    Put.limit x ∉ cancellations s is := by
  intro h
  obtain ⟨id, -, i, -, heq⟩ := mem_cancellations.1 h
  cases heq

/-- **A row after cancellations.** What is listed there as open is cancelled, as far as it is seen. -/
theorem get?_cancellations (hs : s.view.invoices.KeyedBy Invoice.id) (is : List Invoice) (id : Ident) :
    (s.writeAll (cancellations s is)).view.invoices.get? id =
      if id ∈ openIds is then (s.view.invoices.get? id).map Invoice.cancel
      else s.view.invoices.get? id := by
  rw [s.view_writeAll (limit_not_mem_cancellations s is)]
  rcases Tables.invoice_putAll s.view (cancellations s is) id with ⟨hget, hne⟩ | ⟨j, hj, rfl, hget⟩
  · rw [hget]
    split
    next hopen =>
      -- it is listed, but not seen: otherwise it would have been written
      cases hrow : s.view.invoices.get? id with
      | none => rfl
      | some i =>
        have id_eq : i.cancel.id = id := hs id i hrow
        exact absurd id_eq (hne i.cancel (mem_cancellations.2 ⟨id, hopen, i, hrow, rfl⟩))
    next => rfl
  · obtain ⟨id, hopen, i, hrow, heq⟩ := mem_cancellations.1 hj
    cases heq
    have id_eq : i.cancel.id = id := hs id i hrow
    rw [hget, id_eq, if_pos hopen, hrow]
    rfl

/-- Cancellations leave everything as it is seen just when all of it is cancelled already. -/
theorem view_cancellations_eq_iff (hs : s.view.invoices.KeyedBy Invoice.id) (is : List Invoice) :
    (s.writeAll (cancellations s is)).view = s.view ↔
      ∀ id ∈ openIds is, ∀ i, s.view.invoices.get? id = some i → i.status = .cancelled := by
  constructor
  · intro heq id hopen i hrow
    have hget := get?_cancellations hs is id
    rw [heq, if_pos hopen, hrow] at hget
    exact congrArg Invoice.status (Option.some.inj hget)
  · intro hall
    have rows_eq : (s.writeAll (cancellations s is)).view.invoices = s.view.invoices := by
      refine Rows.ext_get? fun id => ?_
      rw [get?_cancellations hs]
      split
      next hopen =>
        cases hrow : s.view.invoices.get? id with
        | none => rfl
        | some i =>
          have cancel_eq : i.cancel = i := by rw [Invoice.cancel, ← hall id hopen i hrow]
          rw [Option.map_some, cancel_eq]
      next => rfl
    -- nothing else is written
    rw [s.view_writeAll (limit_not_mem_cancellations s is)] at rows_eq ⊢
    refine (Tables.putAll_invoices_eq ..).trans ?_
    exact congrArg (fun invoices => ({ s.view with invoices } : Tables)) rows_eq

end Readjustment

namespace World

variable {w : World} {name : String} {s : Session} {set : Readjustment.WorkingSet} {r : Readjustment}

/-- **A readjustment cannot be finished if an invoice does not match**, and what it has done by then
stays. It fails at the first such invoice and names it, or before that over an amount that overflows.
The open invoices in front of it are cancelled, those that the session sees; no other row is touched,
and a commit stores just that. -/
theorem readjust_mismatched (hw : w.Sound) (hs : w.open? name = some s) (hcorrelated : r.Correlated)
    (hbad : ∃ i ∈ set, ¬ r.Matches i) :
    ∃ met i rest e set' w' s', set = met ++ i :: rest ∧
      w.run name none (r.apply set) = some ((.error e, set'), w') ∧ w'.open? name = some s' ∧
      r.Passes s (set', w'.ledger, s') [] met (i :: rest) ∧
      (¬ r.Matches i ∧ e = .refused (.consistency (r.mismatch i)) ∨
        ∃ operation, e = .overflow operation ∧
          ((paidAmounts (met ++ [i])).foldlM Money.sub r.amount = .error operation ∨
            (paidAmounts (met ++ [i])).foldlM Money.add .zero = .error operation)) ∧
      (∀ id, s'.view.invoices.get? id = if id ∈ openIds met
        then (s.view.invoices.get? id).map Invoice.cancel else s.view.invoices.get? id) ∧
      (s'.view = s.view ↔
        ∀ id ∈ openIds met, ∀ j, s.view.invoices.get? id = some j → j.status = .cancelled) ∧
      w'.ledger.tables = w.ledger.tables ∧
      (∀ other, other ≠ name → w'.open? other = w.open? other) ∧
      ((w'.commit name).1 = .ok () → (w'.commit name).2.ledger.tables =
        (w.ledger.tables.apply s.changes).putAll (Readjustment.cancellations s met)) := by
  have hl := hw.hosts hs
  have keyed : s.view.invoices.KeyedBy Invoice.id := hl.fits.view_keyed.invoices
  obtain ⟨result, set', w', s', hrun, hs', hends, htables, hothers⟩ := hw.serve hs r.apply set
  obtain ⟨bad, hmem, hmismatch⟩ := hbad
  rcases Readjustment.apply_goes hl hends with ⟨-, -, hnot⟩ |
    ⟨-, ⟨met, tail, e, rfl, rfl, hpasses, hstops⟩ | ⟨o, residual, -, hdone⟩⟩
  · exact absurd hcorrelated hnot
  · -- the walk has stopped, and what it passed is written
    have session_eq : s' = s.writeAll (Readjustment.cancellations s met) := hpasses.session
    obtain ⟨i, rest, rfl, hfailed⟩ := hstops.failed
    refine ⟨met, i, rest, e, set', w', s', rfl, hrun, hs', hpasses, hfailed, ?_, ?_, htables, hothers,
      fun hcommit => ?_⟩
    · rw [session_eq]
      exact Readjustment.get?_cancellations keyed met
    · rw [session_eq]
      exact Readjustment.view_cancellations_eq_iff keyed met
    · rw [tables_commit hs' hcommit, htables, session_eq]
      exact Tables.apply_putAll _ _ (Readjustment.limit_not_mem_cancellations s met)
  · -- it cannot have come to its end
    exact absurd (hdone.matched bad hmem) hmismatch

/-- What team 1 owes team 2 for an order, and what it owes team 3. -/
def twoDebtors : List NewInvoice :=
  [2, 3].map fun toTeam =>
    { fromTeam := 1, toTeam, kind := .product, amount := (Money.ofParts? 7 0).getD .zero,
      orderId := some 7, created := .ofSecond 0 }

/-- What team 1 owes team 2 for the order shall come to nothing. All invoices of the order are at hand,
and the one in front is cancelled for good. -/
theorem readjust_mismatched_behind_open : ∃ (w w' : World) (s : Session)
    (set set' : Readjustment.WorkingSet) (r : Readjustment), w.Sound ∧ w.open? "second" = some s ∧
    r.Correlated ∧ (∃ i ∈ set, ¬ r.Matches i) ∧ w.run "second" none (r.apply set) =
      some ((.error (.refused (.consistency (.toTeamMismatch 2 3 2))), set'), w') ∧
    w.ledger.tables.invoices.values.map (·.status) = [.notPaid, .notPaid] ∧
    (w'.commit "second").1 = .ok () ∧ ∀ i, w.ledger.tables.invoices.get? 1 = some i →
      (w'.commit "second").2.ledger.tables.invoices.get? 1 = some i.cancel := by
  have key (w w' : World) (s : Session) (set set' : Readjustment.WorkingSet) (r : Readjustment)
      (hw : w.Sound) (hs : w.open? "second" = some s) (hchanges : s.changes = {})
      (hsnapshot : s.snapshot = w.ledger.tables) (hcorrelated : r.Correlated)
      (hbad : ∃ i ∈ set, ¬ r.Matches i) (hrun : w.run "second" none (r.apply set) =
        some ((.error (.refused (.consistency (.toTeamMismatch 2 3 2))), set'), w'))
      (hfront : ∀ met bad rest, set = met ++ bad :: rest → r.mismatch bad = .toTeamMismatch 2 3 2 →
        openIds met = [1])
      (hcommit : (w'.commit "second").1 = .ok ()) (i : Invoice)
      (hi : w.ledger.tables.invoices.get? 1 = some i) :
      (w'.commit "second").2.ledger.tables.invoices.get? 1 = some i.cancel := by
    obtain ⟨met, bad, rest, e, set'', w'', s', hset, hrun', -, -, hfailed, -, -, -, -, hstored⟩ :=
      readjust_mismatched hw hs hcorrelated hbad
    cases hrun.symm.trans hrun'
    have hmismatch : r.mismatch bad = .toTeamMismatch 2 3 2 := by
      rcases hfailed with ⟨-, he⟩ | ⟨operation, he, -⟩
      · injection he with he
        injection he with he
        exact he.symm
      · cases he
    have hview : s.view = w.ledger.tables := by
      rw [Session.view, hchanges, hsnapshot, Tables.apply_empty]
    have hid : i.cancel.id = 1 := hw.keyed.invoices 1 i hi
    rw [hstored hcommit, hchanges, Tables.apply_empty, Readjustment.cancellations,
      hfront _ _ _ hset hmismatch, Session.revisions, hview]
    simp only [List.filterMap_cons, hi, Option.bind_some, List.filterMap_nil, List.map_cons,
      List.map_nil, Tables.putAll_cons, Tables.putAll_nil]
    show (w.ledger.tables.invoices.insert i.cancel.id i.cancel).get? 1 = some i.cancel
    rw [Rows.get?_insert, if_pos hid.symm]
  have hw := (Sound.start { clock := ⟨.ofSecond 5⟩ }).happenAll
    (.begin "first" :: twoDebtors.map (fun new => .call "first" (.insertInvoice new)) ++
      [.commit "first", .begin "second"])
  have hcorrelated : Readjustment.Correlated ⟨1, 2, .zero, none, some 7⟩ := .inr (by decide)
  have hbad : ∃ i ∈ List.zipWith NewInvoice.withId twoDebtors [1, 2],
      ¬ Readjustment.Matches ⟨1, 2, .zero, none, some 7⟩ i := by decide
  refine ⟨_, _, _, _, _, _, hw, rfl, hcorrelated, hbad, rfl, by decide +kernel, rfl,
    key _ _ _ _ _ _ hw rfl rfl rfl hcorrelated hbad rfl ?_ rfl⟩
  rintro (_ | ⟨a, _ | ⟨b, met⟩⟩) bad rest hset hmismatch
  · cases hset
    exact absurd hmismatch (by decide)
  · cases hset
    decide
  · exact absurd (congrArg List.length hset) (by simp [twoDebtors])

end World

end TeamLedger
