/-
One readjustment, from end to end.

A working set that was just loaded is, row by row, what its session sees. So what
a readjustment cancels are the open invoices of the set and no others, and the
set that it leaves is again what the session sees. The balance is kept along the
walk by two sums, one that goes down from the target and one that goes up; at
the end the first is what the second leaves of the target, and its sign decides
on the direction of the one invoice that is stored.

Nothing of this depends on when the set was loaded. It is enough that the session
is as the loading left it, whatever others have committed since.
-/
import TeamLedger.Proofs.Clearing
import TeamLedger.Proofs.Pairs

set_option autoImplicit false

namespace TeamLedger

namespace Readjustment

open Invoice (openIds paidAmounts)

/-! ## What a readjustment comes to -/

/-- The paid invoices of a set can be taken off the target one by one, and they can be added up, and
nothing is lost by rounding. -/
def Subtracts (r : Readjustment) (set : WorkingSet) : Prop :=
  (∃ m, (paidAmounts set).foldlM Money.sub r.amount = .ok m ∧
      m.units = r.amount.units - Invoice.sumUnits (set.filter fun i => i.status = .paid)) ∧
    Invoice.AddUp (set.filter fun i => i.status = .paid)

/-- The invoice makes up for what is paid of the target. -/
structure Supplies (r : Readjustment) (paid : Money) (i : Invoice) : Prop where
  status : i.status = .notPaid
  kind : i.kind = .shipFee
  positive : 0 < i.amount.units
  txId : ∀ id, i.txId = some id ↔ r.txId = some id ∧ id ≠ 0
  orderId : ∀ id, i.orderId = some id ↔ r.orderId = some id ∧ id ≠ 0
  /-- If too little is paid, the rest is owed in the direction of the readjustment. -/
  forward : paid.units < r.amount.units → i.fromTeam = r.fromTeam ∧ i.toTeam = r.toTeam ∧
    paid.units + i.amount.units = r.amount.units
  /-- If too much is paid, it is owed back. -/
  backward : r.amount.units < paid.units → i.fromTeam = r.toTeam ∧ i.toTeam = r.fromTeam ∧
    paid.units - i.amount.units = r.amount.units

/-- **What a readjustment does**: to the tables, when it works on a set that they agree with, and with
what outcome. -/
structure Accounts (r : Readjustment) (set : WorkingSet) (t t' : Tables) (o : Outcome) : Prop where
  /-- The open invoices of the set are cancelled, and nothing else about them changes. -/
  cancelled_ids : o.cancelled = openIds set
  cancelled : ∀ i ∈ set, i.Open → t'.invoices.get? i.id = some i.cancel
  /-- The paid ones count. -/
  paid : o.paid.units = Invoice.sumUnits (set.filter fun i => i.status = .paid)
  /-- If they are not the target, one new invoice makes up for the difference. -/
  even : o.created = none ↔ r.amount.units = o.paid.units
  created : ∀ i, o.created = some i → r.Supplies o.paid i
  created_new : ∀ i, o.created = some i → t.invoices.get? i.id = none
  stored : ∀ i, o.created = some i → t'.invoices.get? i.id = some i
  /-- No other invoice changes, and nothing else. -/
  invoices : ∀ id, id ∉ o.cancelled → (∀ i, o.created = some i → i.id ≠ id) →
    t'.invoices.get? id = t.invoices.get? id
  others : t' = { t with invoices := t'.invoices }

variable {r : Readjustment} {set : WorkingSet} {l : Ledger} {s : Session}
  {y : WorkingSet × Ledger × Session}

theorem correlation_eq_some {id? : Option Ident} {id : Ident} :
    correlation id? = some id ↔ id? = some id ∧ id ≠ 0 := by
  simp [correlation, Option.filter_eq_some_iff]

/-- What remains is supplied. -/
theorem supplies_remainder {residual paid : Money} (hzero : residual.isZero = false)
    (hunits : residual.units = r.amount.units - paid.units) (now : Instant) (id : Ident) :
    r.Supplies paid ((r.remainder residual now).withId id) := by
  have amount_eq : ((r.remainder residual now).withId id).amount.units =
      if residual.units < 0 then -residual.units else residual.units := residual.units_abs
  refine {
    status := rfl
    kind := rfl
    positive := Money.abs_units_pos hzero
    txId := fun _ => correlation_eq_some
    orderId := fun _ => correlation_eq_some
    forward := fun hless => ?_
    backward := fun hmore => ?_ }
  · have not_negative : ¬ residual.isNegative = true := by
      rw [Money.isNegative_iff]
      omega
    rw [amount_eq, if_neg (by omega)]
    exact ⟨if_neg not_negative, if_neg not_negative, by omega⟩
  · have negative : residual.isNegative = true := by
      rw [Money.isNegative_iff]
      omega
    rw [amount_eq, if_pos (by omega)]
    exact ⟨if_pos negative, if_pos negative, by omega⟩

/-! ## A set that agrees with what is seen -/

/-- The working set is what the session sees, each row once. -/
structure Current (s : Session) (set : WorkingSet) : Prop where
  there : ∀ i ∈ set, s.view.invoices.get? i.id = some i
  distinct : (set.map (·.id)).Nodup

/-- **A set that was just loaded** is current. -/
theorem current_of_load {q : Query .invoice} {found : List Invoice} (hl : l.Hosts s)
    (h : (load q).Ends (set, l, s) (.ok found) y) : Current y.2.2 y.1 := by
  have hkeyed := hl.shown_keyed
  obtain ⟨hs, ⟨⟨e, he⟩, -⟩ | ⟨-, hset, -⟩⟩ := load_goes hl h
  · cases he
  have hfound := Root.inOrder_perm .invoice (q.select (l.tables.apply s.changes))
  rw [← hset] at hfound
  rw [hs]
  exact ⟨fun i hi => Query.there_of_found hkeyed hfound hi,
    Query.distinct_of_found hkeyed hfound (List.Sublist.refl _)⟩

namespace Current

theorem cancellations_eq (h : Current s set) :
    cancellations s set = ((set.filter fun i => i.Open).map Invoice.cancel).map .invoice := by
  rw [List.map_map]
  exact Session.revisions_eq fun i hi => ⟨h.there i (List.mem_filter.1 hi).1, rfl⟩

variable {added : List Invoice}

/-- The rows that are written have different ids. -/
theorem nodup_rows (h : Current s set) (hnew : ∀ i ∈ added, s.view.invoices.get? i.id = none)
    (hadded : (added.map (·.id)).Nodup) : ((rows set added).map (·.id)).Nodup := by
  unfold rows
  rw [List.map_append, List.map_map]
  refine List.nodup_append.2 ⟨h.distinct.sublist (List.filter_sublist.map _), hadded, ?_⟩
  intro id hid id' hid' heq
  obtain ⟨i, hi, rfl⟩ := List.mem_map.1 hid
  obtain ⟨a, ha, rfl⟩ := List.mem_map.1 hid'
  have there := h.there i (List.mem_filter.1 hi).1
  rw [show i.id = a.id from heq, hnew a ha] at there
  cases there

/-- What has been written is the set again, with what is new. -/
theorem after (h : Current s set) (hnew : ∀ i ∈ added, s.view.invoices.get? i.id = none)
    (hadded : (added.map (·.id)).Nodup) : ∀ i ∈ set.map Invoice.closed ++ added,
      (s.view.putAll ((rows set added).map .invoice)).invoices.get? i.id = some i := by
  intro i hi
  rw [Tables.get?_putAll_invoices (h.nodup_rows hnew hadded)]
  rcases List.mem_append.1 hi with hi | hi
  · obtain ⟨j, hj, rfl⟩ := List.mem_map.1 hi
    by_cases hopen : j.Open
    · rw [Invoice.closed, if_pos hopen]
      refine .inl ⟨List.mem_append_left _ (List.mem_map_of_mem ?_), rfl⟩
      exact List.mem_filter.2 ⟨hj, by simpa using hopen⟩
    · rw [Invoice.closed, if_neg hopen]
      refine .inr ⟨h.there j hj, fun k hk hid => ?_⟩
      rcases List.mem_append.1 hk with hk | hk
      · -- an open invoice of the set is another one
        obtain ⟨i, hi, rfl⟩ := List.mem_map.1 hk
        obtain ⟨hi, hi_open⟩ := List.mem_filter.1 hi
        obtain rfl := List.inj_on_of_nodup_map h.distinct hi hj hid
        exact hopen (by simpa using hi_open)
      · have hnone := hnew k hk
        rw [hid, h.there j hj] at hnone
        cases hnone
  · exact .inl ⟨List.mem_append_right _ hi, rfl⟩

end Current

namespace Stops

variable {p : Progress} {met tail : List Invoice} {result : Except Failure Progress}

/-- **A walk arrives** if all invoices match and the sums can be formed. -/
theorem arrives (hmatch : ∀ i ∈ met ++ tail, r.Matches i)
    (hsub : ∃ m, (paidAmounts (met ++ tail)).foldlM Money.sub p.residual = .ok m)
    (hadd : ∃ m, (paidAmounts (met ++ tail)).foldlM Money.add p.paid = .ok m)
    (h : Stops r p met tail result) : ∃ p', result = .ok p' := by
  cases h with
  | arrived p' => exact ⟨p', rfl⟩
  | mismatched bad rest h => exact absurd (hmatch bad (by simp)) h
  | overflowed i rest operation h =>
    -- a sum that overflows does not come to an end
    have split_eq : met ++ i :: rest = (met ++ [i]) ++ rest := by simp
    rw [split_eq, Invoice.paidAmounts_append, List.foldlM_append] at hsub hadd
    rcases h with h | h
    · obtain ⟨m, hm⟩ := hsub
      rw [h] at hm
      cases hm
    · obtain ⟨m, hm⟩ := hadd
      rw [h] at hm
      cases hm

end Stops

namespace Completed

variable {residual : Money} {o : Outcome}

/-- What is new was not seen before. -/
theorem created_none (h : Completed r set l s y residual o) (hl : l.Hosts s) :
    ∀ i ∈ o.created.toList, s.view.invoices.get? i.id = none := by
  intro i hi
  rcases h.created with ⟨-, hnone⟩ | ⟨-, now, id, hid, hsome⟩
  · rw [hnone] at hi
    cases hi
  · rw [hsome] at hi
    cases List.mem_singleton.1 hi
    exact Option.not_isSome_iff_eq_none.1 fun hused =>
      Int.not_le.2 hid (hl.fits.view_within (.inl hused))

theorem nodup_created (o : Outcome) : (o.created.toList.map (·.id)).Nodup := by
  cases o.created with
  | none => exact List.nodup_nil
  | some i => exact List.nodup_singleton _

theorem session_eq (h : Completed r set l s y residual o) (hset : Current s set) :
    y.2.2 = s.writeAll ((rows set o.created.toList).map .invoice) := by
  rw [h.session, hset.cancellations_eq, ← List.map_append]
  rfl

/-- **The account** of a readjustment that has come to its end. -/
theorem accounts (h : Completed r set l s y residual o) (hl : l.Hosts s) (hset : Current s set)
    (hsums : r.Subtracts set) : r.Accounts set s.view y.2.2.view o := by
  obtain ⟨⟨m, hm, residual_units⟩, total, htotal, total_units⟩ := hsums
  obtain rfl : residual = m := Except.ok.inj (h.left.symm.trans hm)
  obtain rfl : total = o.paid := Except.ok.inj (htotal.symm.trans h.paid)
  rw [← total_units] at residual_units
  have hnew := h.created_none hl
  have hview : y.2.2.view = s.view.putAll ((rows set o.created.toList).map .invoice) := by
    rw [h.session_eq hset, s.view_writeAll (by simp)]
  have hafter := hset.after hnew (nodup_created o)
  have hnodup := hset.nodup_rows hnew (nodup_created o)
  rw [hview]
  refine {
    cancelled_ids := h.cancelled
    cancelled := fun i hi hopen => ?_
    paid := total_units
    even := ?_
    created := fun i hi => ?_
    created_new := fun i hi => hnew i (by rw [hi]; exact List.mem_singleton_self i)
    stored := fun i hi => hafter i (List.mem_append_right _ (by rw [hi]; exact List.mem_singleton_self i))
    invoices := fun id hcancelled hcreated => Option.ext fun i =>
      (Tables.get?_putAll_invoices hnodup).trans ?_
    others := Tables.putAll_invoices_eq .. }
  · have closed_eq : i.closed = i.cancel := if_pos hopen
    have := hafter i.closed (List.mem_append_left _ (List.mem_map_of_mem hi))
    rwa [closed_eq] at this
  · -- nothing remains just when the paid amounts are the target
    have zero_iff : residual.isZero = true ↔ r.amount.units = o.paid.units := by
      rw [Money.isZero_iff]
      omega
    rw [← zero_iff]
    rcases h.created with ⟨hzero, hnone⟩ | ⟨hnonzero, now, id, -, hsome⟩
    · simp [hzero, hnone]
    · simp [hnonzero, hsome]
  · rcases h.created with ⟨-, hnone⟩ | ⟨hnonzero, now, id, -, hsome⟩
    · cases hi.symm.trans hnone
    · cases hi.symm.trans hsome
      exact supplies_remainder hnonzero residual_units now id
  · -- a row under another id is none of those written
    have others : ∀ j ∈ rows set o.created.toList, j.id ≠ id := by
      intro j hj hid
      rcases List.mem_append.1 hj with hj | hj
      · obtain ⟨k, hk, rfl⟩ := List.mem_map.1 hj
        refine hcancelled ?_
        rw [h.cancelled, ← hid]
        show k.id ∈ (set.filter fun i => i.Open).map (·.id)
        exact List.mem_map_of_mem hk
      · exact hcreated j (Option.mem_toList.1 hj) hid
    constructor
    · rintro (⟨hi, hid⟩ | ⟨hi, -⟩)
      · exact absurd hid (others i hi)
      · exact hi
    · exact fun hi => .inr ⟨hi, others⟩

end Completed

end Readjustment

/-! ## End to end -/

namespace World

variable {w w₁ w₂ : World} {name : String} {s : Session} {q : Query .invoice}
  {set₀ set : Readjustment.WorkingSet} {found : List Invoice} {r : Readjustment}

/-- **One readjustment accounts for the target.** A set has been loaded, and the session is as the
loading left it, whatever others have done since. If all invoices of the set match, the readjustment
names a transaction or an order, and the sums are exact, then it succeeds; the open invoices are
cancelled, and the paid ones and the new one make the target. It writes this and nothing else, and its
working set is what the session sees then. -/
theorem readjust_accounts (hw : w.Sound)
    (hload : w.run name none (Readjustment.load q set₀) = some ((.ok found, set), w₁))
    (hs : w₁.open? name = some s) (hw₂ : w₂.Sound) (hs₂ : w₂.open? name = some s)
    (hmatch : ∀ i ∈ set, r.Matches i) (hcorrelated : r.Correlated) (hsums : r.Subtracts set) :
    ∃ o set' w' s', w₂.run name none (r.apply set) = some ((.ok o, set'), w') ∧
      w'.open? name = some s' ∧ r.Accounts set s.view s'.view o ∧
      s' = s.writeAll ((Readjustment.rows set o.created.toList).map .invoice) ∧
      set' = set.map Invoice.closed ++ o.created.toList ∧
      (∀ i ∈ set', s'.view.invoices.get? i.id = some i) ∧ w'.ledger.tables = w₂.ledger.tables ∧
      ∀ other, other ≠ name → w'.open? other = w₂.open? other := by
  have hset : Readjustment.Current s set := by
    obtain ⟨s₀, s₁, hs₀, hs₁, -, hends, -, -⟩ := hw.served hload
    cases hs.symm.trans hs₁
    exact Readjustment.current_of_load (hw.hosts hs₀) hends
  have hl := hw₂.hosts hs₂
  obtain ⟨result, set', w', s', hrun, hs', hends, htables, hothers⟩ := hw₂.serve hs₂ r.apply set
  have subtracted : ∃ m, (Invoice.paidAmounts set).foldlM Money.sub r.amount = .ok m :=
    hsums.1.imp fun m hm => hm.1
  have added : ∃ m, (Invoice.paidAmounts set).foldlM Money.add .zero = .ok m :=
    hsums.2.imp fun m hm => hm.1
  rcases Readjustment.apply_goes hl hends with ⟨-, -, hnot⟩ |
    ⟨-, ⟨met, tail, e, rfl, -, -, hstops⟩ | ⟨o, residual, rfl, hdone⟩⟩
  · exact absurd hcorrelated hnot
  · -- nothing stops the walk
    obtain ⟨p, hp⟩ := hstops.arrives hmatch subtracted added
    cases hp
  have session_eq := hdone.session_eq hset
  have hset' : set' = set.map Invoice.closed ++ o.created.toList := hdone.working
  dsimp only at session_eq
  refine ⟨o, set', w', s', hrun, hs', hdone.accounts hl hset hsums, session_eq, hset', ?_, htables,
    hothers⟩
  rw [hset', session_eq, s.view_writeAll (by simp)]
  exact hset.after (hdone.created_none hl) (Readjustment.Completed.nodup_created o)

/-- An invoice of every status for one order: 30 not final, 20 unpaid, 40 paid, 10 cancelled. -/
def fourInvoices : List NewInvoice :=
  [(.notFinal, 30), (.notPaid, 20), (.paid, 40), (.cancelled, 10)].map fun row =>
    { fromTeam := 1, toTeam := 2, kind := .product, status := row.1,
      amount := (Money.ofParts? row.2 0).getD .zero, orderId := some 7, created := .ofSecond 0 }

/-- The order shall come to 25. -/
def twentyFive : Readjustment :=
  { fromTeam := 1, toTeam := 2, amount := (Money.ofParts? 25 0).getD .zero, txId := some 0,
    orderId := some 7 }

/-- More is paid than shall be, and 15 are owed back. -/
theorem readjust_accounts_overpaid : ∃ (w w₁ : World) (s : Session)
    (set₀ set : Readjustment.WorkingSet) (found : List Invoice), w.Sound ∧
    w.run "first" none (Readjustment.load (.ofPair 1 2 7) set₀) = some ((.ok found, set), w₁) ∧
    w₁.open? "first" = some s ∧ w₁.Sound ∧ (∀ i ∈ set, twentyFive.Matches i) ∧
    twentyFive.Correlated ∧ twentyFive.Subtracts set ∧ ∃ o set' w' i,
      w₁.run "first" none (twentyFive.apply set) = some ((.ok o, set'), w') ∧ o.cancelled = [1, 2] ∧
      o.created = some i ∧ i.fromTeam = 2 ∧ i.toTeam = 1 ∧ i.amount.units = 15 * 10 ^ 28 := by
  have key (w w₁ : World) (s : Session) (set₀ set : Readjustment.WorkingSet)
      (found : List Invoice) (hw : w.Sound)
      (hload : w.run "first" none (Readjustment.load (.ofPair 1 2 7) set₀) =
        some ((.ok found, set), w₁)) (hs : w₁.open? "first" = some s)
      (hset : set = List.zipWith NewInvoice.withId fourInvoices [1, 2, 3, 4]) :
      w₁.Sound ∧ (∀ i ∈ set, twentyFive.Matches i) ∧ twentyFive.Correlated ∧
        twentyFive.Subtracts set ∧ ∃ o set' w' i,
        w₁.run "first" none (twentyFive.apply set) = some ((.ok o, set'), w') ∧
        o.cancelled = [1, 2] ∧ o.created = some i ∧ i.fromTeam = 2 ∧ i.toTeam = 1 ∧
        i.amount.units = 15 * 10 ^ 28 := by
    have hmatch : ∀ i ∈ set, twentyFive.Matches i := by
      rw [hset]
      decide
    have hcorrelated : twentyFive.Correlated := .inr (by decide)
    have hsums : twentyFive.Subtracts set := by
      rw [hset]
      exact ⟨⟨⟨-15, 0, by decide, by decide⟩, by decide +kernel, by decide +kernel⟩,
        (Money.ofParts? 40 0).getD .zero, by decide +kernel, by decide +kernel⟩
    have hw₁ := hw.run hload
    refine ⟨hw₁, hmatch, hcorrelated, hsums, ?_⟩
    obtain ⟨o, set', w', s', hrun, -, haccounts, -⟩ :=
      readjust_accounts hw hload hs hw₁ hs hmatch hcorrelated hsums
    have paid_eq : o.paid.units = 40 * 10 ^ 28 := by
      rw [haccounts.paid, hset]
      decide +kernel
    have target_eq : twentyFive.amount.units = 25 * 10 ^ 28 := by decide +kernel
    have uneven : o.created ≠ none := by
      rw [Ne, haccounts.even, paid_eq, target_eq]
      decide
    obtain ⟨i, hi⟩ := Option.ne_none_iff_exists'.1 uneven
    obtain ⟨hfrom, hto, hbalance⟩ := (haccounts.created i hi).backward (by
      rw [paid_eq, target_eq]
      decide)
    refine ⟨o, set', w', i, hrun, ?_, hi, hfrom, hto, by omega⟩
    rw [haccounts.cancelled_ids, hset]
    decide
  have hw := (Sound.start { clock := ⟨.ofSecond 5⟩ }).happenAll
    (.begin "first" :: fourInvoices.map fun new => .call "first" (.insertInvoice new))
  exact ⟨_, _, _, [], _, _, hw, rfl, rfl, key _ _ _ [] _ _ hw rfl rfl (by decide +kernel)⟩

end World

end TeamLedger
