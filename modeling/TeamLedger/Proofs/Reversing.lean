/-
What adjustments store.

For every invoice that can be adjusted one new invoice is stored, of the opposite
direction (`Invoice.Reversal`), in the order of the invoices. Each is a move by
itself, made on what the session's commit would leave.
-/
import Mathlib.Data.List.Forall2
import TeamLedger.Proofs.Effects

set_option autoImplicit false

namespace TeamLedger

/-- The second invoice is the adjustment of the first as it is stored at a time: what one team owed the
other, the other one owes it back. -/
structure Invoice.Reversal (now : Instant) (i a : Invoice) : Prop where
  proper : i.kind.isAdjustment = false
  fromTeam : a.fromTeam = i.toTeam
  toTeam : a.toTeam = i.fromTeam
  kind : a.kind = i.kind.adjustment
  status : a.status = .notPaid
  amount : a.amount = i.amount
  txId : a.txId = none
  orderId : a.orderId = i.orderId
  hasSubmission : a.hasSubmission = false
  needAdjustment : a.needAdjustment = false
  historyId : a.historyId = none
  created : a.created = now
  paidAt : a.paidAt = none
  acceptedAt : a.acceptedAt = none

/-- What is stored for an invoice that calls for an adjustment. -/
theorem Invoice.reversal_of_adjustment? {i : Invoice} {now : Instant} {new : NewInvoice}
    (h : i.adjustment? now = some new) (id : Ident) : i.Reversal now (new.withId id) := by
  unfold adjustment? at h
  split at h
  next => cases h
  next hproper =>
    cases h
    exact ⟨Bool.eq_false_iff.2 hproper, rfl, rfl, rfl, rfl, rfl, rfl, rfl, rfl, rfl, rfl, rfl, rfl, rfl⟩

/-- Every adjustment is that of one of the invoices. -/
theorem Invoice.exists_reversed {now : Instant} {is added : List Invoice} {a : Invoice}
    (h : List.Forall₂ (Reversal now) is added) (ha : a ∈ added) : ∃ i ∈ is, i.Reversal now a := by
  induction h with
  | nil => cases ha
  | cons hfirst hrest ih =>
    rcases List.mem_cons.1 ha with rfl | ha
    · exact ⟨_, List.mem_cons_self, hfirst⟩
    · obtain ⟨i, hi, hreversal⟩ := ih ha
      exact ⟨i, List.mem_cons_of_mem _ hi, hreversal⟩

/-- Only adjustments are not adjusted. -/
theorem Invoice.adjustment?_eq_none_iff {i : Invoice} {now : Instant} :
    i.adjustment? now = none ↔ i.kind.isAdjustment = true := by
  unfold adjustment?
  split <;> simp [*]

/-- Storing an invoice is a move, on what the session's commit would leave. -/
theorem Ledger.Hosts.insert {l : Ledger} {s : Session} (h : l.Hosts s) (strict : Prop)
    (new : NewInvoice) (hpos : strict → 0 < new.amount.units) :
    Move strict (l.tables.apply s.changes) (s.writes l (.insertInvoice new)) := by
  refine .insert (new.withId l.newId.1) ?_ rfl hpos
  exact Option.not_isSome_iff_eq_none.1 fun hused => h.newId_unused (.inl hused)

/-- Storing new invoices one after the other. -/
theorem Moves.of_new {strict : Prop} {t : Tables} {is : List Invoice}
    (hnew : ∀ i ∈ is, t.invoices.get? i.id = none) (hdistinct : (is.map (·.id)).Nodup)
    (hunsettled : ∀ i ∈ is, i.historyId = none) (hpos : strict → ∀ i ∈ is, 0 < i.amount.units) :
    Moves strict t (is.map .invoice) := by
  induction is generalizing t with
  | nil => exact .nil t
  | cons i is ih =>
    rw [List.forall_mem_cons] at hnew hunsettled
    rw [List.map_cons, List.nodup_cons] at hdistinct
    have first : Move strict t [.invoice i] :=
      .insert i hnew.1 hunsettled.1 fun hs => hpos hs i List.mem_cons_self
    refine first.moves.append (ih (fun j hj => ?_) hdistinct.2 hunsettled.2 fun hs j hj =>
      hpos hs j (List.mem_cons_of_mem _ hj))
    have hne : j.id ≠ i.id := fun heq => hdistinct.1 (heq ▸ List.mem_map_of_mem hj)
    show (t.invoices.insert i.id i).get? j.id = none
    rw [Rows.get?_insert, if_neg hne]
    exact hnew.2 j hj

/-- **Adjustments are stored**, one for each invoice that is not one itself, in their order and under
ascending new ids. Nothing here can fail. -/
theorem Adjustments.insertAll_ends {σ : Type} {now : Instant} {is : List Invoice} {st : σ} {l : Ledger}
    {s : Session} {y : σ × Ledger × Session} {r : Except Failure (List Invoice)} (hl : l.Hosts s)
    (h : (insertAll now is : Service σ (List Invoice)).Ends (st, l, s) r y) :
    ∃ added : List Invoice, r = .ok added ∧ y.1 = st ∧ y.2.2 = s.writeAll (added.map .invoice) ∧
      List.Forall₂ (Invoice.Reversal now) (is.filter fun i => !i.kind.isAdjustment) added ∧
      added.Pairwise (·.id < ·.id) ∧ ∀ a ∈ added, (l.lastId : Ident) < a.id := by
  induction is generalizing l s r y with
  | nil =>
    obtain ⟨rfl, rfl⟩ := Service.Ends.pure h
    exact ⟨[], rfl, rfl, rfl, .nil, .nil, fun i hi => nomatch hi⟩
  | cons i rest ih =>
    unfold insertAll at h
    cases hadj : i.adjustment? now with
    | none =>
      rw [hadj] at h
      rw [List.filter_cons_of_neg (by simpa using Invoice.adjustment?_eq_none_iff.1 hadj)]
      exact ih hl h
    | some new =>
      rw [hadj] at h
      have hreversal := Invoice.reversal_of_adjustment? hadj l.newId.1
      rw [List.filter_cons_of_pos (by simpa using hreversal.proper)]
      have hwrites : s.writes l (.insertInvoice new) = [.invoice (new.withId l.newId.1)] := rfl
      obtain ⟨l', hgrants, hl', h⟩ := Service.Ends.write_bind h hl rfl rfl hwrites
      -- the id that the invoice has got is behind those of the others
      have hid : (new.withId l.newId.1).id ≤ l'.lastId := by
        refine hl'.uses_le (.inl ?_)
        rw [Session.apply_writeAll hgrants (by simp)]
        show ((Rows.insert _ _ _).get? _).isSome = true
        rw [Rows.get?_insert, if_pos rfl]
        rfl
      rcases h.count_bind.bind with ⟨e, -, hrest⟩ | ⟨stored, z, hrest, hpure⟩
      · obtain ⟨added, ha, -⟩ := ih hl' hrest
        cases ha
      · obtain ⟨added, hstored, hst, hs, hadded, hascending, hnew⟩ := ih hl' hrest
        cases hstored
        obtain ⟨rfl, rfl⟩ := hpure.pure
        refine ⟨new.withId l.newId.1 :: stored, rfl, hst, ?_, .cons hreversal hadded, ?_, ?_⟩
        · rw [hs, Session.writeAll_writeAll]
          rfl
        · exact .cons (fun a ha => Int.lt_of_le_of_lt hid (hnew a ha)) hascending
        · intro a ha
          rcases List.mem_cons.1 ha with rfl | ha
          · exact Int.not_le.1 l.not_newId_le
          · exact Int.lt_of_le_of_lt (Int.ofNat_le.2 hgrants.lastId) (hnew a ha)

theorem Adjustments.create_ends {σ : Type} {is : List Invoice} {st : σ} {l : Ledger} {s : Session}
    {y : σ × Ledger × Session} {r : Except Failure (List Invoice)} (hl : l.Hosts s)
    (h : (create is : Service σ (List Invoice)).Ends (st, l, s) r y) :
    ∃ (now : Instant) (added : List Invoice), r = .ok added ∧ y.1 = st ∧
      y.2.2 = s.writeAll (added.map .invoice) ∧
      List.Forall₂ (Invoice.Reversal now) (is.filter fun i => !i.kind.isAdjustment) added ∧
      added.Pairwise (·.id < ·.id) ∧ ∀ a ∈ added, (l.lastId : Ident) < a.id := by
  obtain ⟨now, h⟩ := Service.Ends.now_bind h
  exact ⟨now, insertAll_ends hl h⟩

end TeamLedger
