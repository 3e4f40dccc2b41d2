/-
Every payment settles one submission, and every accepted submission is settled by
one payment.

The amount of a submission is that of its invoices from the day it is created:
links are only written then, and amounts never change. A submission is accepted
with the sum of its payable invoices. Those that are cancelled are passed over,
but as amounts are positive the sum would fall short without them, so there are
none; all invoices of an accepted submission are paid by its payment. From then
on nothing touches them: they cannot be cancelled, and they are in no other batch
that may still be accepted.
-/
import TeamLedger.Proofs.Batches

set_option autoImplicit false

namespace TeamLedger

/-! ## What it is to be settled -/

/-- The invoices that are linked to a submission. -/
def Tables.linked (t : Tables) (a : Ident) : List Invoice :=
  (t.links.filter (·.submissionId = a)).filterMap fun l => t.invoices.get? l.invoiceId

/-- The payment `h` is for the submission `a`: the submission is accepted and has the same amount, the
invoices that the payment settles are those linked to it, and all of them are paid. -/
def Tables.Pays (t : Tables) (h a : Ident) : Prop :=
  ∃ row x, t.histories.get? h = some row ∧ t.submissions.get? a = some x ∧ x.status = .accepted ∧
    row.amount = x.amount ∧ ∀ id i, t.invoices.get? id = some i →
      (i.historyId = some h ↔ ⟨id, a⟩ ∈ t.links) ∧ (⟨id, a⟩ ∈ t.links → i.status = .paid)

/-- Submissions have the amounts of their invoices, and payments and accepted submissions belong
together one by one. -/
structure Tables.Settled (t : Tables) : Prop where
  sums : ∀ a x, t.submissions.get? a = some x →
    (t.linked a).Nodup ∧ Invoice.sumUnits (t.linked a) = x.amount.units
  payments : ∀ h row, t.histories.get? h = some row → ∃! a, t.Pays h a
  accepted : ∀ a x, t.submissions.get? a = some x → x.status = .accepted → ∃! h, t.Pays h a

/-- What single moves keep. -/
structure Tables.Accounted (t : Tables) : Prop where
  sums : ∀ a x, t.submissions.get? a = some x → Invoice.sumUnits (t.linked a) = x.amount.units
  some_linked : ∀ a x, t.submissions.get? a = some x → ∃ i, ⟨i, a⟩ ∈ t.links
  alone : ∀ i a b x y, ⟨i, a⟩ ∈ t.links → ⟨i, b⟩ ∈ t.links → t.submissions.get? a = some x →
    t.submissions.get? b = some y → x.status ≠ .rejected → y.status ≠ .rejected → a = b
  noted : ∀ id i h, t.invoices.get? id = some i → i.historyId = some h →
    (t.histories.get? h).isSome
  payments : ∀ h row, t.histories.get? h = some row → ∃ a, t.Pays h a
  accepted : ∀ a x, t.submissions.get? a = some x → x.status = .accepted → ∃ h, t.Pays h a

/-! ## Sums -/

namespace Invoice

/-- Different invoices out of a list with positive amounts come to no more than the whole list. -/
theorem sumUnits_le {part all : List Invoice} (hnodup : part.Nodup) (hsub : part ⊆ all)
    (hpos : ∀ i ∈ all, 0 < i.amount.units) : sumUnits part ≤ sumUnits all := by
  induction part generalizing all with
  | nil =>
    induction all with
    | nil => exact Int.le_refl _
    | cons i all ih =>
      have hi := hpos i List.mem_cons_self
      have hrest := ih (List.nil_subset _) fun j hj => hpos j (List.mem_cons_of_mem _ hj)
      rw [sumUnits_cons]
      omega
  | cons i part ih =>
    obtain ⟨hi, hnodup⟩ := List.nodup_cons.1 hnodup
    -- take the first invoice out of both
    obtain ⟨before, after, rfl⟩ := List.append_of_mem (hsub List.mem_cons_self)
    have hrest : part ⊆ before ++ after := by
      intro j hj
      have hne : j ≠ i := fun heq => hi (heq ▸ hj)
      rcases List.mem_append.1 (hsub (List.mem_cons_of_mem _ hj)) with hj | hj
      · exact List.mem_append_left _ hj
      · exact List.mem_append_right _ ((List.mem_cons.1 hj).resolve_left hne)
    have := ih hnodup hrest fun j hj => by
      rcases List.mem_append.1 hj with hj | hj
      · exact hpos j (List.mem_append_left _ hj)
      · exact hpos j (List.mem_append_right _ (List.mem_cons_of_mem _ hj))
    rw [sumUnits_append] at this
    rw [sumUnits_cons, sumUnits_append, sumUnits_cons]
    omega

/-- If they come to the whole, they are all of it. -/
theorem mem_of_sumUnits_eq {part all : List Invoice} (hnodup : part.Nodup) (hsub : part ⊆ all)
    (hpos : ∀ i ∈ all, 0 < i.amount.units) (heq : sumUnits part = sumUnits all) {i : Invoice}
    (hi : i ∈ all) : i ∈ part := by
  by_contra hne
  have := sumUnits_le (List.nodup_cons.2 ⟨hne, hnodup⟩) (List.cons_subset.2 ⟨hi, hsub⟩) hpos
  rw [sumUnits_cons] at this
  have := hpos i hi
  omega

end Invoice

namespace Tables

variable {t u : Tables}

theorem mem_linked {a : Ident} {i : Invoice} (ht : t.Keyed) :
    i ∈ t.linked a ↔ ⟨i.id, a⟩ ∈ t.links ∧ t.invoices.get? i.id = some i := by
  unfold linked
  rw [List.mem_filterMap]
  constructor
  · rintro ⟨⟨id, b⟩, hmem, hget⟩
    obtain ⟨hl, hb⟩ := List.mem_filter.1 hmem
    obtain rfl : b = a := by simpa using hb
    obtain rfl : i.id = id := ht.invoices _ _ hget
    exact ⟨hl, hget⟩
  · rintro ⟨hl, hget⟩
    exact ⟨⟨i.id, a⟩, List.mem_filter.2 ⟨hl, by simp⟩, hget⟩

/-- The sum of a submission depends only on its links and on the amounts of their invoices. -/
theorem sumUnits_linked {a : Ident}
    (hlinks : u.links.filter (·.submissionId = a) = t.links.filter (·.submissionId = a))
    (hamount : ∀ id, ⟨id, a⟩ ∈ t.links → ∃ i j, t.invoices.get? id = some i ∧
      u.invoices.get? id = some j ∧ j.amount = i.amount) :
    Invoice.sumUnits (u.linked a) = Invoice.sumUnits (t.linked a) := by
  unfold linked
  rw [hlinks]
  have same : ∀ l ∈ t.links.filter (·.submissionId = a), ∃ i j, t.invoices.get? l.invoiceId = some i ∧
      u.invoices.get? l.invoiceId = some j ∧ j.amount = i.amount := by
    rintro ⟨id, b⟩ hmem
    obtain ⟨hl, hb⟩ := List.mem_filter.1 hmem
    obtain rfl : b = a := by simpa using hb
    exact hamount id hl
  generalize t.links.filter (·.submissionId = a) = ls at same
  induction ls with
  | nil => rfl
  | cons l ls ih =>
    obtain ⟨i, j, hi, hj, hij⟩ := same l List.mem_cons_self
    rw [List.filterMap_cons_some (f := fun l : Link => t.invoices.get? l.invoiceId) hi,
      List.filterMap_cons_some (f := fun l : Link => u.invoices.get? l.invoiceId) hj,
      Invoice.sumUnits_cons, Invoice.sumUnits_cons, hij,
      ih fun l hl => same l (List.mem_cons_of_mem _ hl)]

theorem sumUnits_rows {a : Ident} {is : List Invoice}
    (h : ∀ i ∈ is, ∃ j, u.invoices.get? i.id = some j ∧ j.amount = i.amount) :
    Invoice.sumUnits ((is.map fun i => (⟨i.id, a⟩ : Link)).filterMap fun l =>
      u.invoices.get? l.invoiceId) = Invoice.sumUnits is := by
  rw [List.filterMap_map]
  show Invoice.sumUnits (is.filterMap fun i => u.invoices.get? i.id) = _
  induction is with
  | nil => rfl
  | cons i is ih =>
    obtain ⟨j, hj, hamount⟩ := h i List.mem_cons_self
    rw [List.filterMap_cons_some (f := fun i : Invoice => u.invoices.get? i.id) hj,
      Invoice.sumUnits_cons, Invoice.sumUnits_cons, hamount,
      ih fun i hi => h i (List.mem_cons_of_mem _ hi)]

end Tables

/-! ## What strict moves do to invoices and submissions -/

variable {strict : Prop} {t : Tables} {ps : List Put}

/-- An invoice that a strict move writes is new and settled by nothing, or it was there. If it was
paid it is so still, by the same payment; and if its payment is another one than before, the move has
just added it. -/
theorem Move.payment_written (m : Move strict t ps) (hs : strict) {j : Invoice}
    (hj : Put.invoice j ∈ ps) : t.invoices.get? j.id = none ∧ j.historyId = none ∨
      ∃ i, t.invoices.get? j.id = some i ∧
        (i.status = .paid → j.status = .paid ∧ j.historyId = i.historyId) ∧
        (j.historyId = i.historyId ∨ ∃ h, Put.history h ∈ ps ∧ j.historyId = some h.id) := by
  have unpaid {i : Invoice} (h : i.status = .notPaid) : i.status ≠ .paid := by
    rw [h]
    exact fun hpaid => nomatch hpaid
  cases m with
  | insert i new unsettled =>
    obtain rfl : j = i := by simpa using hj
    exact .inl ⟨new, unsettled⟩
  | cancel i there hunpaid =>
    obtain rfl : j = { i with status := .cancelled } := by simpa using hj
    exact .inr ⟨i, there, fun hpaid => absurd hpaid (hunpaid hs), .inl rfl⟩
  | batch x taken e numbered new submitted distinct there hunpaid =>
    obtain ⟨i, hi, rfl⟩ : ∃ i ∈ taken, j = { i with hasSubmission := true } := by
      simpa [eq_comm] using hj
    exact .inr ⟨i, there i hi, fun hpaid => absurd hpaid (unpaid (hunpaid i hi)), .inl rfl⟩
  | accept x user e h settlement payable _ _ _ _ settles _ there hunpaid =>
    obtain ⟨i, hi, rfl⟩ : ∃ i ∈ payable, j = i.settled settlement := by simpa [eq_comm] using hj
    refine .inr ⟨i, there i hi, fun hpaid => absurd hpaid (unpaid (hunpaid i hi)), .inr ⟨h, ?_, ?_⟩⟩
    · simp
    · rw [← settles]
      rfl
  | reject x user e freed there submitted freed_there =>
    obtain ⟨i, hi, rfl⟩ : ∃ i ∈ freed, j = { i with hasSubmission := false } := by
      simpa [eq_comm] using hj
    exact .inr ⟨i, freed_there i hi, fun hpaid => ⟨hpaid, rfl⟩, .inl rfl⟩

/-- A payment that a move adds is new. -/
theorem Move.history_new (m : Move strict t ps) {h : History} (hh : Put.history h ∈ ps) :
    t.histories.get? h.id = none := by
  cases m with
  | accept x user e hist settlement payable there submitted new =>
    obtain rfl : h = hist := by simpa using hh
    exact new
  | _ => simp at hh

/-- A submission after a move was there before with the same amount, and if it is not rejected now it
was not before; or the move has stored it. -/
theorem Move.submission_after (m : Move strict t ps) {a : Ident} {y : Submission}
    (hy : (t.putAll ps).submissions.get? a = some y) :
    (∃ x, t.submissions.get? a = some x ∧ y.amount = x.amount ∧
      (y.status ≠ .rejected → x.status ≠ .rejected)) ∨
    t.submissions.get? a = none ∧ y.id = a ∧ Put.submission y ∈ ps := by
  rcases Tables.submission_putAll t ps a with ⟨hget, -⟩ | ⟨z, hz, rfl, hget⟩
  · exact .inl ⟨y, hget.symm.trans hy, rfl, id⟩
  · cases hy.symm.trans hget
    cases m with
    | insert | cancel => simp at hz
    | batch x taken e numbered new =>
      obtain rfl : y = x := by simpa using hz
      exact .inr ⟨new, rfl, hz⟩
    | accept x user e h settlement payable there submitted =>
      obtain rfl : y = { x with status := .accepted, completedBy := user } := by simpa using hz
      refine .inl ⟨x, there, rfl, fun _ hrejected => ?_⟩
      rw [submitted] at hrejected
      cases hrejected
    | reject x user e freed there =>
      obtain rfl : y = { x with status := .rejected, completedBy := user } := by simpa using hz
      exact .inl ⟨x, there, rfl, fun hne => absurd rfl hne⟩

/-- A link that a move adds leads from an unpaid invoice to a new submission. -/
theorem Move.link_written (m : Move strict t ps) {l : Link} (hl : Put.link l ∈ ps) :
    t.submissions.get? l.submissionId = none ∧
      ∃ i, t.invoices.get? l.invoiceId = some i ∧ i.status = .notPaid := by
  cases m with
  | batch x taken e numbered new submitted distinct there unpaid =>
    obtain ⟨i, hi, rfl⟩ : ∃ i ∈ taken, l = ⟨i.id, x.id⟩ := by simpa [eq_comm] using hl
    exact ⟨new, i, there i hi, unpaid i hi⟩
  | _ => simp at hl

/-! ## Payments -/

/-- A payment goes on being for the same submission. -/
theorem Move.pays (m : Move strict t ps) (hs : strict) (ht : t.Connected) {g a : Ident}
    (hp : t.Pays g a) : (t.putAll ps).Pays g a := by
  obtain ⟨row, x, hrow, hx, haccepted, hamount, hinvoices⟩ := hp
  have link_iff {id : Ident} : ⟨id, a⟩ ∈ (t.putAll ps).links ↔ ⟨id, a⟩ ∈ t.links := by
    rw [Tables.mem_links_putAll]
    refine ⟨fun hl => hl.resolve_right fun hl => ?_, .inl⟩
    cases hx.symm.trans (m.link_written hl).1
  refine ⟨row, x, ?_, ?_, haccepted, hamount, fun id i hi => ?_⟩
  · rcases Tables.history_putAll t ps g with ⟨hget, -⟩ | ⟨z, hz, rfl, -⟩
    · exact hget.trans hrow
    · cases hrow.symm.trans (m.history_new hz)
  · rcases Tables.submission_putAll t ps a with ⟨hget, -⟩ | ⟨z, hz, rfl, -⟩
    · exact hget.trans hx
    · rcases m.submission_written hz with ⟨hnone, -⟩ | ⟨y, hy, hsubmitted, -⟩
      · cases hx.symm.trans hnone
      · cases hx.symm.trans hy
        rw [haccepted] at hsubmitted
        cases hsubmitted
  · rw [link_iff]
    rcases Tables.invoice_putAll t ps id with ⟨hget, -⟩ | ⟨j, hj, rfl, hget⟩
    · exact hinvoices id i (hget.symm.trans hi)
    · cases hi.symm.trans hget
      rcases m.payment_written hs hj with ⟨hnone, hunsettled⟩ | ⟨k, hk, hpaid, hhistory⟩
      · have unlinked : ⟨i.id, a⟩ ∉ t.links := by
          intro hl
          have := (ht _ hl).1
          rw [hnone] at this
          cases this
        rw [hunsettled]
        exact ⟨⟨fun h => (nomatch h), fun hl => absurd hl unlinked⟩, fun hl => absurd hl unlinked⟩
      · obtain ⟨hiff, hlinked⟩ := hinvoices i.id k hk
        refine ⟨⟨fun hsome => ?_, fun hl => ?_⟩, fun hl => (hpaid (hlinked hl)).1⟩
        · rcases hhistory with heq | ⟨z, hz, heq⟩
          · exact hiff.1 (heq.symm.trans hsome)
          · -- the payment is not the one that was just added
            cases hsome.symm.trans heq
            cases hrow.symm.trans (m.history_new hz)
        · exact (hpaid (hlinked hl)).2.trans (hiff.2 hl)

/-- **A payment that a move adds is for the submission that the move accepts.** All invoices of the
submission are payable, because the sum would fall short otherwise. -/
theorem Move.new_payment (m : Move strict t ps) (hs : strict) (ht : Built strict t)
    (h : t.Accounted) : (∀ g, Put.history g ∈ ps → ∃ a, (t.putAll ps).Pays g.id a) ∧
      ∀ y, Put.submission y ∈ ps → y.status = .accepted → ∃ g, (t.putAll ps).Pays g y.id := by
  cases m with
  | insert | cancel => exact ⟨fun g hg => by simp at hg, fun y hy => by simp at hy⟩
  | batch x taken e numbered new submitted =>
    refine ⟨fun g hg => by simp at hg, fun y hy haccepted => ?_⟩
    obtain rfl : y = x := by simpa using hy
    rw [submitted] at haccepted
    cases haccepted
  | reject x user e freed =>
    refine ⟨fun g hg => by simp at hg, fun y hy haccepted => ?_⟩
    obtain rfl : y = { x with status := .rejected, completedBy := user } := by simpa using hy
    cases haccepted
  | accept x user e hist settlement payable there submitted new amount settles distinct
      payable_there unpaid linked rest sum =>
    generalize hps : Put.submission { x with status := .accepted, completedBy := user } ::
      .logEntry e :: .history hist :: payable.map (fun i => Put.invoice (i.settled settlement)) = ps
    have payable_all {i : Invoice} (hl : ⟨i.id, x.id⟩ ∈ t.links)
        (hi : t.invoices.get? i.id = some i) : i ∈ payable := by
      have hnodup : payable.Nodup :=
        List.Pairwise.of_map _ (fun i j hne heq => hne (congrArg Invoice.id heq)) distinct
      have hsub : payable ⊆ t.linked x.id :=
        fun j hj => (Tables.mem_linked ht.keyed).2 ⟨linked j hj, payable_there j hj⟩
      refine Invoice.mem_of_sumUnits_eq hnodup hsub ?_ ?_ ?_
      · exact fun j hj => ht.positive hs ((Tables.mem_linked ht.keyed).1 hj).2
      · rw [sum hs, h.sums x.id x there]
      · exact (Tables.mem_linked ht.keyed).2 ⟨hl, hi⟩
    have pays : (t.putAll ps).Pays hist.id x.id := by
      refine ⟨hist, { x with status := .accepted, completedBy := user }, ?_, ?_, rfl, amount,
        fun id i hi => ?_⟩
      · rcases Tables.history_putAll t ps hist.id with ⟨-, hne⟩ | ⟨z, hz, -, hget⟩
        · exact absurd rfl (hne hist (by simp [← hps]))
        · obtain rfl : z = hist := by simpa [← hps] using hz
          exact hget
      · rcases Tables.submission_putAll t ps x.id with ⟨-, hne⟩ | ⟨z, hz, -, hget⟩
        · refine absurd rfl (hne { x with status := .accepted, completedBy := user } ?_)
          rw [← hps]
          exact List.mem_cons_self
        · obtain rfl : z = { x with status := .accepted, completedBy := user } := by
            simpa [← hps] using hz
          exact hget
      · rw [Tables.links_putAll_of_none t ps (by simp [← hps])]
        rcases Tables.invoice_putAll t ps id with ⟨hget, hne⟩ | ⟨j, hj, rfl, hget⟩
        · have hthere := hget.symm.trans hi
          obtain rfl : i.id = id := ht.keyed.invoices _ _ hthere
          have unlinked : ⟨i.id, x.id⟩ ∉ t.links := by
            intro hl
            have hpayable := payable_all hl hthere
            refine hne (i.settled settlement) ?_ rfl
            simp only [← hps, List.mem_cons, List.mem_map]
            exact .inr (.inr (.inr ⟨i, hpayable, rfl⟩))
          refine ⟨⟨fun hsome => ?_, fun hl => absurd hl unlinked⟩, fun hl => absurd hl unlinked⟩
          have := h.noted i.id i hist.id hthere hsome
          rw [new] at this
          cases this
        · cases hi.symm.trans hget
          obtain ⟨k, hk, rfl⟩ : ∃ k ∈ payable, i = k.settled settlement := by
            simpa [← hps, eq_comm] using hj
          refine ⟨⟨fun _ => linked k hk, fun _ => ?_⟩, fun _ => rfl⟩
          rw [← settles]
          rfl
    refine ⟨fun g hg => ?_, fun y hy _ => ?_⟩
    · obtain rfl : g = hist := by simpa [← hps] using hg
      exact ⟨x.id, pays⟩
    · obtain rfl : y = { x with status := .accepted, completedBy := user } := by
        simpa [← hps] using hy
      exact ⟨hist.id, pays⟩

/-! ## Every strict move keeps accounts -/

/-- The sum of a submission that was there before stays what it is. -/
theorem Move.sumUnits_old (m : Move strict t ps) (ht : t.Connected) {a : Ident} {x : Submission}
    (hx : t.submissions.get? a = some x) :
    Invoice.sumUnits ((t.putAll ps).linked a) = Invoice.sumUnits (t.linked a) := by
  refine Tables.sumUnits_linked ?_ fun id hl => ?_
  · have none_new : (ps.filterMap Put.link?).filter (·.submissionId = a) = [] := by
      refine List.filter_eq_nil_iff.2 fun l hl => ?_
      obtain ⟨p, hp, hpl⟩ := List.mem_filterMap.1 hl
      cases p <;> cases hpl
      have hnone := (m.link_written hp).1
      simp only [decide_eq_true_eq]
      rintro rfl
      cases hx.symm.trans hnone
    rw [Tables.putAll_links, List.filter_append, none_new, List.append_nil]
  · obtain ⟨i, hi⟩ := Option.isSome_iff_exists.1 (ht _ hl).1
    rcases Tables.invoice_putAll t ps id with ⟨hget, -⟩ | ⟨j, hj, rfl, hget⟩
    · exact ⟨i, i, hi, hget.trans hi, rfl⟩
    · rcases m.invoice_written hj with ⟨hnone, -⟩ | ⟨k, hk, hamount, -⟩
      · cases hi.symm.trans hnone
      · exact ⟨k, j, hk, hget, hamount⟩

/-- A submission that a move stores has invoices, and their sum. -/
theorem Move.sumUnits_new (m : Move strict t ps) (hs : strict) (ht : t.Connected) {x : Submission}
    (hx : Put.submission x ∈ ps) (hnew : t.submissions.get? x.id = none) :
    Invoice.sumUnits ((t.putAll ps).linked x.id) = x.amount.units ∧ ∃ i, Put.link ⟨i, x.id⟩ ∈ ps := by
  cases m with
  | insert | cancel => simp at hx
  | accept z user e h settlement payable there =>
    obtain rfl : x = { z with status := .accepted, completedBy := user } := by simpa using hx
    cases there.symm.trans hnew
  | reject z user e freed there =>
    obtain rfl : x = { z with status := .rejected, completedBy := user } := by simpa using hx
    cases there.symm.trans hnew
  | batch z taken e numbered new submitted distinct there unpaid free some_taken sum =>
    obtain rfl : x = z := by simpa using hx
    generalize hps : Put.submission x :: (taken.map (fun i =>
      .invoice { i with hasSubmission := true }) ++ (taken.map (fun i => .link ⟨i.id, x.id⟩) ++
        [.logEntry e])) = ps
    have links_eq : (t.putAll ps).links.filter (·.submissionId = x.id) =
        taken.map fun i => ⟨i.id, x.id⟩ := by
      -- no link led to the submission before it was there
      have none_old : t.links.filter (·.submissionId = x.id) = [] := by
        refine List.filter_eq_nil_iff.2 fun l hl => ?_
        simp only [decide_eq_true_eq]
        intro heq
        have := (ht l hl).2
        rw [heq, new] at this
        cases this
      rw [Tables.putAll_links, ← hps, Put.links_of_batch, List.filter_append, none_old,
        List.nil_append]
      refine List.filter_eq_self.2 fun l hl => ?_
      obtain ⟨i, -, rfl⟩ := List.mem_map.1 hl
      simp
    have rows : ∀ i ∈ taken, ∃ j, (t.putAll ps).invoices.get? i.id = some j ∧
        j.amount = i.amount := by
      intro i hi
      rcases Tables.invoice_putAll t ps i.id with ⟨-, hne⟩ | ⟨j, hj, hid, hget⟩
      · refine absurd rfl (hne { i with hasSubmission := true } ?_)
        rw [← hps]
        exact List.mem_cons_of_mem _ (List.mem_append_left _ (List.mem_map_of_mem hi))
      · obtain ⟨k, hk, rfl⟩ : ∃ k ∈ taken, j = { k with hasSubmission := true } := by
          simpa [← hps, eq_comm] using hj
        have same : t.invoices.get? i.id = some k := by
          rw [← hid]
          exact there k hk
        cases (there i hi).symm.trans same
        exact ⟨_, hget, rfl⟩
    refine ⟨?_, ?_⟩
    · rw [← sum hs, Tables.linked, links_eq, Tables.sumUnits_rows rows]
    · obtain ⟨i, hi⟩ := List.exists_mem_of_ne_nil _ some_taken
      refine ⟨i.id, ?_⟩
      rw [← hps]
      simp only [List.mem_cons, List.mem_append, List.mem_map]
      exact .inr (.inr (.inl ⟨i, hi, rfl⟩))

theorem Move.accounted (m : Move strict t ps) (hs : strict) (ht : Built strict t)
    (h : t.Accounted) : (t.putAll ps).Accounted where
  sums a y hy := by
    rcases m.submission_after hy with ⟨x, hx, hamount, -⟩ | ⟨hnone, rfl, hput⟩
    · rw [m.sumUnits_old ht.connected hx, hamount]
      exact h.sums a x hx
    · exact (m.sumUnits_new hs ht.connected hput hnone).1
  some_linked a y hy := by
    rcases m.submission_after hy with ⟨x, hx, -⟩ | ⟨hnone, rfl, hput⟩
    · obtain ⟨i, hi⟩ := h.some_linked a x hx
      exact ⟨i, Tables.mem_links_putAll.2 (.inl hi)⟩
    · obtain ⟨i, hi⟩ := (m.sumUnits_new hs ht.connected hput hnone).2
      exact ⟨i, Tables.mem_links_putAll.2 (.inr hi)⟩
  alone i a b x y ha hb hx hy hax hby := by
    have before {c : Ident} {z : Submission} (hl : ⟨i, c⟩ ∈ t.links)
        (hz : (t.putAll ps).submissions.get? c = some z) (hne : z.status ≠ .rejected) :
        ∃ z₀, t.submissions.get? c = some z₀ ∧ z₀.status ≠ .rejected := by
      rcases m.submission_after hz with ⟨z₀, hz₀, -, hkept⟩ | ⟨hnone, -⟩
      · exact ⟨z₀, hz₀, hkept hne⟩
      · have := (ht.connected _ hl).2
        rw [hnone] at this
        cases this
    -- an invoice of a new batch is unpaid, and in no batch under way
    have free {c d : Ident} {z : Submission} (hnew : Put.link ⟨i, c⟩ ∈ ps) (hl : ⟨i, d⟩ ∈ t.links)
        (hz : (t.putAll ps).submissions.get? d = some z) (hne : z.status ≠ .rejected) : False := by
      obtain ⟨z₀, hz₀, hne₀⟩ := before hl hz hne
      cases hstatus : z₀.status with
      | submitted =>
        have hway : t.UnderWay i d := ⟨hl, z₀, hz₀, hstatus⟩
        exact (m.new_link hnew).1 (hway.active ht.keyed)
      | accepted =>
        obtain ⟨g, -, -, -, -, -, -, hinvoices⟩ := h.accepted d z₀ hz₀ hstatus
        obtain ⟨-, k, hk, hunpaid⟩ := m.link_written hnew
        have hpaid := (hinvoices i k hk).2 hl
        rw [hunpaid] at hpaid
        cases hpaid
      | rejected => exact hne₀ hstatus
    rcases Tables.mem_links_putAll.1 ha with ha | ha
    · rcases Tables.mem_links_putAll.1 hb with hb | hb
      · obtain ⟨x₀, hx₀, hax₀⟩ := before ha hx hax
        obtain ⟨y₀, hy₀, hby₀⟩ := before hb hy hby
        exact h.alone i a b x₀ y₀ ha hb hx₀ hy₀ hax₀ hby₀
      · exact (free hb ha hx hax).elim
    · rcases Tables.mem_links_putAll.1 hb with hb | hb
      · exact (free ha hb hy hby).elim
      · exact ((m.new_link ha).2.1 _ hb).symm
  noted id i g hi hsome := by
    have kept {g : Ident} (hg : (t.histories.get? g).isSome) :
        ((t.putAll ps).histories.get? g).isSome := by
      rcases Tables.history_putAll t ps g with ⟨hget, -⟩ | ⟨z, -, -, hget⟩
      · rwa [hget]
      · rw [hget]
        rfl
    rcases Tables.invoice_putAll t ps id with ⟨hget, -⟩ | ⟨j, hj, rfl, hget⟩
    · exact kept (h.noted id i g (hget.symm.trans hi) hsome)
    · cases hi.symm.trans hget
      rcases m.payment_written hs hj with ⟨-, hnone⟩ | ⟨k, hk, -, hhistory⟩
      · cases hsome.symm.trans hnone
      · rcases hhistory with heq | ⟨z, hz, heq⟩
        · exact kept (h.noted i.id k g hk (heq.symm.trans hsome))
        · cases hsome.symm.trans heq
          rcases Tables.history_putAll t ps z.id with ⟨-, hne⟩ | ⟨z', -, -, hget⟩
          · exact absurd rfl (hne z hz)
          · rw [hget]
            rfl
  payments g row hrow := by
    rcases Tables.history_putAll t ps g with ⟨hget, -⟩ | ⟨z, hz, rfl, -⟩
    · obtain ⟨a, ha⟩ := h.payments g row (hget.symm.trans hrow)
      exact ⟨a, m.pays hs ht.connected ha⟩
    · exact (m.new_payment hs ht h).1 z hz
  accepted a x hx haccepted := by
    rcases Tables.submission_putAll t ps a with ⟨hget, -⟩ | ⟨z, hz, rfl, hget⟩
    · obtain ⟨g, hg⟩ := h.accepted a x (hget.symm.trans hx) haccepted
      exact ⟨g, m.pays hs ht.connected hg⟩
    · cases hx.symm.trans hget
      exact (m.new_payment hs ht h).2 x hz haccepted

theorem Built.accounted (h : Built strict t) (hs : strict) : t.Accounted := by
  induction h with
  | empty =>
    refine ⟨fun a x hx => ?_, fun a x hx => ?_, fun i a b x y ha => (nomatch ha),
      fun id i g hi => ?_, fun g row hrow => ?_, fun a x hx => ?_⟩
    · simp at hx
    · simp at hx
    · simp at hi
    · simp at hrow
    · simp at hx
  | teams h teams ih =>
    obtain ⟨h1, h2, h3, h4, h5, h6⟩ := ih
    exact ⟨h1, h2, h3, h4, h5, h6⟩
  | move h m ih => exact m.accounted hs h ih

theorem Built.settled (h : Built strict t) (hs : strict) : t.Settled := by
  have accounts := h.accounted hs
  -- every submission has an invoice, and by it one recognises payment and submission
  have invoice_of {a : Ident} {x : Submission} (hx : t.submissions.get? a = some x) :
      ∃ id i, ⟨id, a⟩ ∈ t.links ∧ t.invoices.get? id = some i := by
    obtain ⟨id, hl⟩ := accounts.some_linked a x hx
    obtain ⟨i, hi⟩ := Option.isSome_iff_exists.1 (h.connected _ hl).1
    exact ⟨id, i, hl, hi⟩
  refine ⟨fun a x hx => ⟨?_, accounts.sums a x hx⟩, fun g row hrow => ?_, fun a x hx haccepted => ?_⟩
  · unfold Tables.linked
    refine List.pairwise_filterMap.2 ?_
    refine (h.batched.once.filter _).imp_of_mem ?_
    rintro ⟨id, b⟩ ⟨id', b'⟩ hl hl' hne i hi j hj rfl
    obtain rfl : i.id = id := h.keyed.invoices _ _ hi
    obtain rfl : i.id = id' := h.keyed.invoices _ _ hj
    have hb : b = a := by simpa using (List.mem_filter.1 hl).2
    have hb' : b' = a := by simpa using (List.mem_filter.1 hl').2
    exact hne (by rw [hb, hb'])
  -- two submissions with one payment share an invoice, and neither of them is rejected
  · obtain ⟨a, ha⟩ := accounts.payments g row hrow
    refine ⟨a, ha, fun b hb => ?_⟩
    obtain ⟨-, x, -, hx, hxa, -, hinvoices⟩ := ha
    obtain ⟨-, y, -, hy, hya, -, hinvoices'⟩ := hb
    obtain ⟨id, i, hl, hi⟩ := invoice_of hx
    have hl' := (hinvoices' id i hi).1.1 ((hinvoices id i hi).1.2 hl)
    refine accounts.alone id b a y x hl' hl hy hx ?_ ?_
    · rw [hya]
      exact fun hrejected => nomatch hrejected
    · rw [hxa]
      exact fun hrejected => nomatch hrejected
  -- two payments of one submission are both noted on its invoice
  · obtain ⟨g, hg⟩ := accounts.accepted a x hx haccepted
    refine ⟨g, hg, fun g' hg' => ?_⟩
    obtain ⟨-, -, -, -, -, -, hinvoices⟩ := hg
    obtain ⟨-, -, -, -, -, -, hinvoices'⟩ := hg'
    obtain ⟨id, i, hl, hi⟩ := invoice_of hx
    have hsome := (hinvoices id i hi).1.2 hl
    have hsome' := (hinvoices' id i hi).1.2 hl
    exact Option.some.inj (hsome'.symm.trans hsome)

/-- The invoices of an accepted submission are paid. -/
theorem Tables.Settled.paid (h : t.Settled) (a id : Ident)
    (haccepted : (t.submissions.get? a).map (·.status) = some .accepted) (hl : ⟨id, a⟩ ∈ t.links) :
    ∀ i ∈ t.invoices.get? id, i.status = .paid := by
  intro i hi
  obtain ⟨x, hx, hstatus⟩ := Option.map_eq_some_iff.1 haccepted
  obtain ⟨g, ⟨-, -, -, -, -, -, hinvoices⟩, -⟩ := h.accepted a x hx hstatus
  exact (hinvoices id i hi).2 hl

/-! ## Runs -/

namespace Floor

/-- **Exactly-once settlement.** Whatever sessions do in an orderly run with exact sums, and in whatever
order, what is committed is settled, if readjustments work on sets that are locked or current. -/
theorem settled_exactly_once {f : Floor}
    (h : f.Reach fun f e => f.Orderly e ∧ f.Exact e ∧ f.Careful e) : f.tables.Settled :=
  have built : Built True f.tables := h.built (fun _ _ he => he.1) fun _ _ _ he => he.2
  built.settled trivial

/-- One session stores an invoice, creates a batch of it, accepts the batch and commits. -/
theorem settled_exactly_once_paid : ∃ f : Floor,
    (f.Reach fun f e => f.Orderly e ∧ f.Exact e ∧ f.Careful e) ∧
      (f.tables.histories.get? 5).isSome ∧ f.tables.Settled := by
  have positive : (0 : Int) < Money.units ⟨1, 0, by decide, by decide⟩ := by decide
  have empty : Reach (fun f e => f.Orderly e ∧ f.Exact e ∧ f.Careful e) _ :=
    .start { clock := ⟨⟨0, 0, by decide⟩⟩ }
  have stored := (empty.step (.begin "first") ⟨⟨trivial, trivial⟩, trivial, trivial⟩).step
    (.act "first" (.call (.insertInvoice { (default : NewInvoice) with
      status := .notPaid, amount := ⟨1, 0, by decide, by decide⟩ })))
    ⟨⟨.inr ⟨_, rfl⟩, trivial⟩, positive, trivial⟩
  have opened := stored.step (.act "first" (.openWorkflow .system none))
    ⟨⟨trivial, trivial⟩, trivial, trivial⟩
  have created := opened.step (.act "first" (.create (.start .invoice false) "" .zero))
    ⟨⟨trivial, trivial⟩, Invoice.sumsExactly_of_length_le (by decide), trivial⟩
  have accepted := created.step (.act "first" .accept)
    ⟨⟨trivial, (by unfold Own; decide)⟩, (fun w held c hw hc => by
      cases hw
      cases hc
      exact Invoice.sumsExactly_of_length_le (by decide)), trivial⟩
  have h := accepted.step (.commit "first") ⟨⟨trivial, trivial⟩, trivial, trivial⟩
  exact ⟨_, h, by decide, settled_exactly_once h⟩

/-- A loading that fails brings the session's view up to date, but not the working set. So the set may
be stale when it is readjusted and yet nothing stands against the commit: the invoice is paid and
committed by then, and is cancelled. -/
theorem settled_exactly_once_needs_care :
    ¬ ∀ f : Floor, (f.Reach fun f e => f.Orderly e ∧ f.Exact e) → f.tables.Settled := by
  intro hall
  have positive : (0 : Int) < Money.units ⟨1, 0, by decide, by decide⟩ := by decide
  have empty : Reach (fun f e => f.Orderly e ∧ f.Exact e) _ := .start { clock := ⟨⟨0, 0, by decide⟩⟩ }
  have stored := (((empty.step (.begin "first") ⟨⟨trivial, trivial⟩, trivial⟩).step
    (.act "first" (.call (.insertInvoice { (default : NewInvoice) with
      status := .notPaid, amount := ⟨1, 0, by decide, by decide⟩, orderId := some 7 })))
    ⟨⟨.inr ⟨_, rfl⟩, trivial⟩, positive⟩).step
    (.act "first" (.call (.insertInvoice { (default : NewInvoice) with
      status := .notPaid, amount := ⟨1, 0, by decide, by decide⟩, orderId := some 8 })))
    ⟨⟨.inr ⟨_, rfl⟩, trivial⟩, positive⟩).step (.commit "first") ⟨⟨trivial, trivial⟩, trivial⟩
  have loaded := ((stored.step (.begin "manager") ⟨⟨trivial, trivial⟩, trivial⟩).step
    (.act "manager" (.openManager [])) ⟨⟨trivial, trivial⟩, trivial⟩).step
    (.act "manager" (.gather ((Query.start .invoice false).take (.orderId 7))))
    ⟨⟨trivial, trivial⟩, trivial⟩
  have blocked := (loaded.step (.begin "other") ⟨⟨trivial, trivial⟩, trivial⟩).step
    (.act "other" (.call (.find .invoice ((Query.start .invoice true).take (.orderId 8)))))
    ⟨⟨.inl rfl, trivial⟩, trivial⟩
  have created := ((blocked.step (.begin "payer") ⟨⟨trivial, trivial⟩, trivial⟩).step
    (.act "payer" (.openWorkflow .system none)) ⟨⟨trivial, trivial⟩, trivial⟩).step
    (.act "payer" (.create ((Query.start .invoice false).take (.orderId 7)) "" .zero))
    ⟨⟨trivial, trivial⟩, Invoice.sumsExactly_of_length_le (by decide)⟩
  have paid := (created.step (.act "payer" .accept)
    ⟨⟨trivial, (by unfold Own; decide)⟩, (fun w held c hw hc => by
      cases hw
      cases hc
      exact Invoice.sumsExactly_of_length_le (by decide))⟩).step (.commit "payer")
    ⟨⟨trivial, trivial⟩, trivial⟩
  have h := ((paid.step
    (.act "manager" (.gather ((Query.start .invoice true).take (.orderId 8))))
    ⟨⟨trivial, trivial⟩, trivial⟩).step
    (.act "manager" (.readjust ⟨0, 0, .zero, none, some 7⟩))
    ⟨⟨trivial, (by unfold Own; decide)⟩, trivial⟩).step (.commit "manager")
    ⟨⟨trivial, trivial⟩, trivial⟩
  have paid_still := (hall _ h).paid 3 1 (by decide) (by decide)
  exact absurd paid_still (by decide)

end Floor

end TeamLedger
