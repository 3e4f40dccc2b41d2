/-
An invoice is in one batch at a time.

The store has no constraint to this effect, and links carry no versions. What
holds it together is that a batch is created on invoices of which none is part of
a batch under way, and that creating it writes these invoices, so that two
batches with a common invoice cannot both be committed. Rejecting a batch sets
its invoices free by their links, old ones included; it clears no flag that
another batch needs, because no other batch under way has one of these invoices.

All of this is said of single moves. That every committed state is built by moves
is the invariant of the runs.
-/
import TeamLedger.Proofs.Orderly

set_option autoImplicit false

namespace TeamLedger

/-- The invoice is linked to the submission, and the submission is under way. -/
def Tables.UnderWay (t : Tables) (invoice submission : Ident) : Prop :=
  ⟨invoice, submission⟩ ∈ t.links ∧
    ∃ x, t.submissions.get? submission = some x ∧ x.status = .submitted

/-- No link occurs twice, every invoice is linked to at most one submission under way, and if there is
one the invoice says so. -/
structure Tables.Batched (t : Tables) : Prop where
  once : t.links.Nodup
  one : ∀ i a b, t.UnderWay i a → t.UnderWay i b → a = b
  flagged : ∀ i a row, t.UnderWay i a → t.invoices.get? i = some row → row.hasSubmission = true

variable {strict : Prop} {t : Tables} {ps : List Put}

/-! ## What moves do to batches -/

/-- Only the invoices of a new batch are linked, and all of them are taken from no other. -/
theorem Move.new_link (m : Move strict t ps) {l : Link} (hl : Put.link l ∈ ps) :
    ¬ t.Active l.invoiceId ∧ (∀ l', Put.link l' ∈ ps → l'.submissionId = l.submissionId) ∧
      ∀ j, Put.invoice j ∈ ps → j.hasSubmission = true := by
  cases m with
  | batch x taken e numbered new submitted distinct there unpaid free =>
    have of_taken {l : Link} (hl : Put.link l ∈ Put.submission x ::
        (taken.map (fun i => .invoice { i with hasSubmission := true }) ++
          (taken.map (fun i => .link ⟨i.id, x.id⟩) ++ [.logEntry e]))) :
        ∃ i ∈ taken, l = ⟨i.id, x.id⟩ := by
      simpa [eq_comm] using hl
    obtain ⟨i, hi, rfl⟩ := of_taken hl
    refine ⟨free i hi, fun l' hl' => ?_, fun j hj => ?_⟩
    · obtain ⟨i', -, rfl⟩ := of_taken hl'
      rfl
    · obtain ⟨i', -, rfl⟩ : ∃ i ∈ taken, j = { i with hasSubmission := true } := by
        simpa [eq_comm] using hj
      rfl
  | _ => simp at hl

/-- A link under way after a move was so before and is not ended by the move, or it is one of a new
batch. -/
theorem Move.underWay (m : Move strict t ps) (ht : t.Connected) {i a : Ident}
    (h : (t.putAll ps).UnderWay i a) :
    t.UnderWay i a ∧ (∀ x, Put.submission x ∈ ps → x.id ≠ a) ∨ Put.link ⟨i, a⟩ ∈ ps := by
  obtain ⟨hl, x, hx, hstatus⟩ := h
  rcases Tables.mem_links_putAll.1 hl with hl | hl
  · refine .inl ?_
    rcases Tables.submission_putAll t ps a with ⟨hget, hne⟩ | ⟨z, hz, rfl, hget⟩
    · exact ⟨⟨hl, x, hget.symm.trans hx, hstatus⟩, hne⟩
    · cases hx.symm.trans hget
      -- a submission that comes under way is new, but a link led to this one
      rcases m.submission_written hz with ⟨hnone, -⟩ | ⟨-, -, -, hended⟩
      · have := (ht _ hl).2
        rw [hnone] at this
        cases this
      · exact absurd hstatus hended
  · exact .inr hl

/-- An invoice that a move writes is new, or its flag is set or left as it is, or it is set free from
the submission that the move ends. -/
theorem Move.flag_written (m : Move strict t ps) {j : Invoice} (hj : Put.invoice j ∈ ps) :
    t.invoices.get? j.id = none ∨ j.hasSubmission = true ∨
      (∃ i, t.invoices.get? j.id = some i ∧ i.hasSubmission = j.hasSubmission) ∨
      ∃ x, Put.submission x ∈ ps ∧ t.UnderWay j.id x.id := by
  cases m with
  | insert i new =>
    obtain rfl : j = i := by simpa using hj
    exact .inl new
  | cancel i there =>
    obtain rfl : j = { i with status := .cancelled } := by simpa using hj
    exact .inr (.inr (.inl ⟨i, there, rfl⟩))
  | batch x taken e =>
    obtain ⟨i, -, rfl⟩ : ∃ i ∈ taken, j = { i with hasSubmission := true } := by
      simpa [eq_comm] using hj
    exact .inr (.inl rfl)
  | accept x user e h settlement payable _ _ _ _ _ _ there =>
    obtain ⟨i, hi, rfl⟩ : ∃ i ∈ payable, j = i.settled settlement := by simpa [eq_comm] using hj
    exact .inr (.inr (.inl ⟨i, there i hi, rfl⟩))
  | reject x user e freed there submitted freed_there linked =>
    obtain ⟨i, hi, rfl⟩ : ∃ i ∈ freed, j = { i with hasSubmission := false } := by
      simpa [eq_comm] using hj
    refine .inr (.inr (.inr ⟨_, List.mem_cons_self, linked i hi, x, there, submitted⟩))

theorem Put.links_of_batch (x : Submission) (taken : List Invoice) (e : LogEntry) :
    (Put.submission x :: (taken.map (fun i => .invoice { i with hasSubmission := true }) ++
      (taken.map (fun i => .link ⟨i.id, x.id⟩) ++ [.logEntry e]))).filterMap Put.link? =
        taken.map fun i => ⟨i.id, x.id⟩ := by
  have flags_eq : (taken.map fun i => Put.invoice { i with hasSubmission := true }).filterMap
      Put.link? = [] := by
    rw [List.filterMap_map]
    exact List.filterMap_eq_nil_iff.2 fun i _ => rfl
  have links_eq : (taken.map fun i => Put.link ⟨i.id, x.id⟩).filterMap Put.link? =
      taken.map fun i => (⟨i.id, x.id⟩ : Link) := by
    rw [List.filterMap_map, ← List.filterMap_eq_map]
    rfl
  rw [List.filterMap_cons_none rfl, List.filterMap_append, flags_eq, List.nil_append,
    List.filterMap_append, links_eq, List.filterMap_cons_none rfl, List.filterMap_nil,
    List.append_nil]

theorem Move.links_nodup (m : Move strict t ps) (ht : t.Connected) (h : t.links.Nodup) :
    (t.putAll ps).links.Nodup := by
  cases m with
  | batch x taken e numbered new submitted distinct =>
    rw [Tables.putAll_links, Put.links_of_batch]
    refine List.nodup_append.2 ⟨h, ?_, ?_⟩
    · have ids_ne := List.pairwise_map.1 distinct
      exact List.pairwise_map.2 (ids_ne.imp fun hne heq => hne (congrArg Link.invoiceId heq))
    · -- links lead to submissions that are there, and this one is new
      intro l hl l' hl' heq
      obtain ⟨i, -, rfl⟩ := List.mem_map.1 hl'
      have := (ht l hl).2
      rw [heq, new] at this
      cases this
  | insert | cancel | accept | reject =>
    rw [Tables.links_putAll_of_none _ _ (by simp)]
    exact h

/-! ## Every move keeps batches apart -/

theorem Tables.UnderWay.active (ht : t.Keyed) {i a : Ident} (h : t.UnderWay i a) : t.Active i := by
  obtain ⟨hl, x, hx, hstatus⟩ := h
  obtain rfl : x.id = a := ht.submissions _ _ hx
  exact ⟨x, hl, hx, hstatus⟩

theorem Move.batched (m : Move strict t ps) (ht : Built strict t) (h : t.Batched) :
    (t.putAll ps).Batched where
  once := m.links_nodup ht.connected h.once
  one i a b ha hb := by
    rcases m.underWay ht.connected ha with ⟨ha, -⟩ | ha
    · rcases m.underWay ht.connected hb with ⟨hb, -⟩ | hb
      · exact h.one i a b ha hb
      · exact absurd (ha.active ht.keyed) (m.new_link hb).1
    · rcases m.underWay ht.connected hb with ⟨hb, -⟩ | hb
      · exact absurd (hb.active ht.keyed) (m.new_link ha).1
      · exact ((m.new_link ha).2.1 _ hb).symm
  flagged i a row hway hrow := by
    rcases Tables.invoice_putAll t ps i with ⟨hget, hne⟩ | ⟨j, hj, rfl, hget⟩
    · rcases m.underWay ht.connected hway with ⟨hold, -⟩ | hnew
      · exact h.flagged i a row hold (hget.symm.trans hrow)
      · -- the invoices of a new batch are written
        obtain ⟨⟨p, hp, hkey⟩, -⟩ := m.link_keys hnew
        cases p <;> cases hkey
        exact absurd rfl (hne _ hp)
    · cases hrow.symm.trans hget
      rcases m.underWay ht.connected hway with ⟨hold, hgoes_on⟩ | hnew
      -- the batch goes on, so the invoice was not set free from it
      · rcases m.flag_written hj with hnone | hset | ⟨k, hk, hflag⟩ | ⟨x, hx, hway'⟩
        · have := (ht.connected _ hold.1).1
          rw [hnone] at this
          cases this
        · exact hset
        · rw [← hflag]
          exact h.flagged _ a k hold hk
        · exact absurd (h.one _ _ _ hway' hold) (hgoes_on x hx)
      · exact (m.new_link hnew).2.2 row hj

theorem Built.batched (h : Built strict t) : t.Batched := by
  induction h with
  | empty => exact ⟨.nil, fun i a b ha => (nomatch ha.1), fun i a row ha => (nomatch ha.1)⟩
  | teams h teams ih =>
    obtain ⟨h1, h2, h3⟩ := ih
    exact ⟨h1, h2, h3⟩
  | move h m ih => exact m.batched h ih

/-! ## Every run keeps batches apart -/

namespace Floor

/-- **One batch at a time.** Whatever sessions do in an orderly run, and in whatever order, the batches
that are committed are kept apart. -/
theorem one_batch_at_a_time {f : Floor} (h : f.Reach Orderly) : f.tables.Batched :=
  have built : Built False f.tables := h.built (fun _ _ he => he) fun hfalse => hfalse.elim
  built.batched

/-- Two sessions create a batch of the same invoice, and both commit. Only the first batch is there. -/
theorem one_batch_at_a_time_rivals : ∃ f : Floor, f.Reach Orderly ∧ f.tables.links = [⟨1, 2⟩] ∧
    f.tables.Batched := by
  have empty : Reach Orderly _ := .start { clock := ⟨⟨0, 0, by decide⟩⟩ }
  have stored := ((empty.step (.begin "first") ⟨trivial, trivial⟩).step
    (.act "first" (.call (.insertInvoice { (default : NewInvoice) with status := .notPaid })))
      ⟨.inr ⟨_, rfl⟩, trivial⟩).step (.commit "first") ⟨trivial, trivial⟩
  have both := (stored.step (.begin "first") ⟨trivial, trivial⟩).step (.begin "second")
    ⟨trivial, trivial⟩
  have opened := (both.step (.act "first" (.openWorkflow .system none)) ⟨trivial, trivial⟩).step
    (.act "second" (.openWorkflow .system none)) ⟨trivial, trivial⟩
  have created := (opened.step (.act "first" (.create (.start .invoice false) "" .zero))
    ⟨trivial, trivial⟩).step (.act "second" (.create (.start .invoice false) "" .zero))
    ⟨trivial, trivial⟩
  have h := (created.step (.commit "first") ⟨trivial, trivial⟩).step (.commit "second")
    ⟨trivial, trivial⟩
  exact ⟨_, h, by decide, one_batch_at_a_time h⟩

end Floor

end TeamLedger
