/-
What a manager may rely on, although its working set is old.

A set that was loaded without locks is as good as the session's view, and the
view has stayed what it was as long as no later loading was tried. A set that was
loaded with locks is good for longer: an invoice is paid only under its lock, so
while this session holds it nobody else pays the invoice. In both cases an
invoice that is open in the set is not paid by now (`Watched`).

What others can do to a session that can still commit is stated once
(`Ledger.Passed`): they have written none of its rows, and none of its locks is
gone.
-/
import TeamLedger.Proofs.Readjusting
import TeamLedger.Proofs.Floor

set_option autoImplicit false

namespace TeamLedger

/-! ## Someone else commits -/

/-- The session `o` has committed, and `s` can commit even so. -/
structure Ledger.Passed (l : Ledger) (o s : Session) (l' : Ledger) : Prop where
  id_ne : s.id ≠ o.id
  apart : ∀ k ∈ s.changes.written, k ∉ o.changes.written
  tables : l'.tables = l.tables.apply o.changes
  locks_kept : ∀ k, l.locks k = some s.id → l'.locks k = some s.id

theorem Ledger.Sound.passed {l : Ledger} {ses : String → Option Session} (h : l.Sound ses)
    {n m : String} {o s : Session} (hne : n ≠ m) (hn : ses n = some o) (hm : ses m = some s)
    (hadmits : l.Admits o) (hafter : (l.commit o).2.Admits s) : l.Passed o s (l.commit o).2 := by
  obtain ⟨-, apart⟩ := h.admits_after hm hadmits hafter
  have id_ne : s.id ≠ o.id := h.id_ne hne.symm hm hn
  rw [Ledger.commit_of_admits hadmits]
  exact ⟨id_ne, apart, rfl, fun k hk => Ledger.release_other id_ne hk⟩

namespace Ledger.Passed

variable {l l' : Ledger} {o s : Session}

/-- A lock of the session is not one of the other. -/
theorem lock_not (h : l.Passed o s l') {k : LockKey} (hk : l.locks k = some s.id) :
    l.locks k ≠ some o.id := by
  rw [hk]
  exact fun heq => h.id_ne (Option.some.inj heq)

/-- The other has left an invoice alone, or this session has. -/
theorem invoice_row (h : l.Passed o s l') (id : Ident) :
    (l.tables.apply o.changes).invoices.get? id = l.tables.invoices.get? id ∧
        ((l.tables.apply o.changes).apply s.changes).invoices.get? id =
          (l.tables.apply s.changes).invoices.get? id ∨
      ⟨.invoice, id⟩ ∉ s.changes.written ∧
        ((l.tables.apply o.changes).apply s.changes).invoices.get? id =
          (l.tables.apply o.changes).invoices.get? id ∧
        (l.tables.apply s.changes).invoices.get? id = l.tables.invoices.get? id :=
  l.tables.sameRow_after h.apart ⟨.invoice, id⟩

/-- The other has left a submission alone, or this session has. -/
theorem submission_row (h : l.Passed o s l') (id : Ident) :
    (l.tables.apply o.changes).submissions.get? id = l.tables.submissions.get? id ∧
        ((l.tables.apply o.changes).apply s.changes).submissions.get? id =
          (l.tables.apply s.changes).submissions.get? id ∨
      ⟨.submission, id⟩ ∉ s.changes.written ∧
        ((l.tables.apply o.changes).apply s.changes).submissions.get? id =
          (l.tables.apply o.changes).submissions.get? id ∧
        (l.tables.apply s.changes).submissions.get? id = l.tables.submissions.get? id :=
  l.tables.sameRow_after h.apart ⟨.submission, id⟩

end Ledger.Passed

/-- Changes take no invoice away. -/
theorem Tables.isSome_invoice_apply {t : Tables} {c : Changes} {id : Ident}
    (h : (t.invoices.get? id).isSome) : ((t.apply c).invoices.get? id).isSome := by
  show ((t.invoices.overlay c.invoices).get? id).isSome
  rw [Rows.get?_overlay]
  cases c.invoices.get? id with
  | none => exact h
  | some i => rfl

/-! ## Invoices are paid under locks -/

/-- An invoice that is paid if the session commits has been paid before, or is new, or the session has
its lock. -/
def Ledger.PaysLocked (l : Ledger) (s : Session) : Prop :=
  ∀ id i, (l.tables.apply s.changes).invoices.get? id = some i → i.status = .paid →
    (∃ j, l.tables.invoices.get? id = some j ∧ j.status = .paid) ∨
      l.tables.invoices.get? id = none ∨ l.locks ⟨.invoice, id⟩ = some s.id

namespace Ledger.PaysLocked

variable {l l' : Ledger} {s s' o : Session}

/-- A session without changes. -/
theorem begun {id : SessionId} {snapshot : Tables} {base : RowKey → Nat} :
    l.PaysLocked { id, snapshot, base } := by
  intro id i hi hpaid
  rw [Tables.apply_empty] at hi
  exact .inl ⟨i, hi, hpaid⟩

theorem transfer (h : l.PaysLocked s) {teams : Rows Team} (ht : l'.tables = { l.tables with teams })
    (hlocks : ∀ k, l.locks k = some s.id → l'.locks k = some s.id) : l'.PaysLocked s := by
  intro id i hi hpaid
  rw [ht] at hi ⊢
  exact (h id i hi hpaid).imp_right (Or.imp_right (hlocks _))

theorem committed (h : l.PaysLocked s) (hp : l.Passed o s l') : l'.PaysLocked s := by
  intro id i hi hpaid
  rw [hp.tables] at hi ⊢
  rcases hp.invoice_row id with ⟨hrow, hseen⟩ | ⟨-, hseen, -⟩
  · rcases h id i (hseen.symm.trans hi) hpaid with ⟨j, hj, hstatus⟩ | hnone | hlock
    · exact .inl ⟨j, hrow.trans hj, hstatus⟩
    · exact .inr (.inl (hrow.trans hnone))
    · exact .inr (.inr (hp.locks_kept _ hlock))
  · exact .inl ⟨i, hseen.symm.trans hi, hpaid⟩

/-- The session writes. -/
theorem step (h : l.PaysLocked s) (hl : l.Grants s.id l') {qs : List Put} (hid : s'.id = s.id)
    (hs : s'.changes = s.changes.putAll qs) (hlimit : ∀ x, Put.limit x ∉ qs)
    (hpaid : ∀ i, Put.invoice i ∈ qs → i.status = .paid →
      (∃ j, (l.tables.apply s.changes).invoices.get? i.id = some j ∧ j.status = .paid) ∨
        (l.tables.apply s.changes).invoices.get? i.id = none ∨
        l'.locks ⟨.invoice, i.id⟩ = some s.id) : l'.PaysLocked s' := by
  intro id i hi hstatus
  rw [hl.tables, hs, Tables.apply_putAll _ _ hlimit] at hi
  rw [hl.tables, hid]
  -- an invoice that was paid before the step
  have before {j : Invoice} (hj : (l.tables.apply s.changes).invoices.get? id = some j)
      (hstatus : j.status = .paid) :
      (∃ j, l.tables.invoices.get? id = some j ∧ j.status = .paid) ∨
        l.tables.invoices.get? id = none ∨ l'.locks ⟨.invoice, id⟩ = some s.id :=
    (h id j hj hstatus).imp_right (Or.imp_right hl.locks_own)
  rcases Tables.invoice_putAll (l.tables.apply s.changes) qs id with
    ⟨hget, -⟩ | ⟨z, hz, rfl, hget⟩
  · exact before (hget.symm.trans hi) hstatus
  · cases hi.symm.trans hget
    rcases hpaid i hz hstatus with ⟨j, hj, hjpaid⟩ | hnone | hlock
    · exact before hj hjpaid
    · exact .inr (.inl (Tables.eq_none_of_apply.2 hnone))
    · exact .inr (.inr hlock)

end Ledger.PaysLocked

/-! ## Working sets -/

namespace Readjustment

/-- What is known of the open invoices of a working set: if no later loading was tried, none of them is
paid in the session's view; if they are locked, none of them is paid at all. -/
def Watched (l : Ledger) (s : Session) (locked current : Bool) (set : WorkingSet) : Prop :=
  ∀ i ∈ set, i.Open →
    (current = true → ∃ j, s.view.invoices.get? i.id = some j ∧ j.status ≠ .paid) ∧
    (locked = true →
      (l.locks ⟨.invoice, i.id⟩ = some s.id ∨ ⟨.invoice, i.id⟩ ∈ s.changes.written) ∧
      ∃ j, (l.tables.apply s.changes).invoices.get? i.id = some j ∧ j.status ≠ .paid)

variable {l l' : Ledger} {s s' o : Session} {set : WorkingSet} {locked current : Bool}
  {y : WorkingSet × Ledger × Session}

theorem Watched.transfer (h : Watched l s locked current set) {teams : Rows Team}
    (ht : l'.tables = { l.tables with teams })
    (hlocks : ∀ k, l.locks k = some s.id → l'.locks k = some s.id) :
    Watched l' s locked current set := by
  intro i hi hopen
  obtain ⟨hcurrent, hlocked⟩ := h i hi hopen
  refine ⟨hcurrent, fun hl => ?_⟩
  rw [ht]
  exact ⟨(hlocked hl).1.imp_left (hlocks _), (hlocked hl).2⟩

/-- **Someone else commits.** What is locked the other has not paid. -/
theorem Watched.committed (h : Watched l s locked current set) (hp : l.Passed o s l')
    (hpays : l.PaysLocked o) : Watched l' s locked current set := by
  intro i hi hopen
  obtain ⟨hcurrent, hlocked⟩ := h i hi hopen
  refine ⟨hcurrent, fun hl => ?_⟩
  obtain ⟨hlock, j, hj, hunpaid⟩ := hlocked hl
  refine ⟨hlock.imp_left (hp.locks_kept _), ?_⟩
  rw [hp.tables]
  rcases hp.invoice_row i.id with ⟨-, hseen⟩ | ⟨hne, hseen, hsame⟩
  · exact ⟨j, hseen.trans hj, hunpaid⟩
  · have hlock := hlock.resolve_right hne
    have hthere := hsame.symm.trans hj
    obtain ⟨k, hk⟩ := Option.isSome_iff_exists.1
      (Tables.isSome_invoice_apply (c := o.changes) (by rw [hthere]; rfl))
    refine ⟨k, hseen.trans hk, fun hpaid => ?_⟩
    rcases hpays i.id k hk hpaid with ⟨j', hj', hpaid'⟩ | hnone | hlock'
    · cases hthere.symm.trans hj'
      exact hunpaid hpaid'
    · cases hthere.symm.trans hnone
    · exact absurd hlock' (hp.lock_not hlock)

/-- A loading has failed. The set is no longer current. -/
theorem Watched.outdated (h : Watched l s locked current set) (hl : l.Grants s.id l')
    (hid : s'.id = s.id) (hs : s'.changes = s.changes) : Watched l' s' locked false set := by
  intro i hi hopen
  refine ⟨fun hc => (nomatch hc), fun hlocked => ?_⟩
  rw [hid, hl.tables, hs]
  exact ((h i hi hopen).2 hlocked).imp_left (Or.imp_left hl.locks_own)

/-- A set that was just loaded. -/
theorem watched_of_load {q : Query .invoice} {r : Except Failure (List Invoice)} (hl : l.Hosts s)
    (h : (load q).Ends (set, l, s) r y) (hok : ∃ a, r = .ok a) :
    Watched y.2.1 y.2.2 q.locked true y.1 := by
  obtain ⟨hgrants, honward, -⟩ := h.leads hl
  obtain ⟨a, rfl⟩ := hok
  obtain ⟨hs, ⟨⟨e, he⟩, -⟩ | ⟨-, hset⟩⟩ := load_ends hl h
  · cases he
  have tables_eq : y.2.1.tables.apply y.2.2.changes = l.tables.apply s.changes := by
    rw [hgrants.tables, hs]
    rfl
  intro i hi hopen
  obtain ⟨hthere, hlock⟩ := hset i hi
  have unpaid : i.status ≠ .paid := by
    intro hpaid
    rcases hopen with hstatus | hstatus <;> rw [hstatus] at hpaid <;> cases hpaid
  refine ⟨fun _ => ⟨i, ?_, unpaid⟩, fun hlocked => ⟨.inl ?_, i, ?_, unpaid⟩⟩
  · rw [hs]
    exact hthere
  · rw [honward.id]
    exact hlock hlocked
  · rw [tables_eq]
    exact hthere

namespace Readjusted

variable {strict : Prop} {zs added : List Invoice}

theorem changes (h : Readjusted strict set l s y zs added) :
    y.2.2.changes = s.changes.putAll ((zs ++ added).map .invoice) := by
  rw [h.session]
  rfl

/-- Nothing that a readjustment writes is paid. -/
theorem written_unpaid (h : Readjusted strict set l s y zs added) {i : Invoice}
    (hi : Put.invoice i ∈ (zs ++ added).map .invoice) : i.status ≠ .paid := by
  rcases List.mem_append.1 (show i ∈ zs ++ added by simpa using hi) with hi | hi
  · obtain ⟨⟨j, -, rfl⟩, -⟩ := h.cancels i hi
    exact fun hpaid => nomatch hpaid
  · rw [h.added_unpaid i hi]
    exact fun hpaid => nomatch hpaid

/-- The rows were cancelled on a view that may be old. If the session can commit, they are the rows that
its commit would have left. -/
theorem cancels_current (h : Readjusted strict set l s y zs added) (hh : l.Hosts s)
    (hl : l.Grants s.id y.2.1) (hafter : y.2.1.Admits y.2.2) {z : Invoice} (hz : z ∈ zs) :
    ∃ i, (l.tables.apply s.changes).invoices.get? z.id = some i ∧
      s.view.invoices.get? z.id = some i ∧ z = { i with status := .cancelled } := by
  obtain ⟨⟨i, hi, hzi⟩, -⟩ := h.cancels z hz
  have version : l.versions ⟨.invoice, z.id⟩ = s.base ⟨.invoice, z.id⟩ := by
    have noted : y.2.2.base = s.base := by
      rw [h.session]
      rfl
    rw [← hl.versions, ← noted]
    refine hafter _ ?_
    rw [h.changes]
    refine Changes.mem_written_putAll.2 (.inl ⟨.invoice z, ?_, rfl⟩)
    exact List.mem_map_of_mem (List.mem_append_left _ hz)
  have same : (l.tables.apply s.changes).invoices.get? z.id = s.view.invoices.get? z.id :=
    hh.fits.sameRow_view version
  exact ⟨i, same.trans hi, hi, hzi⟩

/-- **What a manager cancels is not paid**, if its set is locked or current and the session can
commit. -/
theorem cancels_unpaid (h : Readjusted strict set l s y zs added) (hset : Watched l s locked current set)
    (hh : l.Hosts s) (hl : l.Grants s.id y.2.1) (hafter : y.2.1.Admits y.2.2)
    (hguarded : locked = true ∨ current = true) {z i : Invoice} (hz : z ∈ zs)
    (hi : (l.tables.apply s.changes).invoices.get? z.id = some i) : i.status ≠ .paid := by
  obtain ⟨-, i₀, hi₀, hopen, hid⟩ := h.cancels z hz
  obtain ⟨i', hthere, hview, -⟩ := h.cancels_current hh hl hafter hz
  cases hi.symm.trans hthere
  obtain ⟨hcurrent, hlocked⟩ := hset i₀ hi₀ hopen
  rw [hid] at hcurrent hlocked
  rcases hguarded with hl | hc
  · obtain ⟨-, j, hj, hunpaid⟩ := hlocked hl
    cases hj.symm.trans hthere
    exact hunpaid
  · obtain ⟨j, hj, hunpaid⟩ := hcurrent hc
    cases hj.symm.trans hview
    exact hunpaid

/-- The set goes on being watched. -/
theorem watched (h : Readjusted strict set l s y zs added) (hset : Watched l s locked current set)
    (hl : l.Grants s.id y.2.1) (hon : s.Onward y.2.2) :
    Watched y.2.1 y.2.2 locked current y.1 := by
  intro i hi hopen
  have horigin := h.set_open i hi hopen
  -- an invoice that is open still is as it was, or is the one just stored
  have row {t : Tables} (hold : i ∈ set → ∃ j, t.invoices.get? i.id = some j ∧ j.status ≠ .paid) :
      ∃ j, (t.putAll ((zs ++ added).map .invoice)).invoices.get? i.id = some j ∧
        j.status ≠ .paid := by
    rcases Tables.invoice_putAll t ((zs ++ added).map .invoice) i.id with
      ⟨hget, hne⟩ | ⟨z, hz, -, hget⟩
    · rcases horigin with hi | hi
      · rw [hget]
        exact hold hi
      · exact absurd rfl (hne i (List.mem_map_of_mem (List.mem_append_right _ hi)))
    · exact ⟨z, hget, h.written_unpaid hz⟩
  refine ⟨fun hc => ?_, fun hlocked => ⟨?_, ?_⟩⟩
  · rw [h.session, s.view_writeAll (by simp)]
    exact row fun hi => (hset i hi hopen).1 hc
  · rcases horigin with hi | hi
    · rw [hon.id]
      exact ((hset i hi hopen).2 hlocked).1.imp hl.locks_own (hon.written _)
    · refine .inr ?_
      rw [h.changes]
      refine Changes.mem_written_putAll.2 (.inl ⟨.invoice i, ?_, rfl⟩)
      exact List.mem_map_of_mem (List.mem_append_right _ hi)
  · rw [hl.tables, h.changes, Tables.apply_putAll _ _ (by simp)]
    exact row fun hi => ((hset i hi hopen).2 hlocked).2

end Readjusted

end Readjustment

end TeamLedger
