/-
A submission of everything takes everything or fails.

The target of such a submission is the sum of all invoices that were found, while
the selection passes over some of them. With positive amounts each invoice that is
passed over is missing from the sum for good. So the target is reached only at the
very end, and only if nothing is passed over; otherwise the selection goes on to
an invoice that stops it, or to the end of the list, where the sum falls short.

This is a matter of the prefix that fills the target (`Selection.Fills`): there is
none, or it is the whole list. What is written is then what creating writes for a
selection of everything.

The submission may still hold an invoice that was not found: one that had been
linked to its number before there was a submission with it
(`Workflow.createAll_takes_all_dangling`).
-/
import TeamLedger.Proofs.Accepting
import TeamLedger.Proofs.OldestFirst
import TeamLedger.Proofs.Pairs
import TeamLedger.Proofs.TrueSums

set_option autoImplicit false

namespace TeamLedger

/-! ## Parts that are worth the whole -/

namespace Invoice

variable {active : List Ident} {is js : List Invoice}

/-- With positive amounts nothing is worth nothing. -/
theorem eq_nil_of_sumUnits (hpos : ∀ i ∈ is, 0 < i.amount.units) (h : sumUnits is ≤ 0) : is = [] := by
  cases is with
  | nil => rfl
  | cons i is =>
    obtain ⟨hi, hrest⟩ := List.forall_mem_cons.1 hpos
    have hnonneg := sumUnits_nonneg hrest
    rw [sumUnits_cons] at h
    omega

theorem sumUnits_eligible_le_sumUnits (active : List Ident) (hpos : ∀ i ∈ is, 0 < i.amount.units) :
    sumUnits (eligible active is) ≤ sumUnits is := by
  have hsplit := sumUnits_filter_add is fun i => i.Eligible active
  have hothers : 0 ≤ sumUnits (is.filter fun i => !decide (i.Eligible active)) :=
    sumUnits_nonneg fun i hi => hpos i (List.mem_filter.1 hi).1
  unfold eligible
  omega

/-- If what may be taken is worth everything, everything may be taken. -/
theorem eligible_of_sumUnits (hpos : ∀ i ∈ is, 0 < i.amount.units)
    (h : sumUnits is ≤ sumUnits (eligible active is)) : ∀ i ∈ is, i.Eligible active := by
  have hsplit := sumUnits_filter_add is fun i => i.Eligible active
  have hothers : (is.filter fun i => !decide (i.Eligible active)) = [] := by
    refine eq_nil_of_sumUnits (fun i hi => hpos i (List.mem_filter.1 hi).1) ?_
    unfold eligible at h
    omega
  intro i hi
  simpa using List.filter_eq_nil_iff.1 hothers i hi

/-- If everything may be taken, this is everything. -/
theorem eligible_eq_self (h : ∀ i ∈ is, i.Eligible active) : eligible active is = is :=
  List.filter_eq_self.2 fun i hi => decide_eq_true (h i hi)

end Invoice

/-! ## Selecting everything -/

namespace Selection

open Invoice (Eligible Blocking eligible sumUnits)

variable {active : List Ident} {target : Money} {is front : List Invoice}

/-- **The sum of everything is filled** by everything, if by anything. -/
theorem fills_sum_iff (hpos : ∀ i ∈ is, 0 < i.amount.units) (htarget : target.units = sumUnits is) :
    Fills active target is front ↔ front = is ∧ is ≠ [] ∧ ∀ i ∈ is, i.Eligible active := by
  constructor
  · intro h
    obtain ⟨rest, hrest⟩ := h.prefix_of
    have hfront_pos : ∀ i ∈ front, 0 < i.amount.units := fun i hi => hpos i (h.prefix_of.subset hi)
    have hrest_pos : ∀ i ∈ rest, 0 < i.amount.units := fun i hi =>
      hpos i (hrest ▸ List.mem_append_right front hi)
    -- what may be taken is worth no more than its prefix, and this has to be worth everything
    have hreaches := h.reaches
    have hle := Invoice.sumUnits_eligible_le_sumUnits active hfront_pos
    have hsum : sumUnits is = sumUnits front + sumUnits rest := by
      rw [← hrest, Invoice.sumUnits_append]
    -- nothing is left behind what fills the target
    obtain rfl : rest = [] := Invoice.eq_nil_of_sumUnits hrest_pos (by omega)
    rw [List.append_nil] at hrest
    subst hrest
    obtain ⟨before, i, hlast, -⟩ := h.ends
    refine ⟨rfl, by simp [hlast], Invoice.eligible_of_sumUnits hpos (by omega)⟩
  · rintro ⟨rfl, hne, hall⟩
    obtain ⟨before, i, hlast⟩ := (List.eq_nil_or_concat front).resolve_left hne
    exact {
      prefix_of := List.prefix_refl _
      ends := ⟨before, i, by simpa using hlast, hall i (by simp [hlast])⟩
      clear := fun i hi hblocks => hblocks.not_eligible (hall i hi)
      reaches := by rw [Invoice.eligible_eq_self hall, htarget] }

/-- Every invoice that stops a selection comes before more than everything is taken. -/
theorem blocked_sum_iff (hpos : ∀ i ∈ is, 0 < i.amount.units) (htarget : target.units = sumUnits is) :
    Blocked active target is ↔ ∃ i ∈ is, i.Blocking := by
  constructor
  · rintro ⟨front, i, hfront, hblocking, -⟩
    exact ⟨i, hfront.subset (List.mem_append_right _ List.mem_cons_self), hblocking⟩
  · rintro ⟨i, hi, hblocking⟩
    obtain ⟨front, rest, rfl⟩ := List.append_of_mem hi
    have hfront : front ++ [i] <+: front ++ i :: rest := ⟨rest, by simp⟩
    refine ⟨front, i, hfront, hblocking, fun part hpart => ?_⟩
    rw [htarget]
    refine Int.le_trans (Invoice.sumUnits_eligible_le active hpos ?_)
      (Invoice.sumUnits_eligible_le_sumUnits active hpos)
    exact hpart.trans (List.prefix_append ..)

/-- **Selecting for the sum of everything** takes everything, or it fails: because of an invoice that
stops it, if there is any, and else because of the amounts. -/
theorem select_sum (hpos : ∀ i ∈ is, 0 < i.amount.units) (htarget : target.units = sumUnits is)
    (hadds : Invoice.AddsUp (eligible active is)) :
    (∀ ids, select is active target = .ok ids ↔
      (is ≠ [] ∧ ∀ i ∈ is, i.Eligible active) ∧ ids = is.map (·.id)) ∧
    (¬ (is ≠ [] ∧ ∀ i ∈ is, i.Eligible active) →
      ((∃ i ∈ is, i.Blocking) →
        ∃ cause, select is active target = .error (.refused (.consistency cause))) ∧
      ((¬ ∃ i ∈ is, i.Blocking) →
        ∃ cause, select is active target = .error (.refused (.amount cause)))) := by
  have hnonneg : 0 ≤ target.units := htarget ▸ Invoice.sumUnits_nonneg hpos
  obtain ⟨htakes, hfails⟩ := select_takes_oldest hpos hnonneg hadds
  simp only [fills_sum_iff hpos htarget, blocked_sum_iff hpos htarget] at htakes hfails
  refine ⟨fun ids => (htakes ids).trans ?_, fun hnot => hfails fun ⟨_, _, hall⟩ => hnot hall⟩
  constructor
  · rintro ⟨front, ⟨rfl, hne, hall⟩, rfl⟩
    rw [Invoice.eligible_eq_self hall]
    exact ⟨⟨hne, hall⟩, rfl⟩
  · rintro ⟨⟨hne, hall⟩, rfl⟩
    refine ⟨is, ⟨rfl, hne, hall⟩, ?_⟩
    rw [Invoice.eligible_eq_self hall]

end Selection

/-! ## Creating a submission of everything -/

/-- A query that has been answered was not kept from its locks. -/
theorem Query.not_blocked {root : Root} {q : Query root} {l : Ledger} {s : Session}
    {rows : List root.Row} (h : (s.answer l (.find root q)).1 = .ok rows) : ¬ q.Blocked l s := by
  rintro ⟨hlocked, row, hrow, other, hheld, hother⟩
  rcases s.answer_find_locked l hlocked with ⟨hfree, -⟩ | ⟨_, -, -, hanswer⟩
  · have hnot_taken := hfree ⟨root, root.idOf row⟩ (List.mem_map_of_mem hrow)
    rw [Ledger.taken_eq_true.2 ⟨other, hheld, hother⟩] at hnot_taken
    cases hnot_taken
  · rw [hanswer] at h
    cases h

/-- What a query has answered is what it selects from the tables as the session sees them. -/
theorem Session.inOrder_of_find {root : Root} {q : Query root} {l : Ledger} {s : Session}
    {rows : List root.Row} (h : (s.answer l (.find root q)).1 = .ok rows) :
    root.inOrder (q.select (l.tables.apply s.changes)) = rows := by
  rcases s.answer_find l q with ⟨⟨e, he⟩, -⟩ | ⟨hrows, -⟩
  · cases he.symm.trans h
  · exact Except.ok.inj (hrows.symm.trans h)

/-- **What submitting invoices does to the tables**: a submission of their sum, which no row was under,
is linked to all of them. Links that were there stay. -/
structure Tables.Submits (t t' : Tables) (loaded : List Invoice) (x : Submission) : Prop where
  amount : x.amount.units = Invoice.sumUnits loaded
  submitted : x.status = .submitted
  new : t.submissions.get? x.id = none
  row : t'.submissions.get? x.id = some x
  links : t'.links = t.links ++ loaded.map fun i => ⟨i.id, x.id⟩
  marked : ∀ i ∈ loaded, t'.invoices.get? i.id = some i.marked

/-- If no link named the submission before, it is linked to the invoices and to nothing else. -/
theorem Tables.Submits.linked_iff {t t' : Tables} {loaded : List Invoice} {x : Submission}
    (h : t.Submits t' loaded x) (hfresh : ∀ i, ⟨i, x.id⟩ ∉ t.links) (i : Ident) :
    ⟨i, x.id⟩ ∈ t'.links ↔ ∃ j ∈ loaded, j.id = i := by
  rw [h.links, List.mem_append]
  simp [hfresh i]

namespace Workflow

variable {w : Workflow} {l : Ledger} {s : Session} {query : Query .invoice} {loaded : List Invoice}

/-- What is chosen of the invoices that a query returns, when all of them are to be submitted. -/
theorem chosen_zero {t : Tables} {m : Money} (hloaded : Root.invoice.inOrder (query.select t) = loaded)
    (htotal : Money.total (loaded.map (·.amount)) = .ok m) : t.chosen query .zero =
      (Selection.select loaded (t.activeAmong loaded) m).map fun selected => (m, selected) := by
  have htarget : targetOf loaded .zero = .ok m := htotal
  unfold Tables.chosen
  rw [if_neg (by decide), hloaded]
  dsimp only
  rw [htarget]

/-- A batch of everything that was found. -/
theorem Batched.submits {y : Workflow × Ledger × Session} {x : Submission} {active : List Ident}
    {e : LogEntry} (h : Batched w l s y query x active loaded e) (hl : l.Hosts s)
    (hgrants : l.Grants s.id y.2.1) (hamount : x.amount.units = Invoice.sumUnits loaded) :
    (l.tables.apply s.changes).Submits (y.2.1.tables.apply y.2.2.changes) loaded x := by
  have htables := h.tables_eq hgrants
  rw [htables]
  exact {
    amount := hamount
    submitted := h.submitted
    new := h.new
    row := by rw [Submission.heads_batch.get?_putAll, if_pos rfl]
    links := by rw [Tables.putAll_links, Submission.links_batch, List.map_map]; rfl
    marked := fun i hi => h.invoice_after hl hi }

/-- **All or nothing.** A submission of all invoices that a query returns is created exactly if there
are any and all of them are unpaid and in no submission under way. It is one of their sum, and they are
linked to it. Otherwise creating fails: because of an invoice that is not final or already paid, if one
was returned, and else because of the amounts. -/
theorem createAll_takes_all (hl : l.Hosts s)
    (hfind : (s.answer l (.find .invoice query)).1 = .ok loaded)
    (hpos : ∀ i ∈ loaded, 0 < i.amount.units) (hexact : Invoice.SumsExactly loaded)
    (w : Workflow) (receipt : String) (around : Surroundings) : ∃ r w' l' s' around',
    (createAll query receipt).run Session.backend w (l, s) around = (r, w', (l', s'), around') ∧
      ((∃ x, r = .ok x) ↔ loaded ≠ [] ∧
        ∀ i ∈ loaded, i.status = .notPaid ∧ ¬ (l.tables.apply s.changes).Active i.id) ∧
      (∀ x, r = .ok x →
        (l.tables.apply s.changes).Submits (l'.tables.apply s'.changes) loaded x ∧
        ((∀ i, ⟨i, x.id⟩ ∉ (l.tables.apply s.changes).links) →
          ∀ i, ⟨i, x.id⟩ ∈ (l'.tables.apply s'.changes).links ↔ ∃ j ∈ loaded, j.id = i)) ∧
      ((∀ x, r ≠ .ok x) →
        ((∃ i ∈ loaded, i.Blocking) → ∃ cause, r = .error (.refused (.consistency cause))) ∧
        ((¬ ∃ i ∈ loaded, i.Blocking) → ∃ cause, r = .error (.refused (.amount cause)))) := by
  have hkeyed : (l.tables.apply s.changes).Keyed := hl.shown_keyed
  have hfound := Session.inOrder_of_find hfind
  have hperm := Root.inOrder_perm .invoice (query.select (l.tables.apply s.changes))
  rw [hfound] at hperm
  have hnodup : loaded.Nodup :=
    List.Nodup.of_map _ (Query.distinct_of_found hkeyed hperm (List.Sublist.refl _))
  -- the target is the sum of everything
  obtain ⟨m, hm, htarget⟩ := hexact loaded hnodup (List.Subset.refl _)
  have hchosen := chosen_zero hfound hm
  have hadds (active : List Ident) : Invoice.AddsUp (Invoice.eligible active loaded) := by
    intro front hfront
    have hsub := hfront.sublist.trans List.filter_sublist
    exact hexact front (hnodup.sublist hsub) hsub.subset
  obtain ⟨htakes, hfails⟩ := Selection.select_sum hpos htarget
    (hadds ((l.tables.apply s.changes).activeAmong loaded))
  have eligible_iff : (∀ i ∈ loaded, i.Eligible ((l.tables.apply s.changes).activeAmong loaded)) ↔
      ∀ i ∈ loaded, i.status = .notPaid ∧ ¬ (l.tables.apply s.changes).Active i.id := by
    refine forall₂_congr fun i hi => and_congr_right fun _ => not_congr ?_
    rw [Tables.mem_activeAmong hkeyed fun j hj => Query.there_of_found hkeyed hperm hj]
    exact and_iff_right (List.mem_map_of_mem hi)
  -- a run of the service ends in one of the ways that creating goes
  obtain ⟨r, w', l', s', around', hrun⟩ : ∃ r w' l' s' around', (createAll query receipt).run
      Session.backend w (l, s) around = (r, w', (l', s'), around') := ⟨_, _, _, _, _, rfl⟩
  refine ⟨r, w', l', s', around', hrun, ?_⟩
  have hends := Service.Ends.of_run hrun
  obtain ⟨hgrants, -, -⟩ := hends.leads hl
  rw [← eligible_iff]
  rcases create_goes hl hends with
    ⟨e, rfl, -, hblocked | hnone⟩ | ⟨x, active, taken, e, rfl, hsome, hbatched⟩
  · exact absurd hblocked (Query.not_blocked hfind)
  · -- nothing was chosen, and so nothing selected
    rw [hchosen] at hnone
    cases hselect : Selection.select loaded ((l.tables.apply s.changes).activeAmong loaded) m with
    | ok ids =>
      rw [hselect] at hnone
      cases hnone
    | error e' =>
      rw [hselect] at hnone hfails
      cases hnone
      have hnot : ¬ (loaded ≠ [] ∧
          ∀ i ∈ loaded, i.Eligible ((l.tables.apply s.changes).activeAmong loaded)) := by
        intro hall
        cases hselect.symm.trans ((htakes _).2 ⟨hall, rfl⟩)
      refine ⟨iff_of_false (fun ⟨x, hx⟩ => nomatch hx) hnot, fun x hx => (nomatch hx), fun _ => ?_⟩
      obtain ⟨hconsistency, hamount⟩ := hfails hnot
      have same {f : Failure} (h : (Except.error e : Except Failure (List Ident)) = .error f) :
          (Except.error e : Except Failure Submission) = .error f :=
        congrArg Except.error (Except.error.inj h)
      exact ⟨fun hblocking => (hconsistency hblocking).imp fun _ => same,
        fun hclear => (hamount hclear).imp fun _ => same⟩
  · rw [hchosen] at hsome
    cases hselect : Selection.select loaded ((l.tables.apply s.changes).activeAmong loaded) m with
    | error e' =>
      rw [hselect] at hsome
      cases hsome
    | ok ids =>
      rw [hselect] at hsome
      obtain ⟨hall, rfl⟩ := (htakes ids).1 hselect
      have pair_eq := Except.ok.inj hsome
      have amount_eq : m = x.amount := congrArg Prod.fst pair_eq
      have ids_eq : loaded.map (·.id) = taken.map (·.id) := congrArg Prod.snd pair_eq
      have listed := hbatched.listed
      rw [hfound] at listed
      -- what was taken is a part of what was found, and as long
      obtain rfl : taken = loaded :=
        listed.eq_of_length (by simpa using congrArg List.length ids_eq.symm)
      have hsubmits := hbatched.submits hl hgrants (by rw [← amount_eq, htarget])
      refine ⟨iff_of_true ⟨x, rfl⟩ hall, ?_, fun hne => absurd rfl (hne x)⟩
      rintro x' ⟨⟩
      exact ⟨hsubmits, hsubmits.linked_iff⟩

/-- What `twoInvoices` stores. -/
def hundredAndFifty : List Invoice :=
  [(1, 100), (2, 50)].map fun parts =>
    { (default : Invoice) with
      id := parts.1, fromTeam := 1, toTeam := 2, kind := .product, status := .notPaid,
      amount := (Money.ofParts? parts.2 0).getD .zero, created := .ofSecond 0 }

theorem hundredAndFifty_sized : Invoice.LedgerSized hundredAndFifty :=
  .of_scale_le (by decide) (by decide)

/-- Two invoices are submitted as one amount, and both of them are linked to it. -/
theorem createAll_takes_all_two : ∃ x w' l' s' around',
    (afterwards twoInvoices).1.Hosts (afterwards twoInvoices).2 ∧
    ((afterwards twoInvoices).2.answer (afterwards twoInvoices).1
      (.find .invoice (.start .invoice false))).1 = .ok hundredAndFifty ∧
    (∀ i ∈ hundredAndFifty, 0 < i.amount.units) ∧ Invoice.SumsExactly hundredAndFifty ∧
    (createAll (.start .invoice false) "").run Session.backend { agent := .system }
      (afterwards twoInvoices) { clock := ⟨.ofSecond 1⟩ } = (.ok x, w', (l', s'), around') ∧
    x.amount.units = ((Money.ofParts? 150 0).getD .zero).units ∧
    ∀ i, ⟨i, x.id⟩ ∈ (l'.tables.apply s'.changes).links ↔ i = 1 ∨ i = 2 := by
  have sound := sound_afterwards twoInvoices
  have hosts : (afterwards twoInvoices).1.Hosts (afterwards twoInvoices).2 :=
    ⟨sound.keyed, sound.within, sound.fits "first" _ (Function.update_self ..)⟩
  have found : ((afterwards twoInvoices).2.answer (afterwards twoInvoices).1
      (.find .invoice (.start .invoice false))).1 = .ok hundredAndFifty := by decide +kernel
  have positive : ∀ i ∈ hundredAndFifty, 0 < i.amount.units := by decide
  have exact_sums := hundredAndFifty_sized.sumsExactly
  have unlinked : ((afterwards twoInvoices).1.tables.apply (afterwards twoInvoices).2.changes).links =
      [] := by decide +kernel
  obtain ⟨r, w', l', s', around', hrun, hok, hsubmits, -⟩ := createAll_takes_all hosts found positive
    exact_sums { agent := .system } "" { clock := ⟨.ofSecond 1⟩ }
  have unpaid : ∀ i ∈ hundredAndFifty, i.status = .notPaid := by decide
  obtain ⟨x, rfl⟩ := hok.2 ⟨by decide, fun i hi => ⟨unpaid i hi, fun ⟨y, hlink, _⟩ => by
    rw [unlinked] at hlink
    cases hlink⟩⟩
  obtain ⟨submits, linked_iff⟩ := hsubmits x rfl
  refine ⟨x, w', l', s', around', hosts, found, positive, exact_sums, hrun, ?_, fun i => ?_⟩
  · rw [submits.amount]
    decide
  · rw [linked_iff (fun j => by rw [unlinked]; exact List.not_mem_nil) i]
    simp [hundredAndFifty, eq_comm]

/-- Links are not checked when they are stored. So an invoice that the query has not returned may be
linked to the number already that the submission gets. -/
theorem createAll_takes_all_dangling :
    ¬ ∀ (p : Program Unit) (w w' : Workflow) (l' : Ledger) (s' : Session) (query : Query .invoice)
      (loaded : List Invoice) (receipt : String) (x : Submission) (around around' : Surroundings),
      ((afterwards p).2.answer (afterwards p).1 (.find .invoice query)).1 = .ok loaded →
      (∀ i ∈ loaded, 0 < i.amount.units) → Invoice.SumsExactly loaded →
      (createAll query receipt).run Session.backend w (afterwards p) around =
        (.ok x, w', (l', s'), around') →
      ∀ i, ⟨i, x.id⟩ ∈ (l'.tables.apply s'.changes).links → ∃ j ∈ loaded, j.id = i := by
  intro hall
  let query := (Query.start .invoice false).take (.ids [1])
  let run := (createAll query "").run Session.backend { agent := .system } (afterwards danglingLink)
    { clock := ⟨.ofSecond 1⟩ }
  have found : ((afterwards danglingLink).2.answer (afterwards danglingLink).1
      (.find .invoice query)).1 = .ok (hundredAndFifty.take 1) := by decide +kernel
  have created : run.1 = .ok hundred := by decide +kernel
  have links_eq : (run.2.2.1.1.tables.apply run.2.2.1.2.changes).links = [⟨2, 3⟩, ⟨1, 3⟩] := by
    decide +kernel
  have exact_sums : Invoice.SumsExactly (hundredAndFifty.take 1) :=
    (hundredAndFifty_sized.sublist (List.take_sublist ..)).sumsExactly
  obtain ⟨j, hj, hid⟩ := hall _ _ run.2.1 run.2.2.1.1 run.2.2.1.2 _ _ _ _ _ run.2.2.2 found (by decide)
    exact_sums (Prod.ext created rfl) 2 (links_eq ▸ List.mem_cons_self)
  revert j
  decide

end Workflow

end TeamLedger
