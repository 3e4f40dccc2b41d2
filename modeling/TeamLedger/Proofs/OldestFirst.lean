/-
Selecting takes the oldest invoices, as far as the target reaches.

The loop goes on as long as something is missing: nothing so far has stopped it,
and the invoices taken stay below the target, or there are none (`Pending`). So
there is a first invoice that decides, if there is any, and the invoices before
it are pending. It is one that may not be paid, or it is taken and the target is
reached with it, or it leads beyond the target (`Course`).

With positive amounts, every invoice that is taken adds to the sum. Hence at most
one prefix of the list adds up to the target and ends in an invoice that is taken,
and it is the one at which the loop stops.
-/
import TeamLedger.Proofs.Taking

set_option autoImplicit false

namespace TeamLedger

/-! ## Invoices that may be taken, and invoices that stop -/

namespace Invoice

/-- The invoice may be taken: it is unpaid, and not part of an active batch. -/
def Eligible (active : List Ident) (i : Invoice) : Prop := i.status = .notPaid ∧ i.id ∉ active

instance (active : List Ident) (i : Invoice) : Decidable (i.Eligible active) :=
  inferInstanceAs (Decidable (_ ∧ _))

/-- The invoice is not final or already paid, which stops a selection. -/
def Blocking (i : Invoice) : Prop := i.status = .notFinal ∨ i.status = .paid

instance (i : Invoice) : Decidable i.Blocking := inferInstanceAs (Decidable (_ ∨ _))

/-- The invoices of a list that may be taken. -/
def eligible (active : List Ident) (is : List Invoice) : List Invoice :=
  is.filter fun i => i.Eligible active

/-- Added up from the left, the amounts of the invoices are never rounded. -/
def AddsUp (is : List Invoice) : Prop :=
  ∀ front, front <+: is →
    ∃ m, Money.total (front.map (·.amount)) = .ok m ∧ m.units = sumUnits front

/-- Added to an amount from the left, the amounts of the invoices are never rounded. -/
def AddsOnto (total : Money) (is : List Invoice) : Prop :=
  ∀ front, front <+: is →
    ∃ m, (front.map (·.amount)).foldlM Money.add total = .ok m ∧
      m.units = total.units + sumUnits front

variable {active : List Ident} {i : Invoice} {is js : List Invoice}

/-- Adding up begins with nothing. -/
theorem AddsUp.onto_zero (h : AddsUp is) : AddsOnto .zero is := by
  intro front hfront
  obtain ⟨m, hm, hunits⟩ := h front hfront
  exact ⟨m, hm, hunits.trans (Int.zero_add _).symm⟩

/-- The first amount is added, and the others onto the sum. -/
theorem AddsOnto.cons {total : Money} (h : AddsOnto total (i :: is)) : ∃ sum,
    total.add i.amount = .ok sum ∧ sum.units = total.units + i.amount.units ∧ AddsOnto sum is := by
  obtain ⟨sum, hadd, hunits⟩ := h [i] (List.prefix_append [i] is)
  replace hadd : total.add i.amount = .ok sum := by
    simpa [List.foldlM_cons] using hadd
  replace hunits : sum.units = total.units + i.amount.units := by
    simpa [sumUnits_cons, sumUnits] using hunits
  refine ⟨sum, hadd, hunits, fun front hfront => ?_⟩
  obtain ⟨m, hm, hmunits⟩ := h (i :: front) (List.cons_prefix_cons.2 ⟨rfl, hfront⟩)
  rw [List.map_cons, List.foldlM_cons, hadd] at hm
  rw [sumUnits_cons] at hmunits
  exact ⟨m, hm, by omega⟩

theorem Blocking.not_eligible (h : i.Blocking) : ¬ i.Eligible active := by
  rintro ⟨hunpaid, -⟩
  rcases h with h | h <;> rw [hunpaid] at h <;> cases h

theorem mem_eligible : i ∈ eligible active is ↔ i ∈ is ∧ i.Eligible active := by
  simp [eligible]

theorem eligible_append (active : List Ident) (is js : List Invoice) :
    eligible active (is ++ js) = eligible active is ++ eligible active js := List.filter_append ..

theorem eligible_cons_of (h : i.Eligible active) (is : List Invoice) :
    eligible active (i :: is) = i :: eligible active is :=
  List.filter_cons_of_pos (by simpa using h)

theorem eligible_cons_of_not (h : ¬ i.Eligible active) (is : List Invoice) :
    eligible active (i :: is) = eligible active is :=
  List.filter_cons_of_neg (by simpa using h)

theorem sumUnits_nonneg (h : ∀ i ∈ is, 0 < i.amount.units) : 0 ≤ sumUnits is := by
  induction is with
  | nil => exact Int.le_refl 0
  | cons i is ih =>
    have hi := h i List.mem_cons_self
    have hrest := ih fun j hj => h j (List.mem_cons_of_mem _ hj)
    rw [sumUnits_cons]
    omega

/-- Going on in a list, what may be taken adds up to more. -/
theorem sumUnits_eligible_le (active : List Ident) (hpos : ∀ i ∈ js, 0 < i.amount.units)
    (h : is <+: js) :
    sumUnits (eligible active is) ≤ sumUnits (eligible active js) := by
  obtain ⟨rest, rfl⟩ := h
  have hrest : 0 ≤ sumUnits (eligible active rest) :=
    sumUnits_nonneg fun i hi => hpos i (List.mem_append_right _ (mem_eligible.1 hi).1)
  rw [eligible_append, sumUnits_append]
  omega

end Invoice

namespace Selection

open Invoice (Eligible Blocking eligible sumUnits AddsUp AddsOnto)

variable {active : List Ident} {target total : Money} {is : List Invoice}

/-! ## The course of a selection -/

/-- The invoices leave the selection going: none of them stops it, and what was taken of them is
below the room that there was. -/
structure Pending (active : List Ident) (room : Int) (front : List Invoice) : Prop where
  clear : ∀ i ∈ front, ¬ i.Blocking
  below : sumUnits (eligible active front) < room ∨ eligible active front = []

/-- How going through invoices ends, beginning with a sum reached before. -/
inductive Course (active : List Ident) (target total : Money) (is : List Invoice) :
    Except Failure (List Ident × Money) → Prop
  | short (sum : Money) (pending : Pending active (target.units - total.units) is)
      (sum_eq : sum.units = total.units + sumUnits (eligible active is)) :
      Course active target total is (.ok ((eligible active is).map (·.id), sum))
  | blocked (front : List Invoice) (i : Invoice) (cause : ConsistencyError)
      (prefix_of : front ++ [i] <+: is)
      (pending : Pending active (target.units - total.units) front) (blocking : i.Blocking) :
      Course active target total is (.error (.refused (.consistency cause)))
  | reached (front : List Invoice) (i : Invoice) (sum : Money) (prefix_of : front ++ [i] <+: is)
      (pending : Pending active (target.units - total.units) front) (eligible : i.Eligible active)
      (sum_eq : total.units + sumUnits (Invoice.eligible active (front ++ [i])) = target.units)
      (reaches : sum.units = target.units) :
      Course active target total is (.ok ((Invoice.eligible active (front ++ [i])).map (·.id), sum))
  | beyond (front : List Invoice) (i : Invoice) (cause : AmountError)
      (prefix_of : front ++ [i] <+: is)
      (pending : Pending active (target.units - total.units) front) (eligible : i.Eligible active)
      (exceeds : target.units < total.units + sumUnits (Invoice.eligible active (front ++ [i]))) :
      Course active target total is (.error (.refused (.amount cause)))

variable {front rest : List Invoice} {i : Invoice} {room : Int}
  {result : Except Failure (List Ident × Money)}

/-- An invoice that is passed over changes nothing for those behind it. -/
theorem Pending.pass (hfree : ¬ i.Eligible active) (hclear : ¬ i.Blocking)
    (h : Pending active room front) : Pending active room (i :: front) where
  clear j hj := by
    rcases List.mem_cons.1 hj with rfl | hj
    · exact hclear
    · exact h.clear j hj
  below := by
    rw [Invoice.eligible_cons_of_not hfree]
    exact h.below

/-- An invoice that is taken leaves less room, but some. -/
theorem Pending.take (hfree : i.Eligible active) (hroom : i.amount.units < room)
    (h : Pending active (room - i.amount.units) front) : Pending active room (i :: front) where
  clear j hj := by
    rcases List.mem_cons.1 hj with rfl | hj
    · exact fun hblocks => hblocks.not_eligible hfree
    · exact h.clear j hj
  below := by
    left
    rw [Invoice.eligible_cons_of hfree, Invoice.sumUnits_cons]
    rcases h.below with hbelow | hnone
    · omega
    · rw [hnone]
      exact (Int.add_zero _).symm ▸ hroom

theorem Pending.nil : Pending active room [] where
  clear _ hi := nomatch hi
  below := .inr rfl

theorem Course.pass (hfree : ¬ i.Eligible active) (hclear : ¬ i.Blocking)
    (h : Course active target total rest result) : Course active target total (i :: rest) result := by
  cases h with
  | short sum pending sum_eq =>
    rw [← Invoice.eligible_cons_of_not hfree] at sum_eq ⊢
    exact .short sum (pending.pass hfree hclear) sum_eq
  | blocked front j cause prefix_of pending blocking =>
    exact .blocked (i :: front) j cause (List.cons_prefix_cons.2 ⟨rfl, prefix_of⟩)
      (pending.pass hfree hclear) blocking
  | reached front j sum prefix_of pending eligible sum_eq reaches =>
    rw [← Invoice.eligible_cons_of_not hfree] at sum_eq ⊢
    exact .reached (i :: front) j sum (List.cons_prefix_cons.2 ⟨rfl, prefix_of⟩)
      (pending.pass hfree hclear) eligible sum_eq reaches
  | beyond front j cause prefix_of pending eligible exceeds =>
    rw [← Invoice.eligible_cons_of_not hfree] at exceeds
    exact .beyond (i :: front) j cause (List.cons_prefix_cons.2 ⟨rfl, prefix_of⟩)
      (pending.pass hfree hclear) eligible exceeds

theorem Course.take {total' : Money} (hfree : i.Eligible active)
    (hunits : total'.units = total.units + i.amount.units) (hroom : total'.units < target.units)
    (h : Course active target total' rest result) :
    Course active target total (i :: rest)
      (result.map fun taken => (i.id :: taken.1, taken.2)) := by
  have hsum (js : List Invoice) : total.units + sumUnits (eligible active (i :: js)) =
      total'.units + sumUnits (eligible active js) := by
    rw [Invoice.eligible_cons_of hfree, Invoice.sumUnits_cons]
    omega
  have hpending {js : List Invoice} (h : Pending active (target.units - total'.units) js) :
      Pending active (target.units - total.units) (i :: js) := by
    refine .take hfree (by omega) ?_
    rwa [Int.sub_sub, ← hunits]
  have htaken (js : List Invoice) (sum : Money) :
      (Except.ok ((eligible active js).map (·.id), sum) : Except Failure (List Ident × Money)).map
        (fun taken => (i.id :: taken.1, taken.2)) =
          .ok ((eligible active (i :: js)).map (·.id), sum) := by
    rw [Invoice.eligible_cons_of hfree]
    rfl
  cases h with
  | short sum pending sum_eq =>
    rw [htaken]
    exact .short sum (hpending pending) (sum_eq.trans (hsum rest).symm)
  | blocked front j cause prefix_of pending blocking =>
    exact .blocked (i :: front) j cause (List.cons_prefix_cons.2 ⟨rfl, prefix_of⟩)
      (hpending pending) blocking
  | reached front j sum prefix_of pending eligible sum_eq reaches =>
    rw [htaken]
    exact .reached (i :: front) j sum (List.cons_prefix_cons.2 ⟨rfl, prefix_of⟩)
      (hpending pending) eligible ((hsum _).trans sum_eq) reaches
  | beyond front j cause prefix_of pending eligible exceeds =>
    exact .beyond (i :: front) j cause (List.cons_prefix_cons.2 ⟨rfl, prefix_of⟩)
      (hpending pending) eligible (by rw [List.cons_append, hsum]; exact exceeds)

/-- **Going through invoices** takes one of the four courses. -/
theorem gather_course (hadds : AddsOnto total (eligible active is)) :
    Course active target total is (gather active target total is) := by
  induction is generalizing total with
  | nil => exact .short total .nil (Int.add_zero _).symm
  | cons i rest ih =>
    -- an invoice that is passed over leaves the sum as it is
    have pass (hfree : ¬ i.Eligible active) (hclear : ¬ i.Blocking) :
        Course active target total (i :: rest) (gather active target total rest) := by
      rw [Invoice.eligible_cons_of_not hfree] at hadds
      exact (ih hadds).pass hfree hclear
    have hfirst : [] ++ [i] <+: i :: rest := List.prefix_append [i] rest
    unfold gather
    split
    next hstatus => exact .blocked [] i _ hfirst .nil (.inl hstatus)
    next hstatus => exact .blocked [] i _ hfirst .nil (.inr hstatus)
    next hstatus => exact pass (by simp [Eligible, hstatus]) (by simp [Blocking, hstatus])
    next hstatus =>
      by_cases hactive : i.id ∈ active
      · rw [if_pos (by simpa using hactive)]
        exact pass (fun h => h.2 hactive) (by simp [Blocking, hstatus])
      rw [if_neg (by simpa using hactive)]
      have hfree : i.Eligible active := ⟨hstatus, hactive⟩
      rw [Invoice.eligible_cons_of hfree] at hadds
      obtain ⟨total', hadd, hunits, hrest⟩ := hadds.cons
      have htaken : total.units + sumUnits (eligible active ([] ++ [i])) = total'.units := by
        rw [List.nil_append, Invoice.eligible_cons_of hfree, hunits]
        simp [eligible, sumUnits]
      rw [hadd]
      dsimp only
      split
      next hover =>
        exact .beyond [] i _ hfirst .nil hfree (htaken.symm ▸ Money.lt_iff.1 hover)
      next hover =>
        split
        next hreaches =>
          have hcourse := Course.reached [] i total' hfirst .nil hfree
            (htaken.trans (Money.equiv_iff.1 hreaches)) (Money.equiv_iff.1 hreaches)
          rwa [List.nil_append, Invoice.eligible_cons_of hfree] at hcourse
        next hreaches =>
          rw [Money.lt_iff] at hover
          rw [Money.equiv_iff] at hreaches
          exact .take hfree hunits (by omega) (ih hrest)

/-! ## The prefix that is worth the target -/

/-- The invoices, the first ones of a list, end in one that may be taken, none of them stops a
selection, and those that may be taken add up to the target. -/
structure Fills (active : List Ident) (target : Money) (is front : List Invoice) : Prop where
  prefix_of : front <+: is
  ends : ∃ before i, front = before ++ [i] ∧ i.Eligible active
  clear : ∀ i ∈ front, ¬ i.Blocking
  reaches : sumUnits (eligible active front) = target.units

/-- An invoice that stops a selection comes before what may be taken adds up to more than the
target. -/
def Blocked (active : List Ident) (target : Money) (is : List Invoice) : Prop :=
  ∃ front i, front ++ [i] <+: is ∧ i.Blocking ∧
    ∀ part, part <+: front → sumUnits (eligible active part) ≤ target.units

variable {full full' : List Invoice}

/-- Invoices that leave a selection going do not contain those that end it. -/
theorem Fills.not_prefix (hpos : ∀ i ∈ is, 0 < i.amount.units) (h : Fills active target is full)
    (hfront : front <+: is) (hpending : Pending active target.units front) : ¬ full <+: front := by
  intro hle
  have hsum := Invoice.sumUnits_eligible_le active
    (fun i hi => hpos i (hfront.subset hi)) hle
  have hreaches := h.reaches
  rcases hpending.below with hbelow | hnone
  · omega
  · obtain ⟨before, i, rfl, hi⟩ := h.ends
    have hmem : i ∈ eligible active front :=
      Invoice.mem_eligible.2 ⟨hle.subset (List.mem_append_right _ List.mem_cons_self), hi⟩
    rw [hnone] at hmem
    cases hmem

/-- The invoice behind those that leave a selection going still belongs to those that end it. -/
theorem Fills.next (hpos : ∀ i ∈ is, 0 < i.amount.units) (h : Fills active target is full)
    (hfront : front ++ [i] <+: is) (hpending : Pending active target.units front) :
    front ++ [i] <+: full := by
  rcases List.prefix_or_prefix_of_prefix hfront h.prefix_of with hle | hle
  · exact hle
  · rcases List.prefix_concat_iff.1 hle with heq | hle
    · exact heq ▸ List.prefix_refl _
    · exact absurd hle (h.not_prefix hpos ((List.prefix_append front [i]).trans hfront) hpending)

/-- Before the last one, the target is not reached. -/
theorem Fills.pending (hpos : ∀ i ∈ is, 0 < i.amount.units) (h : Fills active target is full) :
    ∃ front i, full = front ++ [i] ∧ Pending active target.units front := by
  obtain ⟨front, i, rfl, hi⟩ := h.ends
  refine ⟨front, i, rfl, fun j hj => h.clear j (List.mem_append_left _ hj), .inl ?_⟩
  have hamount := hpos i (h.prefix_of.subset (List.mem_append_right _ List.mem_cons_self))
  have hreaches := h.reaches
  rw [Invoice.eligible_append, Invoice.sumUnits_append, Invoice.eligible_cons_of hi,
    Invoice.sumUnits_cons] at hreaches
  have hnone : sumUnits (eligible active []) = 0 := rfl
  omega

/-- Only one prefix of a list is worth the target. -/
theorem Fills.unique (hpos : ∀ i ∈ is, 0 < i.amount.units) (h : Fills active target is full)
    (h' : Fills active target is full') : full = full' := by
  -- each of them is a prefix of the other
  have hle {full full' : List Invoice} (h : Fills active target is full)
      (h' : Fills active target is full') : full <+: full' := by
    obtain ⟨front, i, rfl, hpending⟩ := h.pending hpos
    exact h'.next hpos h.prefix_of hpending
  exact (hle h h').eq_of_length_le (hle h' h).length_le

/-- What is taken last may bring the sum to the target. -/
theorem Fills.of_pending (hfront : front ++ [i] <+: is) (hpending : Pending active room front)
    (hfree : i.Eligible active)
    (hreaches : sumUnits (eligible active (front ++ [i])) = target.units) :
    Fills active target is (front ++ [i]) where
  prefix_of := hfront
  ends := ⟨front, i, rfl, hfree⟩
  clear j hj := by
    rcases List.mem_append.1 hj with hj | hj
    · exact hpending.clear j hj
    · rw [List.mem_singleton.1 hj]
      exact fun hblocks => hblocks.not_eligible hfree
  reaches := hreaches

/-- An invoice that stops a selection which was still going does so in time. -/
theorem Pending.blocked (hpos : ∀ i ∈ is, 0 < i.amount.units) (htarget : 0 ≤ target.units)
    (hfront : front ++ [i] <+: is) (h : Pending active target.units front) (hblocking : i.Blocking) :
    Blocked active target is := by
  refine ⟨front, i, hfront, hblocking, fun part hpart => ?_⟩
  have hsum := Invoice.sumUnits_eligible_le active
    (fun j hj => hpos j (hfront.subset (List.mem_append_left _ hj))) hpart
  rcases h.below with hbelow | hnone
  · omega
  · rw [hnone] at hsum
    exact Int.le_trans hsum htarget

/-- Once the sum is beyond the target, no invoice stops the selection in time. -/
theorem Pending.not_blocked (hfront : front ++ [i] <+: is) (h : Pending active room front)
    (hfree : i.Eligible active)
    (hexceeds : target.units < sumUnits (eligible active (front ++ [i]))) :
    ¬ Blocked active target is := by
  rintro ⟨front', j, hfront', hblocking, hbelow⟩
  have hnot : j ∉ front ++ [i] := by
    intro hj
    rcases List.mem_append.1 hj with hj | hj
    · exact h.clear j hj hblocking
    · exact hblocking.not_eligible (List.mem_singleton.1 hj ▸ hfree)
  rcases List.prefix_or_prefix_of_prefix hfront hfront' with hle | hle
  · rcases List.prefix_concat_iff.1 hle with heq | hle
    · exact hnot (heq ▸ List.mem_append_right _ List.mem_cons_self)
    · have hsum := hbelow _ hle
      omega
  · exact hnot (hle.subset (List.mem_append_right _ List.mem_cons_self))

/-! ## Selecting -/

/-- A selection succeeds if some first invoices are worth the target. Else it fails, and the kind of
its error says whether an invoice stopped it in time. -/
theorem select_cases (hpos : ∀ i ∈ is, 0 < i.amount.units) (htarget : 0 ≤ target.units)
    (hadds : AddsUp (eligible active is)) :
    (∃ front, Fills active target is front ∧
      select is active target = .ok ((eligible active front).map (·.id))) ∨
    (¬ ∃ front, Fills active target is front) ∧
      (Blocked active target is ∧
        (∃ cause, select is active target = .error (.refused (.consistency cause))) ∨
      ¬ Blocked active target is ∧
        ∃ cause, select is active target = .error (.refused (.amount cause))) := by
  have hzero : (Money.zero).units = 0 := rfl
  have hcourse : Course active target .zero is (gather active target .zero is) :=
    gather_course hadds.onto_zero
  have hroom : target.units - Money.units .zero = target.units := by omega
  unfold select
  generalize gather active target .zero is = result at hcourse
  cases hcourse with
  | short sum pending sum_eq =>
    rw [hroom] at pending
    refine .inr ⟨fun ⟨full, hfull⟩ =>
      hfull.not_prefix hpos (List.prefix_refl _) pending hfull.prefix_of, .inr ⟨?_, ?_⟩⟩
    · rintro ⟨front, i, hfront, hblocking, -⟩
      exact pending.clear i (hfront.subset (List.mem_append_right _ List.mem_cons_self)) hblocking
    · change ∃ cause, (if sum < target then throw (.refused (.amount (.shortfall target sum)))
        else if ((eligible active is).map (·.id)).isEmpty then
          throw (.refused (.amount .nothingToSubmit))
        else pure ((eligible active is).map (·.id)) : Except Failure (List Ident)) = _
      split
      next => exact ⟨_, rfl⟩
      next hreached =>
        -- what is not short of the target without any more invoices is nothing at all
        rw [Money.lt_iff] at hreached
        have hnone : eligible active is = [] := pending.below.resolve_left (by omega)
        rw [hnone]
        exact ⟨_, rfl⟩
  | blocked front i cause prefix_of pending blocking =>
    rw [hroom] at pending
    refine .inr ⟨fun ⟨full, hfull⟩ => ?_,
      .inl ⟨pending.blocked hpos htarget prefix_of blocking, cause, rfl⟩⟩
    exact hfull.clear i ((hfull.next hpos prefix_of pending).subset
      (List.mem_append_right _ List.mem_cons_self)) blocking
  | reached front i sum prefix_of pending eligible sum_eq reaches =>
    refine .inl ⟨front ++ [i], .of_pending prefix_of pending eligible (by omega), ?_⟩
    change (if sum < target then throw (.refused (.amount (.shortfall target sum)))
      else if ((Invoice.eligible active (front ++ [i])).map (·.id)).isEmpty then
        throw (.refused (.amount .nothingToSubmit))
      else pure ((Invoice.eligible active (front ++ [i])).map (·.id)) :
        Except Failure (List Ident)) = _
    have hsome : ((Invoice.eligible active (front ++ [i])).map (·.id)).isEmpty = false := by
      rw [Invoice.eligible_append, Invoice.eligible_cons_of eligible]
      simp
    rw [if_neg (by rw [Money.lt_iff]; omega), hsome]
    rfl
  | beyond front i cause prefix_of pending eligible exceeds =>
    rw [hroom] at pending
    refine .inr ⟨fun ⟨full, hfull⟩ => ?_,
      .inr ⟨pending.not_blocked prefix_of eligible (by omega), cause, rfl⟩⟩
    have hsum := Invoice.sumUnits_eligible_le active
      (fun j hj => hpos j (hfull.prefix_of.subset hj)) (hfull.next hpos prefix_of pending)
    have hreaches := hfull.reaches
    omega

/-- **Selecting** takes what may be taken of the first invoices that are worth the target. If there
are no such invoices it fails: because of an invoice that stops it, if one comes in time, and else
because of the amounts. -/
theorem select_takes_oldest (hpos : ∀ i ∈ is, 0 < i.amount.units) (htarget : 0 ≤ target.units)
    (hadds : AddsUp (eligible active is)) :
    (∀ ids, select is active target = .ok ids ↔
      ∃ front, Fills active target is front ∧ ids = (eligible active front).map (·.id)) ∧
    ((¬ ∃ front, Fills active target is front) →
      (Blocked active target is →
        ∃ cause, select is active target = .error (.refused (.consistency cause))) ∧
      (¬ Blocked active target is →
        ∃ cause, select is active target = .error (.refused (.amount cause)))) := by
  rcases select_cases hpos htarget hadds with ⟨full, hfull, hselect⟩ | ⟨hnone, hfails⟩
  · refine ⟨fun ids => ⟨fun h => ⟨full, hfull, ?_⟩, ?_⟩, fun hnone => absurd ⟨full, hfull⟩ hnone⟩
    · exact Except.ok.inj (h.symm.trans hselect)
    · rintro ⟨front, hfront, rfl⟩
      rw [hfront.unique hpos hfull, hselect]
  · refine ⟨fun ids => ⟨fun h => ?_, fun ⟨front, hfront, _⟩ => absurd ⟨front, hfront⟩ hnone⟩,
      fun _ => ⟨fun hblocked => ?_, fun hfree => ?_⟩⟩
    · -- both failures contradict a success
      rcases hfails with ⟨-, cause, hselect⟩ | ⟨-, cause, hselect⟩ <;>
      · rw [hselect] at h
        cases h
    · exact hfails.elim (·.2) fun h => absurd hblocked h.1
    · exact hfails.elim (fun h => absurd h.1 hfree) (·.2)

/-- An invoice of so many whole units of currency, as it is when it is stored. -/
def storedInvoice (id : Ident) (amount : Nat) (status : Invoice.Status) : Invoice :=
  let new : NewInvoice :=
    { fromTeam := 1, toTeam := 2, kind := .product, status,
      amount := (Money.ofParts? amount 0).getD .zero, created := .ofSecond 0 }
  new.withId id

/-- Unpaid invoices with others between and behind them, the third one in another batch. -/
def mixedInvoices : List Invoice :=
  [storedInvoice 1 60 .notPaid, storedInvoice 2 5 .cancelled, storedInvoice 3 7 .notPaid,
    storedInvoice 4 40 .notPaid, storedInvoice 5 1 .paid]

/-- A payment of 100 is for the first and the fourth invoice. One of 200 fails at the fifth. -/
theorem select_takes_oldest_mixed : (∀ i ∈ mixedInvoices, 0 < i.amount.units) ∧
    select mixedInvoices [3] ((Money.ofParts? 100 0).getD .zero) = .ok [1, 4] ∧
    ∃ cause, select mixedInvoices [3] ((Money.ofParts? 200 0).getD .zero) =
      .error (.refused (.consistency cause)) := by
  have positive : ∀ i ∈ mixedInvoices, 0 < i.amount.units := by decide
  have taken : eligible [3] mixedInvoices = [storedInvoice 1 60 .notPaid, storedInvoice 4 40 .notPaid] := by
    decide
  have adds : AddsUp (eligible [3] mixedInvoices) := by
    intro front hfront
    rw [taken] at hfront
    rcases List.prefix_cons_iff.1 hfront with rfl | ⟨rest, rfl, hrest⟩
    · exact ⟨_, rfl, by decide⟩
    rcases List.prefix_cons_iff.1 hrest with rfl | ⟨behind, rfl, hbehind⟩
    · exact ⟨_, rfl, by decide⟩
    obtain rfl := List.prefix_nil.1 hbehind
    exact ⟨_, rfl, by decide⟩
  refine ⟨positive, ?_, ?_⟩
  · exact ((select_takes_oldest positive (by decide) adds).1 [1, 4]).2
      ⟨mixedInvoices.take 4, ⟨List.take_prefix _ _, ⟨mixedInvoices.take 3, _, rfl, by decide⟩,
        by decide, by decide⟩, by decide⟩
  · -- what may be taken is worth 100 only
    refine ((select_takes_oldest positive (by decide) adds).2 ?_).1 ?_
    · rintro ⟨front, hfront⟩
      have hle := Invoice.sumUnits_eligible_le [3] positive hfront.prefix_of
      rw [hfront.reaches] at hle
      exact absurd hle (by decide)
    · refine ⟨mixedInvoices.take 4, storedInvoice 5 1 .paid, List.prefix_refl _, .inr rfl, ?_⟩
      intro part hpart
      have hsum := Invoice.sumUnits_eligible_le [3]
        (fun i hi => positive i (List.mem_of_mem_take hi)) hpart
      exact Int.le_trans hsum (by decide)

end Selection

end TeamLedger
