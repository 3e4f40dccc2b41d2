/-
What a team owes others, counted in different ways.

The amount owed to one creditor is added up over its unpaid invoices. The debts to several creditors
are counted in one pass over all unpaid invoices, each of which goes to the sums of its creditor. What
the pass does for a creditor is what it would do if there were no other
(`Debt.count_eq_ok`), so both ways add the same amounts in the same order, and the amounts agree to
the last decimal.

They do not fail together. With amounts of both signs the sum of all invoices may stay within bounds
while that of the submitted ones does not: then there is an amount owed, but no report of debts.
-/
import TeamLedger.Proofs.Clearing
import TeamLedger.Proofs.Finding
import TeamLedger.Proofs.Inquiries
import TeamLedger.Proofs.Pairs

set_option autoImplicit false

namespace TeamLedger

/-! ## Amounts that add up, or not -/

/-- What comes in two parts succeeds when both do. -/
theorem bind_eq_ok {ε α β : Type} {x : Except ε α} {f : α → Except ε β} {b : β} :
    x >>= f = .ok b ↔ ∃ a, x = .ok a ∧ f a = .ok b := by
  cases x <;> simp [bind, Except.bind]

namespace Money

theorem add_error {a b : Money} {operation : Overflow} (h : a.add b = .error operation) :
    operation = .addition := by
  unfold add at h
  split at h
  · cases h
  · split at h
    · cases h
    · cases hsum : sum? a b with
      | none =>
        rw [hsum] at h
        cases h
        rfl
      | some c =>
        rw [hsum] at h
        cases h

end Money

/-! ## The debt to one creditor -/

namespace Debt

variable {d d' : Debt} {is : List Invoice} {i : Invoice}

/-- The debt is that of the invoices: all of them, those that are not part of a submission, and those
that are. -/
structure Tallies (d : Debt) (is : List Invoice) : Prop where
  total : Money.total (is.map (·.amount)) = .ok d.total
  unpaid : Money.total ((is.filter (!·.hasSubmission)).map (·.amount)) = .ok d.unpaid
  submitted : Money.total ((is.filter (·.hasSubmission)).map (·.amount)) = .ok d.submitted

/-- The amounts of the invoices, added to those of a debt. -/
structure Grows (d : Debt) (is : List Invoice) (d' : Debt) : Prop where
  toTeam : d'.toTeam = d.toTeam
  total : (is.map (·.amount)).foldlM Money.add d.total = .ok d'.total
  unpaid : ((is.filter (!·.hasSubmission)).map (·.amount)).foldlM Money.add d.unpaid = .ok d'.unpaid
  submitted :
    ((is.filter (·.hasSubmission)).map (·.amount)).foldlM Money.add d.submitted = .ok d'.submitted

theorem grows_nil : d.Grows [] d' ↔ d' = d := by
  constructor
  · rintro ⟨hteam, htotal, hunpaid, hsubmitted⟩
    cases d
    cases d'
    cases hteam
    cases htotal
    cases hunpaid
    cases hsubmitted
    rfl
  · rintro rfl
    exact ⟨rfl, rfl, rfl, rfl⟩

theorem grows_append {js : List Invoice} :
    d.Grows (is ++ js) d' ↔ ∃ mid, d.Grows is mid ∧ mid.Grows js d' := by
  have fold_append {as bs : List Money} {a c : Money} : (as ++ bs).foldlM Money.add a = .ok c ↔
      ∃ b, as.foldlM Money.add a = .ok b ∧ bs.foldlM Money.add b = .ok c := by
    rw [List.foldlM_append, bind_eq_ok]
  constructor
  · rintro ⟨hteam, htotal, hunpaid, hsubmitted⟩
    rw [List.map_append, fold_append] at htotal
    rw [List.filter_append, List.map_append, fold_append] at hunpaid hsubmitted
    obtain ⟨total, htotal, htotal'⟩ := htotal
    obtain ⟨unpaid, hunpaid, hunpaid'⟩ := hunpaid
    obtain ⟨submitted, hsubmitted, hsubmitted'⟩ := hsubmitted
    exact ⟨⟨d.toTeam, total, unpaid, submitted⟩, ⟨rfl, htotal, hunpaid, hsubmitted⟩,
      ⟨hteam, htotal', hunpaid', hsubmitted'⟩⟩
  · rintro ⟨mid, h, h'⟩
    refine ⟨h'.toTeam.trans h.toTeam, ?_, ?_, ?_⟩
    · rw [List.map_append, fold_append]
      exact ⟨_, h.total, h'.total⟩
    · rw [List.filter_append, List.map_append, fold_append]
      exact ⟨_, h.unpaid, h'.unpaid⟩
    · rw [List.filter_append, List.map_append, fold_append]
      exact ⟨_, h.submitted, h'.submitted⟩

/-- One invoice goes to the total and to one of its two parts. -/
theorem add_eq_ok_iff : d.add i = .ok d' ↔ d.Grows [i] d' := by
  have fold_one {a c : Money} : [i.amount].foldlM Money.add a = .ok c ↔ a.add i.amount = .ok c := by
    rw [List.foldlM_cons]
    exact Iff.of_eq (congrArg (· = _) (bind_pure _))
  unfold add
  rw [bind_eq_ok]
  cases hsubmission : i.hasSubmission with
  | false =>
    have others : [i].filter (!·.hasSubmission) = [i] ∧ [i].filter (·.hasSubmission) = [] := by
      simp [hsubmission]
    simp only [Bool.false_eq_true, if_false, bind_eq_ok]
    constructor
    · rintro ⟨total, htotal, unpaid, hunpaid, heq⟩
      cases heq
      refine ⟨rfl, fold_one.2 htotal, ?_, ?_⟩
      · rw [others.1]
        exact fold_one.2 hunpaid
      · rw [others.2]
        rfl
    · rintro ⟨hteam, htotal, hunpaid, hsubmitted⟩
      rw [others.1] at hunpaid
      rw [others.2] at hsubmitted
      refine ⟨_, fold_one.1 htotal, _, fold_one.1 hunpaid, ?_⟩
      cases d'
      cases hteam
      cases hsubmitted
      rfl
  | true =>
    have others : [i].filter (!·.hasSubmission) = [] ∧ [i].filter (·.hasSubmission) = [i] := by
      simp [hsubmission]
    simp only [if_true, bind_eq_ok]
    constructor
    · rintro ⟨total, htotal, submitted, hsubmitted, heq⟩
      cases heq
      refine ⟨rfl, fold_one.2 htotal, ?_, ?_⟩
      · rw [others.1]
        rfl
      · rw [others.2]
        exact fold_one.2 hsubmitted
    · rintro ⟨hteam, htotal, hunpaid, hsubmitted⟩
      rw [others.1] at hunpaid
      rw [others.2] at hsubmitted
      refine ⟨_, fold_one.1 htotal, _, fold_one.1 hsubmitted, ?_⟩
      cases d'
      cases hteam
      cases hunpaid
      rfl

/-- **The debt to one creditor** is counted by adding up three times. -/
theorem foldlM_add_eq_ok_iff : is.foldlM Debt.add d = .ok d' ↔ d.Grows is d' := by
  induction is generalizing d with
  | nil =>
    rw [grows_nil, eq_comm]
    exact ⟨Except.ok.inj, congrArg _⟩
  | cons i is ih =>
    rw [← List.singleton_append, grows_append, List.singleton_append, List.foldlM_cons, bind_eq_ok]
    simp only [add_eq_ok_iff, ih]

/-- From nothing, the debt of some invoices is counted. -/
theorem foldlM_add_start {c : Ident} :
    is.foldlM Debt.add { toTeam := c } = .ok d ↔ d.toTeam = c ∧ d.Tallies is := by
  rw [foldlM_add_eq_ok_iff]
  exact ⟨fun h => ⟨h.toTeam, h.total, h.unpaid, h.submitted⟩,
    fun h => ⟨h.1, h.2.total, h.2.unpaid, h.2.submitted⟩⟩

theorem add_error {operation : Money.Overflow} (h : d.add i = .error operation) :
    operation = .addition := by
  unfold add at h
  cases htotal : d.total.add i.amount with
  | error e =>
    rw [htotal] at h
    cases h
    exact Money.add_error htotal
  | ok total =>
    rw [htotal] at h
    replace h : (if i.hasSubmission then _ else _ : Except Money.Overflow Debt) = .error operation := h
    split at h
    · cases hsubmitted : d.submitted.add i.amount with
      | error e =>
        rw [hsubmitted] at h
        cases h
        exact Money.add_error hsubmitted
      | ok submitted =>
        rw [hsubmitted] at h
        cases h
    · cases hunpaid : d.unpaid.add i.amount with
      | error e =>
        rw [hunpaid] at h
        cases h
        exact Money.add_error hunpaid
      | ok unpaid =>
        rw [hunpaid] at h
        cases h

/-- **The parts make up the whole**, where all three sums are the true ones. -/
theorem Tallies.total_eq (h : d.Tallies is) (htotal : Invoice.AddUp is)
    (hunpaid : Invoice.AddUp (is.filter (!·.hasSubmission)))
    (hsubmitted : Invoice.AddUp (is.filter (·.hasSubmission))) :
    d.total.units = d.unpaid.units + d.submitted.units := by
  rw [htotal.units_eq h.total, hunpaid.units_eq h.unpaid, hsubmitted.units_eq h.submitted]
  exact (Invoice.sumUnits_filter_add is (·.hasSubmission)).symm

end Debt

/-! ## The debts to several creditors -/

namespace Debt

/-- The debt to a creditor among those counted so far. -/
def among (debts : Rows Debt) (c : Ident) : Debt := (debts.get? c).getD { toTeam := c }

/-- Counts one more invoice among the debts to all creditors. -/
def count (debts : Rows Debt) (i : Invoice) : Except Money.Overflow (Rows Debt) := do
  let debt ← (among debts i.toTeam).add i
  return debts.insert i.toTeam debt

variable {debts debts' : Rows Debt} {is : List Invoice} {i : Invoice} {c : Ident}

theorem count_eq_ok_iff : count debts i = .ok debts' ↔
    ∃ d, (among debts i.toTeam).add i = .ok d ∧ debts' = debts.insert i.toTeam d := by
  rw [count, bind_eq_ok]
  refine exists_congr fun d => and_congr_right fun _ => ?_
  exact ⟨fun h => (Except.ok.inj h).symm, fun h => h ▸ rfl⟩

/-- After one invoice, the rest is counted for a creditor as the invoice together with the rest was
before: an invoice for someone else does not matter. -/
theorem foldlM_among_cons (h : count debts i = .ok debts') (is : List Invoice) (c : Ident) :
    ((i :: is).filter (·.toTeam = c)).foldlM Debt.add (among debts c) =
      (is.filter (·.toTeam = c)).foldlM Debt.add (among debts' c) := by
  obtain ⟨d, hd, rfl⟩ := count_eq_ok_iff.1 h
  by_cases hc : i.toTeam = c
  · subst hc
    rw [List.filter_cons_of_pos (by simp), List.foldlM_cons, hd]
    simp [among, bind, Except.bind]
  · rw [List.filter_cons_of_neg (by simpa using hc)]
    simp [among, Ne.symm hc]

/-- **Counting for all creditors is counting for each.** -/
theorem count_eq_ok (h : is.foldlM count debts = .ok debts') (c : Ident) :
    (is.filter (·.toTeam = c)).foldlM Debt.add (among debts c) = .ok (among debts' c) ∧
      ((debts'.get? c).isSome ↔ (debts.get? c).isSome ∨ ∃ i ∈ is, i.toTeam = c) := by
  -- the creditors' rows change with every invoice, and the rest is counted from the changed ones
  induction is generalizing debts with
  | nil =>
    cases h
    exact ⟨rfl, by simp⟩
  | cons i is ih =>
    rw [List.foldlM_cons, bind_eq_ok] at h
    obtain ⟨mid, hmid, hrest⟩ := h
    obtain ⟨hfold, hsome⟩ := ih hrest
    refine ⟨(foldlM_among_cons hmid is c).trans hfold, hsome.trans ?_⟩
    obtain ⟨d, -, rfl⟩ := count_eq_ok_iff.1 hmid
    rw [Rows.get?_insert]
    by_cases hc : c = i.toTeam
    · simp [hc]
    · simp [hc, Ne.symm hc]

/-- When counting overflows, it does so for one of the creditors. -/
theorem count_eq_error {operation : Money.Overflow} (h : is.foldlM count debts = .error operation) :
    operation = .addition ∧ ∃ i ∈ is,
      (is.filter (·.toTeam = i.toTeam)).foldlM Debt.add (among debts i.toTeam) = .error .addition := by
  induction is generalizing debts with
  | nil => cases h
  | cons i is ih =>
    rw [List.foldlM_cons] at h
    cases hmid : count debts i with
    | error e =>
      -- it is the first invoice, and its own creditor, for whom the sums overflow
      rw [hmid] at h
      cases h
      cases hadd : (among debts i.toTeam).add i with
      | error e =>
        rw [count, hadd] at hmid
        cases hmid
        obtain rfl := add_error hadd
        refine ⟨rfl, i, List.mem_cons_self, ?_⟩
        rw [List.filter_cons_of_pos (by simp), List.foldlM_cons, hadd]
        rfl
      | ok d =>
        rw [count, hadd] at hmid
        cases hmid
    | ok mid =>
      rw [hmid] at h
      obtain ⟨hop, j, hj, hfold⟩ := ih h
      exact ⟨hop, j, List.mem_cons_of_mem i hj, (foldlM_among_cons hmid is j.toTeam).trans hfold⟩

end Debt

namespace Tables

variable {t : Tables} {debtor c : Ident} {creditors : List Ident}

/-- What a team owes another, invoice by invoice. -/
def owed (t : Tables) (debtor c : Ident) : List Invoice :=
  t.invoices.values.filter (·.isDebt debtor c)

/-- The debt to a creditor can be counted: neither the sum of all invoices nor that of either part
overflows. -/
def Tallied (t : Tables) (debtor c : Ident) : Prop :=
  ∃ d : Debt, d.toTeam = c ∧ d.Tallies (t.owed debtor c)

/-- The debts are counted from nothing, and come by their creditors. -/
theorem debts_eq (t : Tables) (debtor : Ident) (creditors : List Ident) :
    t.debts debtor creditors = ((t.invoices.values.filter fun i =>
      creditors.contains i.toTeam && i.isDebt debtor i.toTeam).foldlM Debt.count .empty).map
        Rows.values := by
  unfold debts
  cases h : (t.invoices.values.filter fun i =>
    creditors.contains i.toTeam && i.isDebt debtor i.toTeam).foldlM Debt.count .empty <;>
  · unfold Debt.count Debt.among at h
    simp only [h]
    rfl

/-- Of the debts to listed creditors, those to one of them are its own. -/
theorem filter_owed (hc : c ∈ creditors) :
    (t.invoices.values.filter fun i =>
      creditors.contains i.toTeam && i.isDebt debtor i.toTeam).filter (·.toTeam = c) =
        t.owed debtor c := by
  rw [List.filter_filter, owed]
  refine List.filter_congr fun i _ => ?_
  by_cases hi : i.toTeam = c
  · simp [hi, hc]
  · simp [hi, Invoice.isDebt]

theorem owed_ne_nil_iff : t.owed debtor c ≠ [] ↔ ∃ i ∈ t.invoices.values, i.isDebt debtor c = true := by
  simp [owed]

/-- The debts of a team to the listed creditors: one for each that it owes something, in order. -/
structure Reports (t : Tables) (debtor : Ident) (creditors : List Ident) (ds : List Debt) : Prop where
  ascending : (ds.map (·.toTeam)).Pairwise (· < ·)
  listed : ∀ c, c ∈ ds.map (·.toTeam) ↔ c ∈ creditors ∧ t.owed debtor c ≠ []
  tallies : ∀ d ∈ ds, d.Tallies (t.owed debtor d.toTeam)

/-- **Debts are reported** exactly when that to every listed creditor can be counted. -/
theorem debts_cases (t : Tables) (debtor : Ident) (creditors : List Ident) :
    (∃ ds, t.debts debtor creditors = .ok ds ∧ t.Reports debtor creditors ds ∧
      ∀ c ∈ creditors, t.Tallied debtor c) ∨
    t.debts debtor creditors = .error .addition ∧ ∃ c ∈ creditors, ¬ t.Tallied debtor c := by
  rw [debts_eq]
  have hmem (i : Invoice) : i ∈ (t.invoices.values.filter fun i =>
      creditors.contains i.toTeam && i.isDebt debtor i.toTeam) ↔
        i.toTeam ∈ creditors ∧ i ∈ t.owed debtor i.toTeam := by
    simp [owed, and_left_comm]
  have hstart (c : Ident) : Debt.among .empty c = { toTeam := c } := rfl
  cases h : (t.invoices.values.filter fun i =>
      creditors.contains i.toTeam && i.isDebt debtor i.toTeam).foldlM Debt.count .empty with
  | error operation =>
    obtain ⟨rfl, i, hi, hfold⟩ := Debt.count_eq_error h
    obtain ⟨hlisted, -⟩ := (hmem i).1 hi
    refine .inr ⟨rfl, i.toTeam, hlisted, fun ⟨d, hd⟩ => ?_⟩
    rw [filter_owed hlisted, hstart, Debt.foldlM_add_start.2 hd] at hfold
    cases hfold
  | ok rows =>
    have hcounted := Debt.count_eq_ok h
    have hteam (c : Ident) : (Debt.among rows c).toTeam = c :=
      (Debt.foldlM_add_start.1 (hcounted c).1).1
    have htallies (c : Ident) (hc : c ∈ creditors) :
        (Debt.among rows c).Tallies (t.owed debtor c) := by
      have hfold := (hcounted c).1
      rw [filter_owed hc] at hfold
      exact (Debt.foldlM_add_start.1 hfold).2
    have hkeyed : rows.KeyedBy Debt.toTeam := by
      intro c d hd
      have hc := hteam c
      rw [Debt.among, hd, Option.getD_some] at hc
      exact hc
    -- a creditor has a row when one of the invoices counted is its own
    have hlisted (c : Ident) : (rows.get? c).isSome ↔ c ∈ creditors ∧ t.owed debtor c ≠ [] := by
      rw [(hcounted c).2]
      constructor
      · rintro (hnone | ⟨i, hi, rfl⟩)
        · cases hnone
        · obtain ⟨hc, howed⟩ := (hmem i).1 hi
          exact ⟨hc, List.ne_nil_of_mem howed⟩
      · rintro ⟨hc, hne⟩
        obtain ⟨i, howed⟩ := List.exists_mem_of_ne_nil _ hne
        have hdebt := (List.mem_filter.1 howed).2
        simp only [Invoice.isDebt, Bool.and_eq_true, decide_eq_true_eq] at hdebt
        obtain rfl := hdebt.1.2
        exact .inr ⟨i, (hmem i).2 ⟨hc, howed⟩, rfl⟩
    refine .inl ⟨rows.values, rfl, ⟨hkeyed.pairwise_map, fun c => ?_, fun d hd => ?_⟩, ?_⟩
    · rw [hkeyed.values_map, Rows.mem_ids, hlisted]
    · rw [hkeyed.mem_values_iff] at hd
      have hamong : Debt.among rows d.toTeam = d := by rw [Debt.among, hd, Option.getD_some]
      have hc := ((hlisted d.toTeam).1 (by rw [hd]; rfl)).1
      have htallied := htallies d.toTeam hc
      rw [hamong] at htallied
      exact htallied
    · exact fun c hc => ⟨_, hteam c, htallies c hc⟩

theorem debts_ok_iff : (∃ ds, t.debts debtor creditors = .ok ds) ↔
    ∀ c ∈ creditors, t.Tallied debtor c := by
  rcases t.debts_cases debtor creditors with ⟨ds, hds, -, htallied⟩ | ⟨herror, c, hc, hnot⟩
  · exact ⟨fun _ => htallied, fun _ => ⟨ds, hds⟩⟩
  · refine ⟨fun ⟨ds, hds⟩ => ?_, fun h => absurd (h c hc) hnot⟩
    cases herror.symm.trans hds

theorem debts_of_not_tallied (h : ∃ c ∈ creditors, ¬ t.Tallied debtor c) :
    t.debts debtor creditors = .error .addition := by
  obtain ⟨c, hc, hnot⟩ := h
  rcases t.debts_cases debtor creditors with ⟨-, -, -, htallied⟩ | ⟨herror, -⟩
  · exact absurd (htallied c hc) hnot
  · exact herror

theorem reports_of_debts {ds : List Debt} (h : t.debts debtor creditors = .ok ds) :
    t.Reports debtor creditors ds := by
  rcases t.debts_cases debtor creditors with ⟨ds', hds', hreports, -⟩ | ⟨herror, -⟩
  · cases h.symm.trans hds'
    exact hreports
  · cases herror.symm.trans h

/-- The limits that any of the given teams have set for one team. -/
def limitsFor (t : Tables) (debtor : Ident) (creditors : List Ident) : List Limit :=
  t.limits.values.filter fun x => x.forTeam = some debtor && creditors.contains x.teamId

theorem limitsFor_nil (t : Tables) (debtor : Ident) : t.limitsFor debtor [] = [] := by
  simp [limitsFor]

theorem debts_nil (t : Tables) (debtor : Ident) : t.debts debtor [] = .ok [] := by
  rw [debts_eq]
  simp [Rows.values, Rows.empty, pure, Except.pure, Except.map]

end Tables

theorem map_eq_ok_iff {ε α β : Type} {x : Except ε α} {f : α → β} {b : β} :
    x.map f = .ok b ↔ ∃ a, x = .ok a ∧ f a = b := by
  cases x <;> simp [Except.map]

theorem Session.ofMoney_eq_ok_iff {α : Type} {x : Except Money.Overflow α} {a : α} :
    Session.ofMoney x = .ok a ↔ x = .ok a := by
  cases x <;> simp [Session.ofMoney]

/-! ## Limits with the debts that they are for -/

/-- The limit together with the teams that it concerns and its debt among the given ones. -/
def Limit.determined (teams : List Team) (ds : List Debt) (limit : Limit) : DeterminedLimit where
  limit
  team := CreditLimit.teamOf? teams limit.teamId
  forTeam := limit.forTeam.bind (CreditLimit.teamOf? teams)
  debt := (ds.reverse.find? (·.toTeam = limit.teamId)).getD { toTeam := limit.teamId }

namespace CreditLimit

variable {l : Ledger} {s : Session} {debtor : Ident} {creditors : List Ident}

/-- What is said of limits follows from what the session sees. -/
theorem run_determined {σ : Type} (st : σ) (l : Ledger) (s : Session) (around : Surroundings)
    (debtor : Ident) (creditors : List Ident) :
    ∃ teams l' s' around',
      (∀ team, team ∈ teams ↔ team ∈ l.tables.teams.values ∧ (team.id = debtor ∨
        ∃ x ∈ (l.tables.apply s.changes).limitsFor debtor creditors, team.id = x.teamId)) ∧
      (determined debtor creditors).run Session.backend st (l, s) around =
        (Session.ofMoney (((l.tables.apply s.changes).debts debtor
            (((l.tables.apply s.changes).limitsFor debtor creditors).map (·.teamId))).map fun ds =>
          ((l.tables.apply s.changes).limitsFor debtor creditors).map (Limit.determined teams ds)),
          st, (l', s'), around') := by
  have hanswer : s.answer l (.limitsForCounterpart debtor creditors) =
      (.ok ((l.tables.apply s.changes).limitsFor debtor creditors), l, s.refresh l) := rfl
  unfold determined
  by_cases hempty : creditors.isEmpty = true
  · obtain rfl : creditors = [] := List.isEmpty_iff.1 hempty
    rw [if_pos hempty, Tables.limitsFor_nil, List.map_nil, Tables.debts_nil]
    exact ⟨l.tables.teams.values.filter (·.id = debtor), l, s, around, by simp, rfl⟩
  -- three calls, each answered in a snapshot of its own, of the same tables
  obtain ⟨m, hcall⟩ := Service.run_call_session st around hanswer
  rw [if_neg hempty, Service.run_bind, hcall]
  dsimp only
  generalize (l.tables.apply s.changes).limitsFor debtor creditors = limits
  by_cases hnone : limits.isEmpty = true
  · obtain rfl : limits = [] := List.isEmpty_iff.1 hnone
    rw [if_pos hnone, List.map_nil, Tables.debts_nil]
    exact ⟨l.tables.teams.values.filter (·.id = debtor), l, _, _, by simp, rfl⟩
  have hteams : (s.refresh l).answer l (.teams (limits.map (·.teamId) ++ [debtor])) =
      (.ok (l.tables.teams.values.filter fun t =>
        (limits.map (·.teamId) ++ [debtor]).contains t.id), l, (s.refresh l).refresh l) := rfl
  obtain ⟨m', hcall'⟩ := Service.run_call_session st { around with metrics := m } hteams
  have hdebts : ((s.refresh l).refresh l).answer l (.debts debtor (limits.map (·.teamId))) =
      (Session.ofMoney ((l.tables.apply s.changes).debts debtor (limits.map (·.teamId))), l,
        ((s.refresh l).refresh l).refresh l) := rfl
  obtain ⟨m'', hcall''⟩ := Service.run_call_session st { around with metrics := m' } hdebts
  rw [if_neg hnone, Service.run_bind, hcall']
  dsimp only
  rw [Service.run_bind, hcall'']
  refine ⟨l.tables.teams.values.filter fun t => (limits.map (·.teamId) ++ [debtor]).contains t.id, l,
    ((s.refresh l).refresh l).refresh l, { around with metrics := m'' }, ?_, ?_⟩
  · intro team
    rw [List.mem_filter, List.contains_iff_mem, List.mem_append, List.mem_singleton, List.mem_map,
      or_comm]
    refine and_congr_right fun _ => or_congr_right (exists_congr fun x => ?_)
    exact and_congr_right fun _ => eq_comm
  · cases (l.tables.apply s.changes).debts debtor (limits.map (·.teamId)) <;> rfl

/-- The team with an id is found among those that were asked for. -/
theorem teamOf?_eq {teams : List Team} {t : Tables} (h : t.teams.KeyedBy Team.id) {id : Ident}
    (hmem : ∀ team, team.id = id → (team ∈ teams ↔ team ∈ t.teams.values)) :
    teamOf? teams id = t.teams.get? id := by
  unfold teamOf?
  cases hfind : teams.reverse.find? (·.id = id) with
  | none =>
    cases hget : t.teams.get? id with
    | none => rfl
    | some team =>
      have hid := h id team hget
      have hteam : team ∈ teams := (hmem team hid).2 (Rows.mem_values.2 ⟨id, hget⟩)
      have hne := List.find?_eq_none.1 hfind team (List.mem_reverse.2 hteam)
      exact absurd (decide_eq_true hid) hne
  | some team =>
    have hid : team.id = id := by simpa using List.find?_some hfind
    have hteam := (hmem team hid).1 (List.mem_reverse.1 (List.mem_of_find?_eq_some hfind))
    rw [h.mem_values_iff, hid] at hteam
    exact hteam.symm

/-- Among reported debts, the debt to a listed creditor is found, or it is nothing. -/
theorem find_debt {t : Tables} {ds : List Debt} (h : t.Reports debtor creditors ds) {c : Ident}
    (hc : c ∈ creditors) :
    ((ds.reverse.find? (·.toTeam = c)).getD { toTeam := c }).toTeam = c ∧
      ((ds.reverse.find? (·.toTeam = c)).getD { toTeam := c }).Tallies (t.owed debtor c) := by
  cases hfind : ds.reverse.find? (·.toTeam = c) with
  | none =>
    have hnone : t.owed debtor c = [] := by
      by_contra hne
      obtain ⟨d, hd, hteam⟩ := List.mem_map.1 ((h.listed c).2 ⟨hc, hne⟩)
      have hother := List.find?_eq_none.1 hfind d (List.mem_reverse.2 hd)
      exact hother (decide_eq_true hteam)
    rw [hnone]
    exact ⟨rfl, rfl, rfl, rfl⟩
  | some d =>
    have hteam : d.toTeam = c := by simpa using List.find?_some hfind
    have htallies := h.tallies d (List.mem_reverse.1 (List.mem_of_find?_eq_some hfind))
    rw [hteam] at htallies
    exact ⟨hteam, htallies⟩

/-- What is said of a limit: the two teams as they are stored, and the debt as it can be counted. -/
structure Determines (t : Tables) (debtor : Ident) (d : DeterminedLimit) : Prop where
  team : d.team = t.teams.get? d.limit.teamId
  forTeam : d.forTeam = t.teams.get? debtor
  creditor : d.debt.toTeam = d.limit.teamId
  tallies : d.debt.Tallies (t.owed debtor d.limit.teamId)

/-- A question that finds nothing in the cache reports the unpaid amount. -/
theorem ask_unpaid {q : Question} {m : Money} (ttl : Cache.Nanoseconds) {cache : Cache.Local}
    (hteam : q.teamId ≠ 0) (hmiss : q.found cache = none)
    (hunpaid : q.seen.unpaidAmount q.forTeam q.teamId = .ok m) :
    ∃ r, (q.ask ttl cache).1 = .ok r ∧ q.About r.teamId r.forTeam ∧ r.unpaidAmount = m := by
  rw [Question.ask_of_missed hteam hmiss, Question.evaluated, hunpaid]
  exact ⟨_, rfl, ⟨rfl, rfl⟩, rfl⟩

/-- What is determined of limits, one by one. -/
theorem determines {t : Tables} {teams : List Team} {ds : List Debt} (h : t.teams.KeyedBy Team.id)
    (hteams : ∀ team, team ∈ teams ↔ team ∈ t.teams.values ∧ (team.id = debtor ∨
      ∃ x ∈ t.limitsFor debtor creditors, team.id = x.teamId))
    (hds : t.Reports debtor ((t.limitsFor debtor creditors).map (·.teamId)) ds) {x : Limit}
    (hx : x ∈ t.limitsFor debtor creditors) : Determines t debtor (x.determined teams ds) := by
  have hfor : x.forTeam = some debtor := by
    have hlimit := (List.mem_filter.1 hx).2
    simp only [Bool.and_eq_true, decide_eq_true_eq] at hlimit
    exact hlimit.1
  obtain ⟨hcreditor, htallies⟩ := find_debt hds (List.mem_map_of_mem hx)
  refine ⟨?_, ?_, hcreditor, htallies⟩
  · exact teamOf?_eq h fun team hid => (hteams team).trans (and_iff_left (.inr ⟨x, hx, hid⟩))
  · show x.forTeam.bind (teamOf? teams) = _
    rw [hfor, Option.bind_some]
    exact teamOf?_eq h fun team hid => (hteams team).trans (and_iff_left (.inl hid))

/-- **The reports on debt agree with each other.** The debts to several creditors are reported
exactly when that to each of them can be counted, one for every creditor that something is owed to,
by their ids; each total is the very amount that is owed. The limits of creditors are reported with
the same amounts, and a question about one of them that finds nothing in the cache as well. -/
theorem debts_agree (l : Ledger) (s : Session) (hl : l.Hosts s)
    (hteams : l.tables.teams.KeyedBy Team.id) (debtor : Ident) (creditors : List Ident) :
    ((∃ ds, (s.answer l (.debts debtor creditors)).1 = .ok ds) ↔
      ∀ c ∈ creditors, (l.tables.apply s.changes).Tallied debtor c) ∧
    ((∃ c ∈ creditors, ¬ (l.tables.apply s.changes).Tallied debtor c) →
      (s.answer l (.debts debtor creditors)).1 = .error (.overflow .addition)) ∧
    (∀ ds, (s.answer l (.debts debtor creditors)).1 = .ok ds →
      (ds.map (·.toTeam)).Pairwise (· < ·) ∧
      (∀ c, c ∈ ds.map (·.toTeam) ↔
        c ∈ creditors ∧ ∃ i ∈ (l.tables.apply s.changes).invoices.values, i.isDebt debtor c = true) ∧
      ∀ d ∈ ds, (s.answer l (.unpaidAmount debtor d.toTeam)).1 = .ok d.total ∧
        d.Tallies ((l.tables.apply s.changes).owed debtor d.toTeam) ∧
        (Invoice.AddUp ((l.tables.apply s.changes).owed debtor d.toTeam) →
          Invoice.AddUp (((l.tables.apply s.changes).owed debtor d.toTeam).filter
            (!·.hasSubmission)) →
          Invoice.AddUp (((l.tables.apply s.changes).owed debtor d.toTeam).filter
            (·.hasSubmission)) →
          d.total.units = d.unpaid.units + d.submitted.units)) ∧
    ∀ {σ : Type} (st : σ) (around : Surroundings), ∃ r l' s' around',
      (determined debtor creditors).run Session.backend st (l, s) around =
        (r, st, (l', s'), around') ∧
      ((∃ items, r = .ok items) ↔ ∀ x ∈ (l.tables.apply s.changes).limitsFor debtor creditors,
        (l.tables.apply s.changes).Tallied debtor x.teamId) ∧
      ((∃ x ∈ (l.tables.apply s.changes).limitsFor debtor creditors,
        ¬ (l.tables.apply s.changes).Tallied debtor x.teamId) → r = .error (.overflow .addition)) ∧
      ∀ items, r = .ok items →
        items.map (·.limit) = (l.tables.apply s.changes).limitsFor debtor creditors ∧
        (items.map (·.limit.id)).Pairwise (· < ·) ∧
        ∀ d ∈ items, Determines (l.tables.apply s.changes) debtor d ∧
          (s.answer l (.unpaidAmount debtor d.limit.teamId)).1 = .ok d.debt.total ∧
          ((l.tables.apply s.changes).owed debtor d.limit.teamId = [] → d.debt.total = .zero) ∧
          ∀ (q : Question) (ttl : Cache.Nanoseconds) (cache : Cache.Local), q.ledger = l →
            q.session = s → q.About d.limit.teamId debtor → q.teamId ≠ 0 → q.found cache = none →
            ∃ r, (q.ask ttl cache).1 = .ok r ∧ q.About r.teamId r.forTeam ∧
              r.unpaidAmount = d.debt.total := by
  have hlimits : (l.tables.apply s.changes).limits.KeyedBy Limit.id := hl.shown_keyed.limits
  have hanswer : (s.answer l (.debts debtor creditors)).1 =
      Session.ofMoney ((l.tables.apply s.changes).debts debtor creditors) := rfl
  have hunpaid {d : Debt} {c : Ident} (h : d.Tallies ((l.tables.apply s.changes).owed debtor c)) :
      (s.answer l (.unpaidAmount debtor c)).1 = .ok d.total := congrArg Session.ofMoney h.total
  refine ⟨?_, fun h => ?_, fun ds hds => ?_, fun st around => ?_⟩
  · rw [hanswer, ← Tables.debts_ok_iff]
    simp only [Session.ofMoney_eq_ok_iff]
  · rw [hanswer, Tables.debts_of_not_tallied h]
    rfl
  · rw [hanswer, Session.ofMoney_eq_ok_iff] at hds
    have hreports := Tables.reports_of_debts hds
    refine ⟨hreports.ascending, fun c => ?_, fun d hd => ?_⟩
    · rw [hreports.listed, Tables.owed_ne_nil_iff]
    · have htallies := hreports.tallies d hd
      exact ⟨hunpaid htallies, htallies, htallies.total_eq⟩
  · obtain ⟨teams, l', s', around', hteams', hrun⟩ := run_determined st l s around debtor creditors
    refine ⟨_, l', s', around', hrun, ?_, fun h => ?_, fun items hitems => ?_⟩
    · rw [← List.forall_mem_map (P := (l.tables.apply s.changes).Tallied debtor),
        ← Tables.debts_ok_iff]
      simp only [Session.ofMoney_eq_ok_iff, map_eq_ok_iff]
      exact ⟨fun ⟨_, ds, hds, _⟩ => ⟨ds, hds⟩, fun ⟨ds, hds⟩ => ⟨_, ds, hds, rfl⟩⟩
    · obtain ⟨x, hx, hnot⟩ := h
      rw [Tables.debts_of_not_tallied ⟨x.teamId, List.mem_map_of_mem hx, hnot⟩]
      rfl
    · rw [Session.ofMoney_eq_ok_iff, map_eq_ok_iff] at hitems
      obtain ⟨ds, hds, rfl⟩ := hitems
      have hlimit : ((l.tables.apply s.changes).limitsFor debtor creditors).map
          ((·.limit) ∘ Limit.determined teams ds) =
            (l.tables.apply s.changes).limitsFor debtor creditors := List.map_id _
      refine ⟨by rw [List.map_map, hlimit], ?_, fun d hd => ?_⟩
      · rw [List.map_map]
        exact hlimits.pairwise_map.sublist (List.filter_sublist.map _)
      obtain ⟨x, hx, rfl⟩ := List.mem_map.1 hd
      have hdetermines := determines (t := l.tables.apply s.changes) hteams hteams'
        (Tables.reports_of_debts hds) hx
      refine ⟨hdetermines, hunpaid hdetermines.tallies, fun hnone => ?_, ?_⟩
      · have htotal := hdetermines.tallies.total
        rw [hnone] at htotal
        exact (Except.ok.inj htotal).symm
      · rintro q ttl cache rfl rfl ⟨hteam, hfor⟩ hne hmiss
        refine ask_unpaid ttl hne hmiss ?_
        rw [hteam, hfor]
        exact hdetermines.tallies.total

/-- An invoice of the first team to the second. -/
def debtOf (amount : Money) : NewInvoice where
  fromTeam := 1
  toTeam := 2
  kind := .product
  amount
  created := .ofSecond 1

/-- A debt in two parts. -/
def splitDebt : Debt where
  toTeam := 2
  total := (Money.ofParts? 400 2).getD .zero
  unpaid := (Money.ofParts? 150 2).getD .zero
  submitted := (Money.ofParts? 25 1).getD .zero

/-- Two invoices to a team that has set a limit, one of them submitted. -/
theorem debts_agree_split : ∃ w log s,
    World.Logged { clock := ⟨.ofSecond 5⟩ } w log ∧ w.open? "day" = some s ∧
    (∃ ds, (s.answer w.ledger (.debts 1 [2, 9, 2])).1 = .ok ds ∧ ds.map (·.toTeam) = [2] ∧
      ∀ d ∈ ds, (s.answer w.ledger (.unpaidAmount 1 d.toTeam)).1 = .ok d.total ∧
        d.total.units = d.unpaid.units + d.submitted.units) ∧
    ∀ around, ∃ items ledger s' around', (determined 1 [2, 9, 2]).run Session.backend ()
      (w.ledger, s) around = (.ok items, (), (ledger, s'), around') ∧ items.length = 1 := by
  have key (w log s) (h : World.Logged { clock := ⟨.ofSecond 5⟩ } w log)
      (hs : w.open? "day" = some s)
      (hds : (s.answer w.ledger (.debts 1 [2, 9, 2])).1 = .ok [splitDebt])
      (hwhole : Invoice.AddUp ((w.ledger.tables.apply s.changes).owed 1 2))
      (hopen : Invoice.AddUp (((w.ledger.tables.apply s.changes).owed 1 2).filter
        (!·.hasSubmission)))
      (hsubmitted : Invoice.AddUp (((w.ledger.tables.apply s.changes).owed 1 2).filter
        (·.hasSubmission)))
      (hlimits : ((w.ledger.tables.apply s.changes).limitsFor 1 [2, 9, 2]).map (·.teamId) = [2]) :
      (∃ ds, (s.answer w.ledger (.debts 1 [2, 9, 2])).1 = .ok ds ∧ ds.map (·.toTeam) = [2] ∧
        ∀ d ∈ ds, (s.answer w.ledger (.unpaidAmount 1 d.toTeam)).1 = .ok d.total ∧
          d.total.units = d.unpaid.units + d.submitted.units) ∧
      ∀ around, ∃ items ledger s' around', (determined 1 [2, 9, 2]).run Session.backend ()
        (w.ledger, s) around = (.ok items, (), (ledger, s'), around') ∧ items.length = 1 := by
    obtain ⟨htallied, -, hreport, hdetermined⟩ := debts_agree w.ledger s (h.traced.sound.hosts hs)
      h.teams_keyed 1 [2, 9, 2]
    obtain ⟨-, -, hentries⟩ := hreport _ hds
    refine ⟨⟨_, hds, rfl, fun d hd => ?_⟩, fun around => ?_⟩
    · obtain ⟨hunpaid, -, hparts⟩ := hentries d hd
      refine ⟨hunpaid, ?_⟩
      obtain rfl := List.mem_singleton.1 hd
      exact hparts hwhole hopen hsubmitted
    · obtain ⟨r, ledger, s', around', hrun, hreturns, -, hitems⟩ := hdetermined () around
      have hcounted := htallied.1 ⟨_, hds⟩
      obtain ⟨items, rfl⟩ := hreturns.2 fun x hx => by
        have hteam : x.teamId ∈ ((w.ledger.tables.apply s.changes).limitsFor 1 [2, 9, 2]).map
          (·.teamId) := List.mem_map_of_mem hx
        rw [hlimits, List.mem_singleton] at hteam
        rw [hteam]
        exact hcounted 2 (by decide)
      refine ⟨items, ledger, s', around', hrun, ?_⟩
      have hlength := congrArg List.length hlimits
      rw [← (hitems items rfl).1, List.length_map, List.length_map] at hlength
      exact hlength
  have h : World.Logged { clock := ⟨.ofSecond 5⟩ } _ _ :=
    ((((((World.Logged.start.step (.addTeam "debtor" .selling)).step
      (.addTeam "creditor" .warehouse)).step (.begin "day")).step
      (.call "day" (.insertInvoice (debtOf splitDebt.unpaid)))).step
      (.call "day" (.insertInvoice (debtOf splitDebt.submitted)))).step
      (.call "day" (.setHasSubmission [4] true))).step
      (.call "day" (.saveLimit ⟨0, 2, .team, some 1, splitDebt.total⟩))
  exact ⟨_, _, _, h, rfl, key _ _ _ h rfl (by decide +kernel)
    ⟨splitDebt.total, by decide +kernel, by decide +kernel⟩
    ⟨splitDebt.unpaid, by decide +kernel, by decide +kernel⟩
    ⟨splitDebt.submitted, by decide +kernel, by decide +kernel⟩ (by decide +kernel)⟩

/-- The largest amount. -/
def largest : Money := (Money.ofParts? 79228162514264337593543950335 0).getD .zero

/-- One unit of money. -/
def single : Money := (Money.ofParts? 1 0).getD .zero

/-- Three invoices, together of one unit, the first and the last of them submitted. What is owed is
known, but the debts are not reported, since the submitted amounts overflow. -/
theorem debts_agree_not_tallied : ∃ w log s,
    World.Logged { clock := ⟨.ofSecond 5⟩ } w log ∧ w.open? "day" = some s ∧
    (s.answer w.ledger (.unpaidAmount 1 2)).1 = .ok single ∧
    (s.answer w.ledger (.debts 1 [2])).1 = .error (.overflow .addition) := by
  have h : World.Logged { clock := ⟨.ofSecond 5⟩ } _ _ :=
    ((((World.Logged.start.step (.begin "day")).step
      (.call "day" (.insertInvoice (debtOf largest)))).step
      (.call "day" (.insertInvoice (debtOf (-largest))))).step
      (.call "day" (.insertInvoice (debtOf single)))).step
      (.call "day" (.setHasSubmission [1, 3] true))
  exact ⟨_, _, _, h, rfl, by decide +kernel, by decide +kernel⟩

end CreditLimit

end TeamLedger
