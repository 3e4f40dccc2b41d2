/-
Joining rows, table by table.

A join finds exactly the stored rows that its equation is true of
(`Joined.mem_partners`), so the rows after all joins of a plan are those in which
every join fits (`Joined.mem_joinAll_iff`): a join reads its own table and the
one that it starts from, and later joins leave both as they are. The conditions
are met by exactly the rows that they are true of (`Joined.meets_iff`). For a
condition without a value to compare this is a matter of its kind: a comparison
with NULL is not true, whether it is negated or not, but to have no submission
is true of NULL as well.
-/
import TeamLedger.Proofs.JoinPlans
import TeamLedger.Proofs.Rows
import TeamLedger.Proofs.SelectTexts

set_option autoImplicit false

namespace TeamLedger

open Sql

/-- Every row that queries go over is stored under its own id. -/
structure Tables.Indexed (t : Tables) : Prop where
  teams : t.teams.KeyedBy Team.id
  invoices : t.invoices.KeyedBy Invoice.id
  submissions : t.submissions.KeyedBy Submission.id
  histories : t.histories.KeyedBy History.id

namespace Tables.Indexed

variable {t : Tables} (h : t.Indexed)
include h

theorem rows : (root : Root) → (root.rows t).KeyedBy root.idOf
  | .invoice => h.invoices
  | .submission => h.submissions
  | .history => h.histories

end Tables.Indexed

/-! ## Equations and conditions -/

namespace Sql

theorem compared_eq_true {v : Option Value} {p : Value → Bool} :
    compared v p = some true ↔ ∃ x, v = some x ∧ p x = true := by
  unfold compared
  rw [Option.map_eq_some_iff]

/-- An equation is true if both columns hold the same value. -/
theorem On.truth_eq_true {a : Joined} {c d : Column} :
    On.truth a (some (c, d)) = some true ↔ ∃ v, c.value? a = some v ∧ d.value? a = some v := by
  unfold On.truth
  rw [Option.bind_eq_some_iff]
  refine exists_congr fun v => and_congr_right fun _ => ?_
  rw [compared_eq_true]
  constructor
  · rintro ⟨w, hw, heq⟩
    rw [hw, of_decide_eq_true heq]
  · exact fun hv => ⟨v, hv, decide_eq_true rfl⟩

end Sql

/-- An equation reads the two tables that it joins, and no others. -/
theorem Table.truth_onColumns_congr {a b : Joined} {t u : Table} (ht : a.get t = b.get t)
    (hu : a.get u = b.get u) : (t.onColumns u).truth a = (t.onColumns u).truth b := by
  cases t <;> cases u <;>
    simp only [onColumns, On.truth, Column.value?, Column.table, ht, hu]

namespace Joined

variable {t : Tables} {a j : Joined}

/-! ## Joins -/

theorem mem_filtered {α β κ : Type} [DecidableEq κ] {o : Option α} {rows : List β} {g : β → κ}
    {k : α → κ} {f : β → Joined} :
    j ∈ (o.elim [] fun x => (rows.filter fun r => g r = k x).map f) ↔
      ∃ r, r ∈ rows ∧ (∃ x, o = some x ∧ g r = k x) ∧ j = f r := by
  cases o with
  | none => simp
  | some x =>
    simp only [Option.elim_some, List.mem_map, List.mem_filter, Option.some.injEq,
      decide_eq_true_eq]
    constructor
    · rintro ⟨r, ⟨hr, hp⟩, rfl⟩
      exact ⟨r, hr, ⟨x, rfl, hp⟩, rfl⟩
    · rintro ⟨r, hr, ⟨_, rfl, hp⟩, rfl⟩
      exact ⟨r, ⟨hr, hp⟩, rfl⟩

theorem mem_found {α β : Type} {o : Option α} {rows : Rows β} {idOf : β → Ident}
    (h : rows.KeyedBy idOf) {k : α → Ident} {f : β → Joined} :
    j ∈ ((o.bind fun x => rows.get? (k x)).map f).toList ↔
      ∃ r, r ∈ rows.values ∧ (∃ x, o = some x ∧ idOf r = k x) ∧ j = f r := by
  simp only [Option.mem_toList, Option.map_eq_some_iff, Option.bind_eq_some_iff]
  constructor
  · rintro ⟨r, ⟨x, hx, hr⟩, rfl⟩
    exact ⟨r, Rows.mem_values.2 ⟨_, hr⟩, ⟨x, hx, h _ _ hr⟩, rfl⟩
  · rintro ⟨r, hr, ⟨x, hx, hid⟩, rfl⟩
    exact ⟨r, ⟨x, hx, hid ▸ h.mem_values_iff.1 hr⟩, rfl⟩

/-- **A join finds the stored rows that its equation is true of.** No join starts from a team. -/
theorem mem_partners (h : t.Indexed) {p u : Table} (hnext : u ∈ p.neighbours)
    (hp : p ≠ .fromTeam ∧ p ≠ .toTeam) :
    j ∈ a.partners t p u ↔
      ∃ r, t.Stored u r ∧ (p.onColumns u).truth (a.put u r) = some true ∧ j = a.put u r := by
  have of_keys (same : u.Row → Prop)
      (hfound : j ∈ a.partners t p u ↔ ∃ r, t.Stored u r ∧ same r ∧ j = a.put u r)
      (hsame : ∀ r, same r ↔ (p.onColumns u).truth (a.put u r) = some true) :
      j ∈ a.partners t p u ↔
        ∃ r, t.Stored u r ∧ (p.onColumns u).truth (a.put u r) = some true ∧ j = a.put u r := by
    simp only [hfound, hsame]
  cases p <;> cases u <;> simp [Table.neighbours] at hnext hp
  -- a join looks for the key that the equation compares, in a list or among rows by id
  all_goals
    first
      | refine of_keys _ mem_filtered fun r => ?_
      | refine of_keys _ (mem_found h.invoices) fun r => ?_
      | refine of_keys _ (mem_found h.submissions) fun r => ?_
      | refine of_keys _ (mem_found h.histories) fun r => ?_
      | refine of_keys _ (mem_found h.teams) fun r => ?_
    simp only [On.truth_eq_true, Table.onColumns, Column.value?, Column.table, Column.read, get,
      put, Option.bind_eq_some_iff, Option.map_eq_some_iff, Option.some.injEq]
    grind

/-- What a step of a plan means. -/
theorem fits_iff {step : JoinStep} : step.toJoin.Fits t a ↔
    (∃ r, a.get step.table = some r ∧ t.Stored step.table r ∧
      (step.parent.onColumns step.table).truth a = some true) ∨
    (a.get step.table = none ∧ step.kind = .left ∧ ∀ r, t.Stored step.table r →
      (step.parent.onColumns step.table).truth (a.put step.table r) ≠ some true) := Iff.rfl

/-- A row after a join: with a partner that the equation is true of, or as it was. -/
theorem mem_join (h : t.Indexed) {step : JoinStep} (hnext : step.table ∈ step.parent.neighbours)
    (hp : step.parent ≠ .fromTeam ∧ step.parent ≠ .toTeam) :
    j ∈ a.join t step ↔
      (∃ r, t.Stored step.table r ∧
        (step.parent.onColumns step.table).truth (a.put step.table r) = some true ∧
        j = a.put step.table r) ∨
      (step.kind = .left ∧ j = a ∧ ∀ r, t.Stored step.table r →
        (step.parent.onColumns step.table).truth (a.put step.table r) ≠ some true) := by
  have hpartners := fun j => mem_partners (a := a) (j := j) h hnext hp
  have hnone : (a.partners t step.parent step.table).isEmpty = true ↔ ∀ r, t.Stored step.table r →
      (step.parent.onColumns step.table).truth (a.put step.table r) ≠ some true := by
    rw [List.isEmpty_iff, List.eq_nil_iff_forall_not_mem]
    constructor
    · exact fun hempty r hr hon => hempty _ ((hpartners _).2 ⟨r, hr, hon, rfl⟩)
    · intro hall j hj
      obtain ⟨r, hr, hon, -⟩ := (hpartners j).1 hj
      exact hall r hr hon
  unfold join
  by_cases hleft : (a.partners t step.parent step.table).isEmpty ∧ step.kind = .left
  · rw [if_pos hleft, List.mem_singleton]
    have hall := hnone.1 hleft.1
    constructor
    · exact fun heq => .inr ⟨hleft.2, heq, hall⟩
    · rintro (⟨r, hr, hon, -⟩ | ⟨-, heq, -⟩)
      · exact absurd hon (hall r hr)
      · exact heq
  · rw [if_neg hleft, hpartners]
    constructor
    · exact .inl
    · rintro (hfound | ⟨hkind, -, hall⟩)
      · exact hfound
      · exact absurd ⟨hnone.2 hall, hkind⟩ hleft

theorem mem_joinAll {plan : List JoinStep} {rows : List Joined} :
    j ∈ joinAll t plan rows ↔ ∃ a ∈ rows, j ∈ joinAll t plan [a] := by
  unfold joinAll
  induction plan generalizing rows with
  | nil => simp
  | cons step plan ih =>
    simp only [List.foldl_cons, List.flatMap_cons, List.flatMap_nil, List.append_nil]
    rw [ih]
    constructor
    · rintro ⟨b, hb, hj⟩
      obtain ⟨a, ha, hab⟩ := List.mem_flatMap.1 hb
      exact ⟨a, ha, ih.2 ⟨b, hab, hj⟩⟩
    · rintro ⟨a, ha, hj⟩
      obtain ⟨b, hb, hj⟩ := ih.1 hj
      exact ⟨b, List.mem_flatMap.2 ⟨a, ha, hb⟩, hj⟩

theorem mem_joinAll_cons {step : JoinStep} {plan : List JoinStep} :
    j ∈ joinAll t (step :: plan) [a] ↔ ∃ b ∈ a.join t step, j ∈ joinAll t plan [b] := by
  rw [← mem_joinAll]
  simp [joinAll]

/-- A step reads its own table and the one that it starts from. -/
theorem fits_congr {b : Joined} {step : JoinStep} (hne : step.parent ≠ step.table)
    (hparent : a.get step.parent = b.get step.parent) (htable : a.get step.table = b.get step.table) :
    step.toJoin.Fits t a ↔ step.toJoin.Fits t b := by
  have hon := Table.truth_onColumns_congr hparent htable
  have hput : ∀ r, (step.parent.onColumns step.table).truth (a.put step.table r) =
      (step.parent.onColumns step.table).truth (b.put step.table r) := by
    refine fun r => Table.truth_onColumns_congr ?_ ?_
    · rw [get_put_of_ne _ _ hne, get_put_of_ne _ _ hne, hparent]
    · rw [get_put_self, get_put_self]
  rw [fits_iff, fits_iff]
  simp only [hon, hput, htable]

/-- A table without a row may be given that of other rows, or none. -/
theorem exists_get_eq (j : Joined) {u : Table} (hnull : a.get u = none) :
    ∃ b : Joined, b.get u = j.get u ∧ ∀ v, v ≠ u → b.get v = a.get v := by
  cases hj : j.get u with
  | none => exact ⟨a, hnull, fun _ _ => rfl⟩
  | some r => exact ⟨a.put u r, get_put_self a u r, fun v hv => get_put_of_ne a r hv⟩

/-- The rows that a join makes are those in which it fits. -/
theorem mem_join_iff_fits (h : t.Indexed) {step : JoinStep}
    (hnext : step.table ∈ step.parent.neighbours)
    (hp : step.parent ≠ .fromTeam ∧ step.parent ≠ .toTeam) (hnull : a.get step.table = none) :
    j ∈ a.join t step ↔ (∀ u, u ≠ step.table → j.get u = a.get u) ∧ step.toJoin.Fits t j := by
  rw [mem_join h hnext hp, fits_iff]
  constructor
  · rintro (⟨r, hr, hon, rfl⟩ | ⟨hkind, rfl, hall⟩)
    · exact ⟨fun u hu => get_put_of_ne a r hu, .inl ⟨r, get_put_self a _ r, hr, hon⟩⟩
    · exact ⟨fun _ _ => rfl, .inr ⟨hnull, hkind, hall⟩⟩
  · rintro ⟨hothers, ⟨r, hget, hr, hon⟩ | ⟨hget, hkind, hall⟩⟩
    · have hj : j = a.put step.table r := by
        refine ext_get fun u => ?_
        by_cases hu : u = step.table
        · subst hu
          rw [get_put_self]
          exact hget
        · rw [get_put_of_ne a r hu, hothers u hu]
      exact .inl ⟨r, hr, hj ▸ hon, hj⟩
    · have hj : j = a := by
        refine ext_get fun u => ?_
        by_cases hu : u = step.table
        · rw [hu, hnull]
          exact hget
        · exact hothers u hu
      exact .inr ⟨hkind, hj, hj ▸ hall⟩

/-- **The rows after all joins** are those in which every join fits, with the rows that were there
before and none for tables that are not joined. The induction is along the plan: what a join reads
is placed by then, and later joins do not change it. -/
theorem mem_joinAll_iff (h : t.Indexed) {s : JoinSet} {placed : List Table} {plan : List JoinStep}
    (hplan : s.Planned placed plan)
    (hp : ∀ step ∈ plan, step.parent ≠ .fromTeam ∧ step.parent ≠ .toTeam)
    (hnull : ∀ u, u ∉ placed → a.get u = none) :
    j ∈ joinAll t plan [a] ↔ (∀ u ∈ placed, j.get u = a.get u) ∧
      (∀ u, u ∉ placed → u ∉ plan.map (·.table) → j.get u = none) ∧
      ∀ step ∈ plan, step.toJoin.Fits t j := by
  induction hplan generalizing a with
  | nil placed =>
    have hstart : j ∈ joinAll t [] [a] ↔ j = a := List.mem_singleton
    rw [hstart]
    constructor
    · rintro rfl
      exact ⟨fun _ _ => rfl, fun u hu _ => hnull u hu, by simp⟩
    · rintro ⟨hplaced, hothers, -⟩
      refine ext_get fun u => ?_
      by_cases hu : u ∈ placed
      · exact hplaced u hu
      · rw [hothers u hu (by simp), hnull u hu]
  | @cons placed step plan hparent hnext hfresh _ _ _ ih =>
    have hstep := hp step List.mem_cons_self
    have hrest := fun step' h => hp step' (List.mem_cons_of_mem step h)
    have hne : step.parent ≠ step.table := (Table.ne_of_mem_neighbours hnext).symm
    have join_iff := fun b => mem_join_iff_fits (j := b) h hnext hstep (hnull _ hfresh)
    rw [mem_joinAll_cons]
    constructor
    · rintro ⟨b, hb, hj⟩
      obtain ⟨hothers, hfits⟩ := (join_iff b).1 hb
      have hnull' : ∀ u, u ∉ placed ++ [step.table] → b.get u = none := by
        intro u hu
        rw [List.mem_append, List.mem_singleton, not_or] at hu
        rw [hothers u hu.2, hnull u hu.1]
      obtain ⟨hplaced, habsent, hall⟩ := (ih hrest hnull').1 hj
      have hkept : ∀ u ∈ placed, j.get u = b.get u :=
        fun u hu => hplaced u (List.mem_append_left _ hu)
      refine ⟨fun u hu => ?_, fun u hu hmem => ?_, ?_⟩
      · rw [hkept u hu, hothers u fun heq => hfresh (heq ▸ hu)]
      · rw [List.map_cons, List.mem_cons, not_or] at hmem
        exact habsent u (by simp [hu, hmem.1]) hmem.2
      · intro step' hstep'
        rcases List.mem_cons.1 hstep' with rfl | hstep'
        · exact (fits_congr hne (hkept _ hparent) (hplaced _ (by simp))).2 hfits
        · exact hall step' hstep'
    · rintro ⟨hplaced, habsent, hall⟩
      obtain ⟨b, hget, hothers⟩ := exists_get_eq j (hnull _ hfresh)
      have hkept : ∀ u ∈ placed, j.get u = b.get u := by
        intro u hu
        rw [hplaced u hu, hothers u fun heq => hfresh (heq ▸ hu)]
      have hfits : step.toJoin.Fits t b :=
        (fits_congr hne (hkept _ hparent) hget.symm).1 (hall step List.mem_cons_self)
      refine ⟨b, (join_iff b).2 ⟨hothers, hfits⟩, (ih hrest fun u hu => ?_).2 ⟨?_, ?_, ?_⟩⟩
      · rw [List.mem_append, List.mem_singleton, not_or] at hu
        rw [hothers u hu.2, hnull u hu.1]
      · intro u hu
        rcases List.mem_append.1 hu with hu | hu
        · exact hkept u hu
        · rw [List.mem_singleton.1 hu, hget]
      · intro u hu hmem
        rw [List.mem_append, List.mem_singleton, not_or] at hu
        exact habsent u hu.1 (by simp [hu.2] at hmem ⊢; exact hmem)
      · exact fun step' hstep' => hall step' (List.mem_cons_of_mem _ hstep')

end Joined

/-! ## Conditions -/

theorem Named.name_inj {α : Type} [Named α] {a b : α} : Named.name a = Named.name b ↔ a = b :=
  ⟨Named.name_injective a b, fun h => h ▸ rfl⟩

namespace Sql.Condition

variable {a : Joined} {c : Column} {vs : Values}

/-- Among some values a value is one of them or not, and NULL is neither. -/
theorem among_truth (hvs : vs.list ≠ []) :
    (among c vs).truth a = compared (c.value? a) fun v => vs.list.contains v := by
  unfold truth
  cases c.value? a with
  | none =>
    -- every comparison is unknown, and so are all of them together
    have hunknown : ∀ us : List Value, us ≠ [] →
        us.foldr (fun v b => Truth.or (compared none (· = v)) b) (some false) = none := by
      intro us hus
      induction us with
      | nil => exact absurd rfl hus
      | cons u us ih =>
        refine Truth.none_or ?_
        cases us with
        | nil => simp
        | cons u' us =>
          rw [ih (List.cons_ne_nil _ _)]
          simp
    exact hunknown _ hvs
  | some w =>
    show _ = some (vs.list.contains w)
    induction vs.list with
    | nil => rfl
    | cons v us ih =>
      rw [List.foldr_cons, ih]
      exact Truth.some_or_some _ _

theorem among_holds : (among c vs).Holds a ↔
    compared (c.value? a) (fun v => vs.list.contains v) = some true := by
  unfold Holds
  by_cases hvs : vs.list = []
  · have hfalse : (among c vs).truth a = some false := by simp only [truth, hvs, List.foldr_nil]
    rw [hfalse, compared_eq_true, hvs]
    simp
  · rw [among_truth hvs]

theorem not_among_holds (hvs : vs.list ≠ []) : (not (among c vs)).Holds a ↔
    compared (c.value? a) (fun v => !vs.list.contains v) = some true := by
  unfold Holds truth
  rw [among_truth hvs, compared, Option.map_map]
  rfl

end Sql.Condition

namespace Joined

variable {a : Joined}

theorem any_iff {α : Type} {o : Option α} {q : α → Bool} {read : α → Option Value}
    {p : Value → Bool} (h : ∀ x, q x = true ↔ ∃ v, read x = some v ∧ p v = true) :
    o.any q = true ↔ compared (o.bind read) p = some true := by
  rw [compared_eq_true]
  cases o with
  | none => simp
  | some x => exact h x

theorem contains_names {ss : List Invoice.Status} {s : Invoice.Status} :
    (Values.texts (ss.map Named.name)).list.contains (.text (Named.name s)) = ss.contains s := by
  rw [Bool.eq_iff_iff, List.contains_iff_mem, List.contains_iff_mem]
  simp [Values.list, Named.name_inj]

/-- **A row meets a condition if the condition is true of its columns.** -/
theorem meets_iff {f : Filter} (hf : f.Proper) : a.meets f = true ↔ f.condition.Holds a := by
  cases f with
  | invoiceIds ids =>
    rw [Filter.condition, Condition.among_holds]
    exact any_iff fun i => by simp [Column.read, Values.list]
  | statusIn ss =>
    rw [Filter.condition, Condition.among_holds]
    exact any_iff fun i => by simp only [Column.read, Option.some.injEq, exists_eq_left',
      contains_names]
  | statusNotIn ss =>
    rw [Filter.condition, Condition.not_among_holds (by simpa [Values.list, Filter.Proper] using hf)]
    exact any_iff fun i => by simp only [Column.read, Option.some.injEq, exists_eq_left',
      contains_names]
  | hasSubmission wanted =>
    cases wanted with
    | true => exact any_iff fun i => by simp [Column.read]
    | false =>
      unfold Filter.condition Condition.Holds
      rw [Condition.truth, Truth.or_eq_true]
      cases hi : a.invoice <;>
        simp [meets, Condition.truth, compared, Column.value?, Column.table, Column.read, get, hi]
  | fromTeam id | toTeam id | submissionId id | createdBy id =>
    exact any_iff fun i => by simp [Column.read]
  | txId id | orderId id | verifiedBy id =>
    exact any_iff fun i => by simp [Column.read]
  | fromTeamKind k | toTeamKind k | status s | kind k | submissionStatus s =>
    exact any_iff fun i => by simp [Column.read, Named.name_inj]
  | submittedFrom t | submittedUntil t | paidFrom t | paidUntil t =>
    exact any_iff fun i => by simp [Column.read]

end Joined

end TeamLedger
