/-
Counting labels.

The labels of a family are kept in order, and this is what counting relies on: it
stops at the first label that is greater, and takes the one that it counts to be
missing then. On labels in order, counting a label once more adds one to its
count and leaves the others alone. So the steps of submissions are counted by
their statuses (`Metrics.count_bumpTransitions`).
-/
import TeamLedger.Metrics
import TeamLedger.Submission

set_option autoImplicit false

namespace TeamLedger

namespace LabelCounts

variable {cs : LabelCounts} {label : String}

theorem mem_bump {c : String × Nat} (h : c ∈ bump label cs) : c.1 = label ∨ ∃ d ∈ cs, d.1 = c.1 := by
  induction cs with
  | nil =>
    cases List.mem_singleton.1 h
    exact .inl rfl
  | cons d cs ih =>
    unfold bump at h
    split at h
    · rcases List.mem_cons.1 h with rfl | h
      · exact .inl rfl
      · exact .inr ⟨c, h, rfl⟩
    · split at h
      · rcases List.mem_cons.1 h with rfl | h
        · exact .inr ⟨d, List.mem_cons_self, rfl⟩
        · exact .inr ⟨c, List.mem_cons_of_mem _ h, rfl⟩
      · rcases List.mem_cons.1 h with rfl | h
        · exact .inr ⟨d, List.mem_cons_self, rfl⟩
        · refine (ih h).imp_right ?_
          rintro ⟨e, he, heq⟩
          exact ⟨e, List.mem_cons_of_mem _ he, heq⟩

/-- Labels stay in order. -/
theorem pairwise_bump (h : cs.Pairwise (·.1 < ·.1)) : (bump label cs).Pairwise (·.1 < ·.1) := by
  induction cs with
  | nil => exact List.pairwise_singleton ..
  | cons d cs ih =>
    obtain ⟨hd, hcs⟩ := List.pairwise_cons.1 h
    unfold bump
    by_cases hlt : label < d.1
    · rw [if_pos hlt]
      refine List.pairwise_cons.2 ⟨fun c hc => ?_, h⟩
      rcases List.mem_cons.1 hc with rfl | hc
      · exact hlt
      · exact String.lt_trans hlt (hd c hc)
    rw [if_neg hlt]
    by_cases heq : label = d.1
    · rw [if_pos heq]
      exact List.pairwise_cons.2 ⟨hd, hcs⟩
    rw [if_neg heq]
    refine List.pairwise_cons.2 ⟨fun c hc => ?_, ih hcs⟩
    rcases mem_bump hc with hc | ⟨e, he, hc⟩
    · rw [hc]
      exact String.not_le.1 fun hle => heq (String.le_antisymm hle (String.not_lt.1 hlt))
    · rw [← hc]
      exact hd e he

/-- **Counting once more** adds one to the count of the label. -/
theorem lookup_bump (h : cs.Pairwise (·.1 < ·.1)) (l : String) :
    ((bump label cs).lookup l).getD 0 = (cs.lookup l).getD 0 + if l = label then 1 else 0 := by
  have lookup_cons (c : String × Nat) (cs : LabelCounts) :
      (c :: cs).lookup l = if l = c.1 then some c.2 else cs.lookup l := by
    by_cases hl : l = c.1
    · rw [if_pos hl, List.lookup_cons, beq_iff_eq.2 hl]
    · rw [if_neg hl, List.lookup_cons, beq_eq_false_iff_ne.2 hl]
  induction cs with
  | nil =>
    show (List.lookup l [(label, 1)]).getD 0 = _
    rw [lookup_cons]
    split <;> rfl
  | cons d cs ih =>
    obtain ⟨hd, hcs⟩ := List.pairwise_cons.1 h
    unfold bump
    by_cases hlt : label < d.1
    · rw [if_pos hlt, lookup_cons]
      by_cases hl : l = label
      · -- the labels behind are greater, so the label had no count
        have absent : (d :: cs).lookup l = none := by
          refine List.lookup_eq_none_iff.2 fun c hc => ?_
          have hlc : label < c.1 := by
            rcases List.mem_cons.1 hc with rfl | hc
            · exact hlt
            · exact String.lt_trans hlt (hd c hc)
          refine bne_iff_ne.2 fun heq => ?_
          rw [← hl, heq] at hlc
          exact String.lt_irrefl _ hlc
        rw [if_pos hl, if_pos hl, absent]
        rfl
      · rw [if_neg hl, if_neg hl]
        rfl
    rw [if_neg hlt]
    by_cases heq : label = d.1
    · rw [if_pos heq, lookup_cons, lookup_cons, ← heq]
      split <;> rfl
    rw [if_neg heq, lookup_cons, lookup_cons]
    by_cases hl : l = d.1
    · rw [if_pos hl, if_pos hl, if_neg fun hlabel => heq (hlabel.symm.trans hl)]
      rfl
    · rw [if_neg hl, if_neg hl]
      exact ih hcs

end LabelCounts

namespace Metrics

variable {m : Metrics}

/-- The labels of every family are in order. -/
def Ordered (m : Metrics) : Prop := ∀ k, (m.counts k).Pairwise (·.1 < ·.1)

theorem Ordered.zero : Metrics.zero.Ordered := fun _ => .nil

theorem Ordered.bump (h : m.Ordered) (metric : Metric) (label : String) :
    (m.bump metric label).Ordered := by
  intro k
  show (if k = metric then LabelCounts.bump label (m.counts k) else m.counts k).Pairwise _
  split
  · exact LabelCounts.pairwise_bump (h k)
  · exact h k

theorem count_bump (h : m.Ordered) (metric : Metric) (label l : String) :
    (m.bump metric label).count metric l = m.count metric l + if l = label then 1 else 0 := by
  show ((if metric = metric then LabelCounts.bump label (m.counts metric)
    else m.counts metric).lookup l).getD 0 = _
  rw [if_pos rfl]
  exact LabelCounts.lookup_bump (h metric) l

theorem Ordered.bumpTransitions (h : m.Ordered) (statuses : List Submission.Status) :
    (m.bumpTransitions statuses).Ordered := by
  induction statuses generalizing m with
  | nil => exact h
  | cons status statuses ih => exact ih (h.bump .submissions (Named.name status))

/-- **Steps are counted by their status.** -/
theorem count_bumpTransitions (h : m.Ordered) (statuses : List Submission.Status)
    (status : Submission.Status) :
    (m.bumpTransitions statuses).count .submissions (Named.name status) =
      m.count .submissions (Named.name status) + statuses.count status := by
  induction statuses generalizing m with
  | nil => rfl
  | cons step statuses ih =>
    show ((m.bump .submissions (Named.name step)).bumpTransitions statuses).count _ _ = _
    rw [ih (h.bump _ _), count_bump h, List.count_cons]
    by_cases heq : step = status
    · rw [heq, if_pos rfl, beq_self_eq_true, if_pos rfl]
      omega
    · rw [if_neg fun hname => heq (Named.name_injective _ _ hname).symm,
        beq_eq_false_iff_ne.2 heq]
      simp

end Metrics

end TeamLedger
