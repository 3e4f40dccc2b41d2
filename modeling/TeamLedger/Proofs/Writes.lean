/-
Writing rows, one at a time.

Whatever a session does to its changes is a list of single writes: a row stored
under its id, a link added, a limit deleted. A write makes sense on tables and
on changes alike, and the two agree: laying changes over tables and then writing
gives the same as writing into the changes and laying them over
(`apply_put`). So what a commit will produce can be followed write by write,
without looking at the session.

The one condition is that a limit is not stored again after its deletion. A
session never does that, since it no longer sees a limit that it has deleted.
-/
import Mathlib.Data.List.Nodup
import TeamLedger.Ledger
import TeamLedger.Proofs.Rows

set_option autoImplicit false

namespace TeamLedger

/-- One row written, or one limit deleted. -/
inductive Put
  | invoice (i : Invoice)
  | submission (x : Submission)
  | link (l : Link)
  | logEntry (e : LogEntry)
  | history (h : History)
  | limit (l : Limit)
  | dropLimit (id : Ident)
deriving Repr

namespace Put

/-- The row that a write counts for when changes are checked for conflicts. -/
def key? : Put → Option RowKey
  | invoice i => some ⟨.invoice, i.id⟩
  | submission x => some ⟨.submission, x.id⟩
  | limit l => some ⟨.limit, l.id⟩
  | dropLimit id => some ⟨.limit, id⟩
  | link _ | logEntry _ | history _ => none

/-- The link that is added, if one is. -/
def link? : Put → Option Link
  | link l => some l
  | _ => none

end Put

/-! ## Writing into tables and into changes -/

/-- The tables with one more write. -/
def Tables.put (t : Tables) : Put → Tables
  | .invoice i => { t with invoices := t.invoices.insert i.id i }
  | .submission x => { t with submissions := t.submissions.insert x.id x }
  | .link l => { t with links := t.links ++ [l] }
  | .logEntry e => { t with logs := t.logs.insert e.id e }
  | .history h => { t with histories := t.histories.insert h.id h }
  | .limit l => { t with limits := t.limits.insert l.id l }
  | .dropLimit id => { t with limits := t.limits.eraseAll [id] }

/-- The tables after writes, one after the other. -/
def Tables.putAll (t : Tables) (ps : List Put) : Tables := ps.foldl Tables.put t

/-- The changes with one more write. -/
def Changes.put (c : Changes) : Put → Changes
  | .invoice i => { c with invoices := c.invoices.insert i.id i }
  | .submission x => { c with submissions := c.submissions.insert x.id x }
  | .link l => { c with links := c.links ++ [l] }
  | .logEntry e => { c with logs := c.logs.insert e.id e }
  | .history h => { c with histories := c.histories.insert h.id h }
  | .limit l => { c with limits := c.limits.insert l.id l }
  | .dropLimit id =>
    { c with limits := c.limits.eraseAll [id], deletedLimits := c.deletedLimits.insertAll [id] }

/-- The changes after writes, one after the other. -/
def Changes.putAll (c : Changes) (ps : List Put) : Changes := ps.foldl Changes.put c

@[simp] theorem Tables.putAll_nil (t : Tables) : t.putAll [] = t := rfl

@[simp] theorem Tables.putAll_cons (t : Tables) (p : Put) (ps : List Put) :
    t.putAll (p :: ps) = (t.put p).putAll ps := rfl

theorem Tables.putAll_append (t : Tables) (ps qs : List Put) :
    t.putAll (ps ++ qs) = (t.putAll ps).putAll qs := List.foldl_append

@[simp] theorem Changes.putAll_nil (c : Changes) : c.putAll [] = c := rfl

@[simp] theorem Changes.putAll_cons (c : Changes) (p : Put) (ps : List Put) :
    c.putAll (p :: ps) = (c.put p).putAll ps := rfl

theorem Changes.putAll_append (c : Changes) (ps qs : List Put) :
    c.putAll (ps ++ qs) = (c.putAll ps).putAll qs := List.foldl_append

/-! ## Extensionality -/

/-- Tables are equal when they find the same rows and hold the same links. -/
theorem Tables.ext_get? {t u : Tables} (teams : t.teams = u.teams)
    (invoices : ∀ k, t.invoices.get? k = u.invoices.get? k)
    (submissions : ∀ k, t.submissions.get? k = u.submissions.get? k) (links : t.links = u.links)
    (logs : ∀ k, t.logs.get? k = u.logs.get? k)
    (histories : ∀ k, t.histories.get? k = u.histories.get? k)
    (limits : ∀ k, t.limits.get? k = u.limits.get? k) : t = u := by
  obtain ⟨_, _, _, _, _, _, _⟩ := t
  obtain ⟨_, _, _, _, _, _, _⟩ := u
  cases teams
  cases links
  cases Rows.ext_get? invoices
  cases Rows.ext_get? submissions
  cases Rows.ext_get? logs
  cases Rows.ext_get? histories
  cases Rows.ext_get? limits
  rfl

/-! ## Writing under what is laid over -/

/-- The write stores no limit that the changes have deleted. -/
def Put.Lands (p : Put) (c : Changes) : Prop := ∀ l, p = .limit l → l.id ∉ c.deletedLimits.ids

theorem mem_ids_insertAll_singleton (s : IdSet) (id k : Ident) :
    k ∈ (s.insertAll [id]).ids ↔ k = id ∨ k ∈ s.ids := by
  rw [IdSet.mem_ids_insertAll, List.mem_singleton]

/-- **A write commutes with laying changes over tables.** -/
theorem Tables.apply_put (t : Tables) {c : Changes} {p : Put} (h : p.Lands c) :
    t.apply (c.put p) = (t.apply c).put p := by
  refine Tables.ext_get? ?_ ?_ ?_ ?_ ?_ ?_ ?_
  · cases p <;> rfl
  · intro k
    cases p <;> simp only [apply, Changes.put, put, Rows.get?_overlay, Rows.get?_insert]
    split <;> rfl
  · intro k
    cases p <;> simp only [apply, Changes.put, put, Rows.get?_overlay, Rows.get?_insert]
    split <;> rfl
  -- links are added at the end of either
  · cases p <;> simp only [apply, Changes.put, put, List.append_assoc]
  · intro k
    cases p <;> simp only [apply, Changes.put, put, Rows.get?_overlay, Rows.get?_insert]
    split <;> rfl
  · intro k
    cases p <;> simp only [apply, Changes.put, put, Rows.get?_overlay, Rows.get?_insert]
    split <;> rfl
  · intro k
    cases p with
    | limit l =>
      -- here the deletion has to be known to be of another limit
      have hl := h l rfl
      simp only [apply, Changes.put, put, Rows.get?_eraseAll, Rows.get?_overlay, Rows.get?_insert]
      by_cases hk : k = l.id
      · rw [if_neg (hk ▸ hl), if_pos hk, if_pos hk, Option.some_or]
      · rw [if_neg hk, if_neg hk]
    | dropLimit id =>
      simp only [apply, Changes.put, put, Rows.get?_eraseAll, Rows.get?_overlay,
        mem_ids_insertAll_singleton, List.mem_singleton]
      by_cases hk : k = id
      · rw [if_pos (.inl hk), if_pos hk]
      · rw [if_neg hk, if_neg hk]
        by_cases hd : k ∈ c.deletedLimits.ids
        · rw [if_pos (.inr hd), if_pos hd]
        · rw [if_neg (by simp [hk, hd]), if_neg hd]
    | _ => simp only [apply, Changes.put, put]

/-- A write that is no limit lands on any changes. -/
theorem Put.lands_of_ne {p : Put} (h : ∀ l, p ≠ .limit l) (c : Changes) : p.Lands c :=
  fun l hl => absurd hl (h l)

/-- Writes among which there is no limit commute with laying changes over tables. -/
theorem Tables.apply_putAll (t : Tables) (c : Changes) {ps : List Put}
    (h : ∀ l, Put.limit l ∉ ps) : t.apply (c.putAll ps) = (t.apply c).putAll ps := by
  induction ps generalizing c with
  | nil => rfl
  | cons p ps ih =>
    have hp : ∀ l, p ≠ .limit l := fun l hl => h l (hl ▸ List.mem_cons_self)
    rw [Changes.putAll_cons, ih _ fun l hl => h l (List.mem_cons_of_mem _ hl),
      apply_put t (Put.lands_of_ne hp c), putAll_cons]

/-- No changes laid over tables leave them as they are. -/
@[simp] theorem Tables.apply_empty (t : Tables) : t.apply {} = t := by
  refine Tables.ext_get? rfl ?_ ?_ ?_ ?_ ?_ ?_
  all_goals simp [apply, Rows.mem_ids]

/-! ## What has been written -/

theorem Changes.mem_written {c : Changes} {k : RowKey} :
    k ∈ c.written ↔ match k.kind with
      | .invoice => (c.invoices.get? k.id).isSome
      | .submission => (c.submissions.get? k.id).isSome
      | .limit => (c.limits.get? k.id).isSome ∨ k.id ∈ c.deletedLimits.ids := by
  obtain ⟨kind, id⟩ := k
  simp only [written, List.mem_append, List.mem_map, RowKey.mk.injEq]
  cases kind <;> simp [Rows.mem_ids]

theorem Changes.mem_written_submission {c : Changes} {id : Ident} :
    ⟨.submission, id⟩ ∈ c.written ↔ (c.submissions.get? id).isSome := mem_written

/-- A write adds its own row to what has been written, and nothing is ever taken away: a limit that
is deleted moves from the stored ones to the deleted ones. -/
theorem Changes.mem_written_put {c : Changes} {p : Put} {k : RowKey} :
    k ∈ (c.put p).written ↔ p.key? = some k ∨ k ∈ c.written := by
  obtain ⟨kind, id⟩ := k
  rw [mem_written, mem_written]
  cases p <;> cases kind <;>
    simp only [put, Put.key?, Rows.get?_insert, Rows.get?_eraseAll, mem_ids_insertAll_singleton,
      Option.some.injEq, RowKey.mk.injEq, reduceCtorEq, false_and, true_and, false_or,
      List.mem_singleton]
  -- a limit that is deleted is no longer stored, but it is among the deleted ones then
  case dropLimit.limit id' =>
    by_cases h : id = id'
    · simp [h]
    · simp [h, Ne.symm h]
  all_goals
    split
    next h => simp [h]
    next h => simp [Ne.symm h]

theorem Changes.mem_written_putAll {c : Changes} {ps : List Put} {k : RowKey} :
    k ∈ (c.putAll ps).written ↔ (∃ p ∈ ps, p.key? = some k) ∨ k ∈ c.written := by
  induction ps generalizing c with
  | nil => simp
  | cons p ps ih =>
    rw [putAll_cons, ih, mem_written_put]
    simp only [List.mem_cons, exists_eq_or_imp]
    constructor
    · rintro (h | h | h)
      · exact .inl (.inr h)
      · exact .inl (.inl h)
      · exact .inr h
    · rintro ((h | h) | h)
      · exact .inr (.inl h)
      · exact .inl h
      · exact .inr (.inr h)

/-! ## A row after writes -/

namespace Tables

variable (t : Tables) (ps : List Put)

/-- **A row after writes** is as before, or is one of those written under its id. This is said of any of
the tables, given which writes go there. -/
theorem row_putAll {α : Type} {rows : Tables → Rows α} {row? : Put → Option α} {idOf : α → Ident}
    (hput : ∀ t p, rows (t.put p) = (row? p).elim (rows t) fun a => (rows t).insert (idOf a) a)
    (id : Ident) :
    ((rows (t.putAll ps)).get? id = (rows t).get? id ∧
        ∀ p ∈ ps, ∀ a, row? p = some a → idOf a ≠ id) ∨
      ∃ p ∈ ps, ∃ a, row? p = some a ∧ idOf a = id ∧ (rows (t.putAll ps)).get? id = some a := by
  induction ps generalizing t with
  | nil => exact .inl ⟨rfl, fun p hp => nomatch hp⟩
  | cons p ps ih =>
    -- the last write under the id counts, so the later ones are looked at first
    rcases ih (t.put p) with ⟨hget, hne⟩ | ⟨q, hq, a, ha, hid, hget⟩
    · rw [hput] at hget
      by_cases hrow : ∃ a, row? p = some a ∧ idOf a = id
      · obtain ⟨a, ha, rfl⟩ := hrow
        rw [ha, Option.elim_some, Rows.get?_insert, if_pos rfl] at hget
        exact .inr ⟨p, List.mem_cons_self, a, ha, rfl, hget⟩
      · have unchanged : ((row? p).elim (rows t) fun a => (rows t).insert (idOf a) a).get? id =
            (rows t).get? id := by
          cases ha : row? p with
          | none => rfl
          | some a =>
            have hid : id ≠ idOf a := fun heq => hrow ⟨a, ha, heq.symm⟩
            rw [Option.elim_some, Rows.get?_insert, if_neg hid]
        refine .inl ⟨hget.trans unchanged, fun q hq a ha hid => ?_⟩
        rcases List.mem_cons.1 hq with rfl | hq
        · exact hrow ⟨a, ha, hid⟩
        · exact hne q hq a ha hid
    · exact .inr ⟨q, List.mem_cons_of_mem _ hq, a, ha, hid, hget⟩

theorem putAll_teams : (t.putAll ps).teams = t.teams := by
  induction ps generalizing t with
  | nil => rfl
  | cons p ps ih =>
    rw [putAll_cons, ih]
    cases p <;> rfl

theorem putAll_links : (t.putAll ps).links = t.links ++ ps.filterMap Put.link? := by
  induction ps generalizing t with
  | nil => exact (List.append_nil _).symm
  | cons p ps ih =>
    rw [putAll_cons, ih]
    cases p with
    | link l => exact List.append_assoc _ [l] _
    | _ => rfl

theorem links_putAll_of_none (h : ∀ l, Put.link l ∉ ps) : (t.putAll ps).links = t.links := by
  have none_added : ps.filterMap Put.link? = [] := by
    refine List.filterMap_eq_nil_iff.2 fun p hp => ?_
    cases p with
    | link l => exact absurd hp (h l)
    | _ => rfl
  rw [putAll_links, none_added, List.append_nil]

variable {t ps}

theorem invoice_putAll (t : Tables) (ps : List Put) (id : Ident) :
    ((t.putAll ps).invoices.get? id = t.invoices.get? id ∧
        ∀ i, Put.invoice i ∈ ps → i.id ≠ id) ∨
      ∃ i, Put.invoice i ∈ ps ∧ i.id = id ∧ (t.putAll ps).invoices.get? id = some i := by
  have hput (t : Tables) (p : Put) : (t.put p).invoices =
      (match p with | .invoice i => some i | _ => none).elim t.invoices fun i =>
        t.invoices.insert i.id i := by
    cases p <;> rfl
  rcases row_putAll t ps hput id with ⟨hget, hne⟩ | ⟨p, hp, i, hpv, hid, hget⟩
  · exact .inl ⟨hget, fun i hv => hne _ hv i rfl⟩
  · cases p <;> cases hpv
    exact .inr ⟨i, hp, hid, hget⟩

/-- **A row after invoices have been written** under different ids is one of them, or as before. -/
theorem get?_putAll_invoices {is : List Invoice} (h : (is.map (·.id)).Nodup)
    {id : Ident} {i : Invoice} : (t.putAll (is.map .invoice)).invoices.get? id = some i ↔
      i ∈ is ∧ i.id = id ∨ t.invoices.get? id = some i ∧ ∀ j ∈ is, j.id ≠ id := by
  rcases invoice_putAll t (is.map .invoice) id with ⟨hget, hne⟩ | ⟨k, hk, rfl, hget⟩
  · replace hne : ∀ j ∈ is, j.id ≠ id := fun j hj => hne j (List.mem_map_of_mem hj)
    rw [hget]
    constructor
    · exact fun hi => .inr ⟨hi, hne⟩
    · rintro (⟨hi, hid⟩ | ⟨hi, -⟩)
      · exact absurd hid (hne i hi)
      · exact hi
  · replace hk : k ∈ is := by simpa using hk
    rw [hget]
    constructor
    · rintro ⟨⟩
      exact .inl ⟨hk, rfl⟩
    · rintro (⟨hi, hid⟩ | ⟨-, hne⟩)
      · rw [List.inj_on_of_nodup_map h hi hk hid]
      · exact absurd rfl (hne k hk)

/-- Writing invoices leaves the rest of the tables as it is. -/
theorem putAll_invoices_eq (t : Tables) (is : List Invoice) :
    t.putAll (is.map .invoice) = { t with invoices := (t.putAll (is.map .invoice)).invoices } := by
  induction is generalizing t with
  | nil => rfl
  | cons i is ih =>
    rw [List.map_cons, putAll_cons, ih]
    rfl

theorem submission_putAll (t : Tables) (ps : List Put) (id : Ident) :
    ((t.putAll ps).submissions.get? id = t.submissions.get? id ∧
        ∀ x, Put.submission x ∈ ps → x.id ≠ id) ∨
      ∃ x, Put.submission x ∈ ps ∧ x.id = id ∧ (t.putAll ps).submissions.get? id = some x := by
  have hput (t : Tables) (p : Put) : (t.put p).submissions =
      (match p with | .submission x => some x | _ => none).elim t.submissions fun x =>
        t.submissions.insert x.id x := by
    cases p <;> rfl
  rcases row_putAll t ps hput id with ⟨hget, hne⟩ | ⟨p, hp, x, hpv, hid, hget⟩
  · exact .inl ⟨hget, fun x hv => hne _ hv x rfl⟩
  · cases p <;> cases hpv
    exact .inr ⟨x, hp, hid, hget⟩

theorem history_putAll (t : Tables) (ps : List Put) (id : Ident) :
    ((t.putAll ps).histories.get? id = t.histories.get? id ∧
        ∀ x, Put.history x ∈ ps → x.id ≠ id) ∨
      ∃ x, Put.history x ∈ ps ∧ x.id = id ∧ (t.putAll ps).histories.get? id = some x := by
  have hput (t : Tables) (p : Put) : (t.put p).histories =
      (match p with | .history x => some x | _ => none).elim t.histories fun x =>
        t.histories.insert x.id x := by
    cases p <;> rfl
  rcases row_putAll t ps hput id with ⟨hget, hne⟩ | ⟨p, hp, x, hpv, hid, hget⟩
  · exact .inl ⟨hget, fun x hv => hne _ hv x rfl⟩
  · cases p <;> cases hpv
    exact .inr ⟨x, hp, hid, hget⟩

theorem mem_links_putAll {l : Link} : l ∈ (t.putAll ps).links ↔ l ∈ t.links ∨ Put.link l ∈ ps := by
  rw [putAll_links, List.mem_append, List.mem_filterMap]
  constructor
  · rintro (h | ⟨p, hp, hl⟩)
    · exact .inl h
    · cases p <;> cases hl
      exact .inr hp
  · rintro (h | h)
    · exact .inl h
    · exact .inr ⟨_, h, rfl⟩

end Tables

/-- The invoice that has been written last under an id. -/
theorem Changes.invoice_putAll (c : Changes) (ps : List Put) (id : Ident) :
    ((c.putAll ps).invoices.get? id = c.invoices.get? id ∧ ∀ i, Put.invoice i ∈ ps → i.id ≠ id) ∨
      ∃ i, Put.invoice i ∈ ps ∧ i.id = id ∧ (c.putAll ps).invoices.get? id = some i := by
  -- written into changes or into tables, invoices are the same
  have invoices_eq : (c.putAll ps).invoices =
      (({ invoices := c.invoices } : Tables).putAll ps).invoices := by
    generalize ht : ({ invoices := c.invoices } : Tables) = t
    replace ht : c.invoices = t.invoices := by rw [← ht]
    induction ps generalizing c t with
    | nil => exact ht
    | cons p ps ih =>
      refine ih (c.put p) (t.put p) ?_
      cases p with
      | invoice i => exact congrArg (·.insert i.id i) ht
      | _ => exact ht
  rw [invoices_eq]
  exact Tables.invoice_putAll _ ps id

end TeamLedger
