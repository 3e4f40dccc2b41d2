/-
The open sessions of a world, by name.

A world keeps its sessions in a list. For a proof they are a partial function
from names to sessions, `World.open?`, and every operation of the world is
described by what it does to this function and to the ledger: beginning and
ending a session change it at one name, running a program replaces one session
by its successor, and nothing else happens to it.
-/
import TeamLedger.World
import TeamLedger.Proofs.Programs

set_option autoImplicit false

namespace TeamLedger

/-! ## Association lists -/

section

variable {β : Type}

theorem lookup_filter_ne (es : List (String × β)) (name k : String) :
    (es.filter (·.1 ≠ name)).lookup k = if k = name then none else es.lookup k := by
  induction es with
  | nil => simp
  | cons e es ih =>
    obtain ⟨key, b⟩ := e
    by_cases hkey : key = name
    · rw [List.filter_cons_of_neg (by simpa using hkey), ih]
      by_cases hk : k = name
      · rw [if_pos hk, if_pos hk]
      · rw [if_neg hk, if_neg hk, List.lookup_cons, beq_eq_false_iff_ne.2 (hkey ▸ hk)]
    · rw [List.filter_cons_of_pos (by simpa using hkey), List.lookup_cons, List.lookup_cons, ih]
      by_cases hk : k = key
      · subst hk
        simp [hkey]
      · simp [beq_eq_false_iff_ne.2 hk]

theorem lookup_map_replace (es : List (String × β)) (name k : String) (b : β) :
    (es.map fun e => if e.1 = name then (name, b) else e).lookup k =
      if k = name then (es.lookup k).map fun _ => b else es.lookup k := by
  induction es with
  | nil => simp
  | cons e es ih =>
    obtain ⟨key, b'⟩ := e
    rw [List.map_cons, List.lookup_cons]
    by_cases hkey : key = name
    · subst hkey
      rw [if_pos rfl, List.lookup_cons, ih]
      by_cases hk : k = key
      · subst hk
        simp
      · simp [beq_eq_false_iff_ne.2 hk, hk]
    · rw [if_neg hkey, List.lookup_cons, ih]
      by_cases hk : k = key
      · subst hk
        simp [hkey]
      · simp [beq_eq_false_iff_ne.2 hk]

end

/-! ## Open sessions -/

namespace World

/-- The session that is open under a name. -/
def open? (w : World) (name : String) : Option Session := (w.session? name).map (·.session)

theorem open?_forget (w : World) (name k : String) :
    (w.forget name).open? k = if k = name then none else w.open? k := by
  unfold open? session? forget
  rw [lookup_filter_ne]
  split <;> rfl

theorem open?_rollback (w : World) (name k : String) :
    (w.rollback name).open? k = if k = name then none else w.open? k := by
  unfold rollback
  split
  next s hs => exact w.open?_forget name k
  next hs =>
    by_cases hk : k = name
    · rw [if_pos hk, hk, open?, hs]
      rfl
    · rw [if_neg hk]

/-- The ledger after a session under a name has been dropped, if there is one. -/
theorem ledger_rollback (w : World) (name : String) :
    (w.rollback name).ledger = (w.open? name).elim w.ledger fun s => w.ledger.rollback s := by
  unfold rollback open?
  cases w.session? name <;> rfl

/-- Whichever session is dropped, the tables, versions and counters stay. -/
theorem ledger_rollback_eq (w : World) (name : String) :
    (w.rollback name).ledger = { w.ledger with locks := (w.rollback name).ledger.locks } := by
  rw [ledger_rollback]
  cases w.open? name <;> rfl

@[simp] theorem tables_rollback (w : World) (name : String) :
    (w.rollback name).ledger.tables = w.ledger.tables := by
  rw [ledger_rollback_eq]

theorem open?_begin (w : World) (name k : String) :
    (w.begin name).open? k =
      if k = name then some (w.rollback name).ledger.begin.1 else w.open? k := by
  -- the old session under the name is gone, so the new one is found behind the others
  have gone : ((w.rollback name).open? k).isSome → k ≠ name := by
    rw [open?_rollback]
    split <;> simp [*]
  have lookup_eq : (w.begin name).open? k =
      ((w.rollback name).open? k).or
        (if k = name then some (w.rollback name).ledger.begin.1 else none) := by
    unfold begin open? session?
    simp only [List.lookup_append]
    cases (w.rollback name).sessions.lookup k with
    | some o => rfl
    | none =>
      by_cases hk : k = name
      · simp [hk]
      · simp [hk]
  rw [lookup_eq, open?_rollback]
  by_cases hk : k = name
  · simp [hk]
  · simp [hk]

@[simp] theorem ledger_begin (w : World) (name : String) :
    (w.begin name).ledger = (w.rollback name).ledger.begin.2 := rfl

theorem tables_begin (w : World) (name : String) :
    (w.begin name).ledger.tables = w.ledger.tables :=
  w.tables_rollback name

theorem open?_commit (w : World) (name k : String) :
    (w.commit name).2.open? k = if k = name then none else w.open? k := by
  unfold commit
  split
  next s hs => exact w.open?_forget name k
  next hs =>
    by_cases hk : k = name
    · rw [if_pos hk, hk, open?, hs]
      rfl
    · rw [if_neg hk]

/-- Committing an open session is committing it on the ledger. -/
theorem commit_of_open? {w : World} {name : String} {s : Session} (h : w.open? name = some s) :
    (w.commit name).1 = (w.ledger.commit s).1 ∧
      (w.commit name).2.ledger = (w.ledger.commit s).2 := by
  obtain ⟨o, ho, rfl⟩ := Option.map_eq_some_iff.1 h
  unfold commit
  rw [ho]
  exact ⟨rfl, rfl⟩

theorem ledger_commit_of_none {w : World} {name : String} (h : w.open? name = none) :
    (w.commit name).2.ledger = w.ledger := by
  unfold commit
  rw [Option.map_eq_none_iff.1 h]

@[simp] theorem open?_addTeam (w : World) (name : String) (kind : Team.Kind) :
    (w.addTeam name kind).2.open? = w.open? := rfl

/-- **Running a program** replaces the session it runs in, and the ledger, by what the program makes
of them. -/
theorem run_eq_some {α : Type} {w w' : World} {name : String} {p : Program α} {a : α}
    (h : w.run name none p = some (a, w')) : ∃ s l s' around', w.open? name = some s ∧
      p.run Session.backend (w.ledger, s) w.around = (a, (l, s'), around') ∧ w'.ledger = l ∧
      ∀ k, w'.open? k = if k = name then some s' else w.open? k := by
  unfold run at h
  obtain ⟨o, ho, h⟩ := Option.bind_eq_some_iff.1 h
  rw [Program.run_failing_none] at h
  generalize hz : p.run Session.backend (w.ledger, o.session) w.around = z at h
  obtain ⟨r, ⟨l, s'⟩, around'⟩ := z
  cases h
  refine ⟨o.session, l, s', around', by rw [open?, ho]; rfl, hz, rfl, fun k => ?_⟩
  unfold open? session?
  dsimp only
  rw [lookup_map_replace]
  by_cases hk : k = name
  · subst hk
    rw [if_pos rfl, if_pos rfl, show w.sessions.lookup k = some o from ho]
    rfl
  · rw [if_neg hk, if_neg hk]

/-- A program runs whenever its session is open. -/
theorem run_isSome {α : Type} (w : World) (name : String) (p : Program α) :
    (w.run name none p).isSome = (w.open? name).isSome := by
  unfold run open?
  cases w.session? name <;> rfl

theorem run_of_open {α : Type} {w : World} {name : String} {s : Session}
    (hs : w.open? name = some s) (p : Program α) : ∃ w',
      w.run name none p = some ((p.run Session.backend (w.ledger, s) w.around).1, w') ∧
      w'.ledger = (p.run Session.backend (w.ledger, s) w.around).2.1.1 ∧
      ∀ k, w'.open? k = if k = name
        then some (p.run Session.backend (w.ledger, s) w.around).2.1.2 else w.open? k := by
  obtain ⟨⟨a, w'⟩, hrun⟩ := Option.isSome_iff_exists.1
    ((w.run_isSome name p).trans (by rw [hs]; rfl))
  obtain ⟨s₀, l, s', around', hs₀, hp, hledger, hopen⟩ := run_eq_some hrun
  cases hs.symm.trans hs₀
  rw [hp]
  exact ⟨w', hrun, hledger, hopen⟩

theorem run_of_not_open {α : Type} {w : World} {name : String} (hs : w.open? name = none)
    (p : Program α) : w.run name none p = none := by
  have never := w.run_isSome name p
  rw [hs] at never
  exact Option.isNone_iff_eq_none.1 (Option.isSome_eq_false_iff.1 never)

end World

end TeamLedger
