/-
What holds of a ledger and its sessions, whatever is called on them.

Two things make optimistic commits work, and both are invariants of single
calls. First, a session that notes the version of a row also holds that row in
its snapshot: as long as the version has not moved, the snapshot shows the
committed row, even if the snapshot as a whole is old (`Fits.agree`). Second,
ids are handed out by the ledger and never twice, so a row that a session adds
cannot meet a row that another one adds.

The invariant is stated for a ledger together with a function from names to open
sessions, so that it does not matter how a world stores them. It is preserved by
beginning a session, by every call, by every program, and by every way a session
can end.
-/
import Mathlib.Logic.Function.Basic
import TeamLedger.Proofs.Sessions
import TeamLedger.Proofs.SharedRows

set_option autoImplicit false

namespace TeamLedger

/-! ## A session on its ledger -/

/-- An id in use comes before the next one. -/
theorem Ledger.lt_newId {l : Ledger} {id : Ident} (h : id ≤ l.lastId) : id < l.newId.1 :=
  Int.lt_add_one_of_le h

/-- The next id has not been handed out. -/
theorem Ledger.not_newId_le (l : Ledger) : ¬ l.newId.1 ≤ l.lastId :=
  fun h => absurd (lt_newId h) (Int.lt_irrefl _)

/-- No row that the session has written has another version than the session noted: its commit would
go through now. -/
def Ledger.Admits (l : Ledger) (s : Session) : Prop :=
  ∀ k ∈ s.changes.written, l.versions k = s.base k

theorem Ledger.conflict?_eq_none {l : Ledger} {s : Session} :
    l.conflict? s = none ↔ l.Admits s := by
  unfold conflict? Admits
  rw [List.find?_eq_none]
  simp

theorem Ledger.commit_of_admits {l : Ledger} {s : Session} (h : l.Admits s) :
    l.commit s = (.ok (), { l.release s.id with
      tables := l.tables.apply s.changes
      commits := l.commits + 1
      versions := fun k => if k ∈ s.changes.written then l.commits + 1 else l.versions k }) := by
  unfold commit
  rw [conflict?_eq_none.2 h]
  rfl

theorem Ledger.commit_of_not_admits {l : Ledger} {s : Session} (h : ¬ l.Admits s) :
    ∃ e, l.commit s = (.error e, l.release s.id) := by
  unfold commit
  cases hc : l.conflict? s with
  | none => exact absurd (conflict?_eq_none.1 hc) h
  | some k => exact ⟨_, rfl⟩

/-- Others keep their locks when a session gives back its own. -/
theorem Ledger.release_other {l : Ledger} {id other : SessionId} {k : LockKey} (hne : id ≠ other)
    (hk : l.locks k = some id) : (l.release other).locks k = some id := by
  show (if l.locks k = some other then none else l.locks k) = some id
  rw [hk, if_neg fun heq => hne (Option.some.inj heq)]

/-- What nobody else has locked is free then. -/
theorem Ledger.release_own {l : Ledger} {id : SessionId} {k : LockKey}
    (hk : l.locks k = none ∨ l.locks k = some id) : (l.release id).locks k = none := by
  show (if l.locks k = some id then none else l.locks k) = none
  rcases hk with hk | hk
  · rw [hk]
    rfl
  · rw [if_pos hk]

/-- What holds between a ledger and each of its sessions. -/
structure Ledger.Fits (l : Ledger) (s : Session) : Prop where
  known : s.id ≤ l.lastSession
  snapshot_keyed : s.snapshot.Keyed
  changes_keyed : s.changes.Keyed
  snapshot_within : ∀ id, s.snapshot.Uses id → id ≤ l.lastId
  changes_within : ∀ id, s.changes.Uses id → id ≤ l.lastId
  base_le : ∀ k, s.base k ≤ l.versions k
  /-- A row whose version has not moved is in the snapshot as it is committed. -/
  agree : ∀ k, l.versions k = s.base k → l.tables.SameRow s.snapshot k
  new_histories : ∀ id, (s.changes.histories.get? id).isSome → l.tables.histories.get? id = none

/-- What a ledger and one of its sessions need for the session's next call. -/
structure Ledger.Hosts (l : Ledger) (s : Session) : Prop where
  keyed : l.tables.Keyed
  within : ∀ id, l.tables.Uses id → id ≤ l.lastId
  fits : l.Fits s

/-- What holds of a ledger with the sessions that are open on it. -/
structure Ledger.Sound (l : Ledger) (ses : String → Option Session) : Prop where
  keyed : l.tables.Keyed
  within : ∀ id, l.tables.Uses id → id ≤ l.lastId
  versions_le : ∀ k, l.versions k ≤ l.commits
  fits : ∀ n s, ses n = some s → l.Fits s
  distinct : ∀ n m s t, ses n = some s → ses m = some t → s.id = t.id → n = m
  /-- Two sessions never add payments under one id. -/
  apart : ∀ n m s t, n ≠ m → ses n = some s → ses m = some t → ∀ id,
    (s.changes.histories.get? id).isSome → t.changes.histories.get? id = none

theorem Ledger.Sound.id_ne {l : Ledger} {ses : String → Option Session} (h : l.Sound ses)
    {n m : String} {s t : Session} (hne : n ≠ m) (hs : ses n = some s) (ht : ses m = some t) :
    s.id ≠ t.id :=
  fun heq => hne (h.distinct n m s t hs ht heq)

namespace Ledger.Fits

variable {l l' : Ledger} {s : Session}

theorem view_keyed (h : l.Fits s) : s.view.Keyed := h.snapshot_keyed.apply h.changes_keyed

theorem view_within (h : l.Fits s) {id : Ident} (hid : s.view.Uses id) : id ≤ l.lastId := by
  rcases Tables.uses_apply hid with hid | hid
  · exact h.snapshot_within id hid
  · exact h.changes_within id hid

/-- **What a session sees of a row whose version has not moved** is what its commit would leave. -/
theorem sameRow_view (h : l.Fits s) {k : RowKey} (hk : l.versions k = s.base k) :
    (l.tables.apply s.changes).SameRow s.view k :=
  (h.agree k hk).apply s.changes

/-- Ids and locks granted to any session do not matter. -/
theorem of_grants {id : SessionId} (h : l.Fits s) (hl : l.Grants id l') : l'.Fits s := by
  have lastId_le : ∀ k : Ident, k ≤ l.lastId → k ≤ l'.lastId :=
    fun k hk => Int.le_trans hk (Int.ofNat_le.2 hl.lastId)
  refine ⟨?_, h.snapshot_keyed, h.changes_keyed, ?_, ?_, ?_, ?_, ?_⟩
  · rw [hl.lastSession]
    exact h.known
  · exact fun id hid => lastId_le id (h.snapshot_within id hid)
  · exact fun id hid => lastId_le id (h.changes_within id hid)
  · rw [hl.versions]
    exact h.base_le
  · rw [hl.versions, hl.tables]
    exact h.agree
  · rw [hl.tables]
    exact h.new_histories

/-- A new snapshot shows everything that is committed. A row written before keeps the version noted
for it, so its version may already have moved. -/
theorem refresh (h : l.Fits s) (hkeyed : l.tables.Keyed)
    (hwithin : ∀ id, l.tables.Uses id → id ≤ l.lastId) : l.Fits (s.refresh l) where
  known := h.known
  snapshot_keyed := hkeyed
  changes_keyed := h.changes_keyed
  snapshot_within := hwithin
  changes_within := h.changes_within
  base_le k := by
    show (if k ∈ s.changes.written then s.base k else l.versions k) ≤ _
    split
    · exact h.base_le k
    · exact Nat.le_refl _
  agree k _ := .refl _ k
  new_histories := h.new_histories

/-- Writing rows that are seen, or under the id that the ledger hands out next. -/
theorem writeAll (h : l.Fits s) {id : SessionId} (hl : l.Grants id l') {ps : List Put}
    (hwithin : ∀ id, l.tables.Uses id → id ≤ l.lastId)
    (hps : ∀ p ∈ ps, p.Revises s.view ∨ p.id? = some l.newId.1 ∧ l'.lastId = l.lastId + 1) :
    l'.Fits (s.writeAll ps) := by
  have h' : l'.Fits s := h.of_grants hl
  refine ⟨h'.known, h'.snapshot_keyed, h'.changes_keyed.putAll ps, h'.snapshot_within, ?_,
    h'.base_le, h'.agree, ?_⟩
  · intro id hid
    rcases Changes.uses_putAll hid with ⟨p, hp, hpid⟩ | hid
    · rcases hps p hp with hseen | ⟨hnew, hlast⟩
      · exact Int.le_trans (h.view_within (hseen.uses hpid)) (Int.ofNat_le.2 hl.lastId)
      · have id_eq : id = l.newId.1 := Option.some.inj (hpid.symm.trans hnew)
        rw [id_eq, hlast]
        exact Int.le_refl _
    · exact h'.changes_within id hid
  · intro id hid
    rcases Changes.isSome_histories_putAll hid with ⟨x, hx, rfl⟩ | hid
    · rcases hps _ hx with hseen | ⟨hnew, -⟩
      · exact hseen.elim
      · -- the new id is beyond every id in the tables
        rw [hl.tables]
        have id_eq : x.id = l.newId.1 := Option.some.inj hnew
        refine Option.not_isSome_iff_eq_none.1 fun hused => ?_
        rw [id_eq] at hused
        exact l.not_newId_le (hwithin _ (.inr (.inr (.inr (.inl hused)))))
    · exact h'.new_histories id hid

end Ledger.Fits

namespace Ledger.Hosts

variable {l : Ledger} {s : Session}

/-- The ids of the rows that the session's commit would leave have been handed out. -/
theorem uses_le (h : l.Hosts s) {id : Ident} (hused : (l.tables.apply s.changes).Uses id) :
    id ≤ l.lastId := by
  rcases Tables.uses_apply hused with hused | hused
  · exact h.within id hused
  · exact h.fits.changes_within id hused

/-- And they come under their own ids. -/
theorem shown_keyed (h : l.Hosts s) : (l.tables.apply s.changes).Keyed :=
  h.keyed.apply h.fits.changes_keyed

theorem newId_unused (h : l.Hosts s) : ¬ (l.tables.apply s.changes).Uses l.newId.1 :=
  fun hused => l.not_newId_le (h.uses_le hused)

/-- A call writes rows that the session sees, or one row under the next id. -/
theorem writes_ok (h : l.Hosts s) (c : StoreCall) : ∀ p ∈ s.writes l c, p.Revises s.view ∨
    p.id? = some l.newId.1 ∧ (s.answer l c).2.1.lastId = l.lastId + 1 := fun _ hp =>
  Session.revises_or_new h.fits.view_keyed.invoices h.fits.view_keyed.submissions
    h.fits.view_keyed.limits hp

theorem answer_session (h : l.Hosts s) (c : StoreCall) :
    (s.answer l c).2.2 = (if c.reads then s.refresh l else s).writeAll (s.writes l c) :=
  s.answer_session l c h.fits.view_keyed.invoices

theorem answer_changes (h : l.Hosts s) (c : StoreCall) :
    (s.answer l c).2.2.changes = s.changes.putAll (s.writes l c) := by
  rw [h.answer_session c]
  split <;> rfl

theorem answer_id (h : l.Hosts s) (c : StoreCall) : (s.answer l c).2.2.id = s.id := by
  rw [h.answer_session c]
  split <;> rfl

theorem answer (h : l.Hosts s) (c : StoreCall) :
    (s.answer l c).2.1.Hosts (s.answer l c).2.2 := by
  have hl := s.answer_ledger l c
  refine ⟨?_, ?_, ?_⟩
  · rw [hl.tables]
    exact h.keyed
  · rw [hl.tables]
    exact fun id hid => Int.le_trans (h.within id hid) (Int.ofNat_le.2 hl.lastId)
  · rw [h.answer_session c]
    cases hreads : c.reads with
    | true =>
      rw [s.writes_of_reads l hreads, if_pos rfl]
      exact (h.fits.refresh h.keyed h.within).of_grants hl
    | false =>
      rw [if_neg Bool.false_ne_true]
      exact h.fits.writeAll hl h.within (h.writes_ok c)

end Ledger.Hosts

/-! ## What a session keeps -/

/-- The second state of the session is a later one: what it had written then it has written still,
and it keeps the versions that it had noted for these rows. -/
structure Session.Onward (s s' : Session) : Prop where
  id : s'.id = s.id
  written : ∀ k ∈ s.changes.written, k ∈ s'.changes.written
  base : ∀ k ∈ s.changes.written, s'.base k = s.base k

namespace Session.Onward

variable {s s' s'' : Session}

theorem refl (s : Session) : s.Onward s := ⟨rfl, fun _ hk => hk, fun _ _ => rfl⟩

theorem trans (h : s.Onward s') (h' : s'.Onward s'') : s.Onward s'' where
  id := h'.id.trans h.id
  written k hk := h'.written k (h.written k hk)
  base k hk := (h'.base k (h.written k hk)).trans (h.base k hk)

theorem refresh (s : Session) (l : Ledger) : s.Onward (s.refresh l) where
  id := rfl
  written _ hk := hk
  base _ hk := if_pos hk

theorem writeAll (s : Session) (ps : List Put) : s.Onward (s.writeAll ps) where
  id := rfl
  written _ hk := Changes.mem_written_putAll.2 (.inr hk)
  base _ _ := rfl

theorem answer {l : Ledger} (h : l.Hosts s) (c : StoreCall) : s.Onward (s.answer l c).2.2 := by
  rw [h.answer_session c]
  split
  · exact (refresh s l).trans (writeAll _ _)
  · exact writeAll _ _

/-- A session whose commit would go through now could have committed before. -/
theorem admits {l l' : Ledger} (h : s.Onward s') (hv : l'.versions = l.versions)
    (hadmits : l'.Admits s') : l.Admits s := by
  intro k hk
  rw [← hv, hadmits k (h.written k hk), h.base k hk]

end Session.Onward

/-- **Whatever a program does**, it leads the session onward on a ledger that grants it ids and
locks. -/
theorem Program.run_leads {α : Type} (p : Program α) (around : Surroundings) {l : Ledger}
    {s : Session} (h : l.Hosts s) :
    l.Grants s.id (p.run Session.backend (l, s) around).2.1.1 ∧
      s.Onward (p.run Session.backend (l, s) around).2.1.2 ∧
      (p.run Session.backend (l, s) around).2.1.1.Hosts
        (p.run Session.backend (l, s) around).2.1.2 := by
  refine run_preserves (P := fun l' s' => l.Grants s.id l' ∧ s.Onward s' ∧ l'.Hosts s') ?_ p around
    ⟨.refl _ _, .refl _, h⟩
  rintro l' s' c ⟨hgrants, honward, hhosts⟩
  refine ⟨hgrants.trans ?_, honward.trans (.answer hhosts c), hhosts.answer c⟩
  have := s'.answer_ledger l' c
  rwa [honward.id] at this

theorem Service.Ends.leads {σ α : Type} {p : Service σ α} {r : Except Failure α}
    {x y : σ × Ledger × Session} (h : p.Ends x r y) (hx : x.2.1.Hosts x.2.2) :
    x.2.1.Grants x.2.2.id y.2.1 ∧ x.2.2.Onward y.2.2 ∧ y.2.1.Hosts y.2.2 := by
  obtain ⟨around, around', h⟩ := h
  have := (p x.1).run_leads around hx
  rwa [h] at this

/-- Whoever is there when a session has gone was there before, under another name. -/
theorem there_of_update_none {ses : String → Option Session} {n m : String} {t : Session}
    (h : Function.update ses n none m = some t) : m ≠ n ∧ ses m = some t := by
  rw [Function.update_apply] at h
  split at h
  · cases h
  next hm => exact ⟨hm, h⟩

/-- What holds of any two sessions, in either order, still does if one of them is replaced by another
session for which it holds. -/
theorem between_update {R : Session → Session → Prop} (symm : ∀ s t, R s t → R t s)
    {ses : String → Option Session} {n : String} {s : Session}
    (h : ∀ m m' t t', m ≠ m' → ses m = some t → ses m' = some t' → R t t')
    (hnew : ∀ m t, m ≠ n → ses m = some t → R s t) :
    ∀ m m' t t', m ≠ m' → Function.update ses n (some s) m = some t →
      Function.update ses n (some s) m' = some t' → R t t' := by
  intro m m' t t' hne ht ht'
  rw [Function.update_apply] at ht ht'
  split at ht
  next hm =>
    split at ht'
    next hm' => exact absurd (hm.trans hm'.symm) hne
    next hm' =>
      cases ht
      exact hnew m' t' hm' ht'
  next hm =>
    split at ht'
    next =>
      cases ht'
      exact symm _ _ (hnew m t hm ht)
    next => exact h m m' t t' hne ht ht'

namespace Ledger.Sound

variable {l l' : Ledger} {ses : String → Option Session} {n : String} {s : Session}

/-- A new ledger without sessions. -/
theorem empty : ({} : Ledger).Sound fun _ => none where
  keyed := .empty
  within id h := by simp [Tables.Uses] at h
  versions_le _ := Nat.le_refl _
  fits _ _ h := nomatch h
  distinct _ _ _ _ h := nomatch h
  apart _ _ _ _ _ h := nomatch h

/-- Locks do not matter. -/
theorem of_locks (h : l.Sound ses) (locks : LockKey → Option SessionId) :
    ({ l with locks } : Ledger).Sound ses where
  keyed := h.keyed
  within := h.within
  versions_le := h.versions_le
  fits n s hs := by
    obtain ⟨h1, h2, h3, h4, h5, h6, h7, h8⟩ := h.fits n s hs
    exact ⟨h1, h2, h3, h4, h5, h6, h7, h8⟩
  distinct := h.distinct
  apart := h.apart

/-- Fewer sessions are no harm. -/
theorem close (h : l.Sound ses) (n : String) : l.Sound (Function.update ses n none) := by
  have still : ∀ m t, Function.update ses n none m = some t → ses m = some t :=
    fun _ _ ht => (there_of_update_none ht).2
  refine ⟨h.keyed, h.within, h.versions_le, ?_, ?_, ?_⟩
  · exact fun m t ht => h.fits m t (still m t ht)
  · exact fun n m s t hs ht => h.distinct n m s t (still n s hs) (still m t ht)
  · exact fun n m s t hne hs ht => h.apart n m s t hne (still n s hs) (still m t ht)

/-- A session put under a name keeps the sessions distinct if its number is that of no other. -/
theorem distinct_update (h : l.Sound ses) (hid : ∀ m t, m ≠ n → ses m = some t → t.id ≠ s.id) :
    ∀ m m' t t', Function.update ses n (some s) m = some t →
      Function.update ses n (some s) m' = some t' → t.id = t'.id → m = m' := by
  intro m m' t t' ht ht' heq
  by_contra hne
  refine between_update (R := fun s t => s.id ≠ t.id) (fun _ _ => Ne.symm)
    (fun m m' t t' hne ht ht' heq => hne (h.distinct m m' t t' ht ht' heq))
    (fun m t hm ht => (hid m t hm ht).symm) m m' t t' hne ht ht' heq

/-- A session put under a name keeps payments apart if no other session has added one of its own. -/
theorem apart_update (h : l.Sound ses)
    (hother : ∀ m t, m ≠ n → ses m = some t → ∀ id,
      (s.changes.histories.get? id).isSome → t.changes.histories.get? id = none) :
    ∀ m m' t t', m ≠ m' → Function.update ses n (some s) m = some t →
      Function.update ses n (some s) m' = some t' → ∀ id,
        (t.changes.histories.get? id).isSome → t'.changes.histories.get? id = none :=
  between_update (fun _ _ => Rows.apart_symm) h.apart hother

/-- **Beginning a session.** Its number is new, and it has noted every version. -/
theorem begin (h : l.Sound ses) (n : String) :
    l.begin.2.Sound (Function.update ses n (some l.begin.1)) := by
  have fits_old : ∀ t, l.Fits t → l.begin.2.Fits t := by
    rintro t ⟨h1, h2, h3, h4, h5, h6, h7, h8⟩
    exact ⟨Nat.le_succ_of_le h1, h2, h3, h4, h5, h6, h7, h8⟩
  have fits_new : l.begin.2.Fits l.begin.1 := by
    refine ⟨Nat.le_refl _, h.keyed, .empty, h.within, ?_, fun k => Nat.le_refl _,
      fun k _ => .refl _ k, ?_⟩
    · intro id hid
      simp [Ledger.begin, Changes.Uses, Rows.mem_ids] at hid
    · intro id hid
      simp [Ledger.begin] at hid
  -- the number is beyond those of all open sessions
  have number_new : ∀ m t, ses m = some t → t.id ≠ l.begin.1.id :=
    fun m t ht => Nat.ne_of_lt (Nat.lt_succ_of_le (h.fits m t ht).known)
  refine ⟨h.keyed, h.within, h.versions_le, ?_, ?_, ?_⟩
  · intro m t ht
    rw [Function.update_apply] at ht
    split at ht
    · cases ht
      exact fits_new
    · exact fits_old t (h.fits m t ht)
  · exact h.distinct_update fun m t _ ht => number_new m t ht
  · refine h.apart_update fun m t _ _ id hid => ?_
    simp [Ledger.begin] at hid

/-- If a session can still commit after another one has, they have written different rows. -/
theorem admits_after (h : l.Sound ses) {o : Session} (hs : ses n = some s) (hadmits : l.Admits o)
    (hafter : (l.commit o).2.Admits s) :
    l.Admits s ∧ ∀ k ∈ s.changes.written, k ∉ o.changes.written := by
  rw [Ledger.commit_of_admits hadmits] at hafter
  have version (k) (hk : k ∈ s.changes.written) :
      (if k ∈ o.changes.written then l.commits + 1 else l.versions k) = s.base k := hafter k hk
  have base_le (k) : s.base k ≤ l.commits :=
    Nat.le_trans ((h.fits n s hs).base_le k) (h.versions_le k)
  -- a row of both would have a version now that nobody can have noted
  have apart (k) (hk : k ∈ s.changes.written) : k ∉ o.changes.written := by
    intro hko
    have := version k hk
    rw [if_pos hko] at this
    have := base_le k
    omega
  refine ⟨fun k hk => ?_, apart⟩
  have := version k hk
  rwa [if_neg (apart k hk)] at this

/-- **A commit.** The rows written get a version that no session can have noted, so for every other
session the rows whose versions it finds unmoved are as they were. -/
theorem commit (h : l.Sound ses) (hs : ses n = some s) :
    (l.commit s).2.Sound (Function.update ses n none) := by
  by_cases hadmits : l.Admits s
  case neg =>
    obtain ⟨e, he⟩ := Ledger.commit_of_not_admits hadmits
    rw [he]
    exact (h.of_locks _).close n
  case pos =>
    rw [Ledger.commit_of_admits hadmits]
    have hfit := h.fits n s hs
    refine ⟨h.keyed.apply hfit.changes_keyed, ?_, ?_, ?_, ?_, ?_⟩
    · intro id hid
      rcases Tables.uses_apply hid with hid | hid
      · exact h.within id hid
      · exact hfit.changes_within id hid
    · intro k
      show (if k ∈ s.changes.written then l.commits + 1 else l.versions k) ≤ l.commits + 1
      split
      · exact Nat.le_refl _
      · exact Nat.le_succ_of_le (h.versions_le k)
    · intro m t ht
      rw [Function.update_apply] at ht
      split at ht
      · cases ht
      next hm =>
        have tfit := h.fits m t ht
        -- no session can have noted the version that the commit gives
        have base_lt : ∀ k, t.base k < l.commits + 1 := fun k =>
          Nat.lt_succ_of_le (Nat.le_trans (tfit.base_le k) (h.versions_le k))
        refine ⟨tfit.known, tfit.snapshot_keyed, tfit.changes_keyed, tfit.snapshot_within,
          tfit.changes_within, ?_, ?_, ?_⟩
        · intro k
          show t.base k ≤ if k ∈ s.changes.written then l.commits + 1 else l.versions k
          split
          · exact Nat.le_of_lt (base_lt k)
          · exact tfit.base_le k
        · intro k hk
          replace hk : (if k ∈ s.changes.written then l.commits + 1 else l.versions k) = t.base k :=
            hk
          split at hk
          · exact absurd hk (Nat.ne_of_gt (base_lt k))
          next hkw => exact (l.tables.sameRow_apply hkw).trans (tfit.agree k hk)
        · intro id hid
          show (l.tables.histories.overlay s.changes.histories).get? id = none
          rw [Rows.get?_overlay, tfit.new_histories id hid, h.apart m n t s hm ht hs id hid]
          rfl
    · exact (h.close n).distinct
    · exact (h.close n).apart

/-- Rolling a session back. -/
theorem rollback (h : l.Sound ses) (n : String) (s : Session) :
    (l.rollback s).Sound (Function.update ses n none) :=
  (h.of_locks _).close n

/-- Adding a team hands out an id and touches no row that sessions write. -/
theorem addTeam (h : l.Sound ses) (name : String) (kind : Team.Kind) (now : Instant) :
    (l.addTeam name kind now).2.Sound ses := by
  have lastId_le : ∀ k : Ident, k ≤ l.lastId → k ≤ (l.addTeam name kind now).2.lastId :=
    fun k hk => Int.le_trans hk (Int.ofNat_le.2 (Nat.le_succ _))
  refine ⟨?_, fun id hid => lastId_le id (h.within id hid), h.versions_le, ?_, h.distinct, h.apart⟩
  · obtain ⟨h1, h2, h3, h4, h5⟩ := h.keyed
    exact ⟨h1, h2, h3, h4, h5⟩
  · intro m t ht
    obtain ⟨h1, h2, h3, h4, h5, h6, h7, h8⟩ := h.fits m t ht
    exact ⟨h1, h2, h3, fun id hid => lastId_le id (h4 id hid),
      fun id hid => lastId_le id (h5 id hid), h6, h7, h8⟩

/-- **A call.** The session reads what is committed, or writes rows that it sees or rows under an id
that is new for everyone. -/
theorem answer (h : l.Sound ses) (hs : ses n = some s) (c : StoreCall) :
    (s.answer l c).2.1.Sound (Function.update ses n (some (s.answer l c).2.2)) := by
  have hhosts : l.Hosts s := ⟨h.keyed, h.within, h.fits n s hs⟩
  have hl := s.answer_ledger l c
  have changes_eq := hhosts.answer_changes c
  have id_eq := hhosts.answer_id c
  have writes_ok := hhosts.writes_ok c
  have fits_acting := (hhosts.answer c).fits
  generalize (s.answer l c).2.1 = l' at hl writes_ok fits_acting ⊢
  generalize (s.answer l c).2.2 = s' at changes_eq id_eq fits_acting ⊢
  have histories_acting : ∀ id, (s'.changes.histories.get? id).isSome →
      l.newId.1 = id ∨ (s.changes.histories.get? id).isSome := by
    intro id hid
    rw [changes_eq] at hid
    rcases Changes.isSome_histories_putAll hid with ⟨x, hx, rfl⟩ | hid
    · rcases writes_ok _ hx with hseen | ⟨hnew, -⟩
      · exact hseen.elim
      · exact .inl (Option.some.inj hnew).symm
    · exact .inr hid
  -- a payment under the new id cannot be among those of another session
  have histories_other : ∀ m t, m ≠ n → ses m = some t → ∀ id,
      (s'.changes.histories.get? id).isSome → t.changes.histories.get? id = none := by
    intro m t hm ht id hid
    rcases histories_acting id hid with rfl | hid
    · refine Option.not_isSome_iff_eq_none.1 fun hused => ?_
      exact l.not_newId_le ((h.fits m t ht).changes_within _ (.inr (.inr (.inr (.inl hused)))))
    · exact h.apart n m s t hm.symm hs ht id hid
  refine ⟨?_, ?_, ?_, ?_, ?_, ?_⟩
  · rw [hl.tables]
    exact h.keyed
  · rw [hl.tables]
    exact fun id hid => Int.le_trans (h.within id hid) (Int.ofNat_le.2 hl.lastId)
  · rw [hl.versions, hl.commits]
    exact h.versions_le
  · intro m t ht
    rw [Function.update_apply] at ht
    split at ht
    · cases ht
      exact fits_acting
    · exact (h.fits m t ht).of_grants hl
  · refine h.distinct_update fun m t hm ht heq => hm ?_
    exact h.distinct m n t s ht hs (heq.trans id_eq)
  · exact h.apart_update histories_other

/-- **A program.** It is a row of calls, so it preserves what they preserve. -/
theorem program {α : Type} (h : l.Sound ses) (hs : ses n = some s) (p : Program α)
    (around : Surroundings) :
    (p.run Session.backend (l, s) around).2.1.1.Sound
      (Function.update ses n (some (p.run Session.backend (l, s) around).2.1.2)) := by
  refine Program.run_preserves (P := fun l s => l.Sound (Function.update ses n (some s))) ?_ p
    around ?_
  · intro l s c h
    have := h.answer (Function.update_self n (some s) ses) c
    rwa [Function.update_idem] at this
  · rwa [← hs, Function.update_eq_self]

end Ledger.Sound

/-! ## Worlds -/

/-- The invariant for a world. -/
def World.Sound (w : World) : Prop := w.ledger.Sound w.open?

namespace World

variable {w w' : World} {name : String}

theorem open?_eq_update {x : Option Session}
    (h : ∀ k, w'.open? k = if k = name then x else w.open? k) :
    w'.open? = Function.update w.open? name x :=
  funext fun k => by rw [h k, Function.update_apply]

/-- Beginning a session is ending the one of its name and adding it. -/
theorem open?_begin_eq_update (w : World) (name : String) :
    (w.begin name).open? = Function.update (w.rollback name).open? name
      (some (w.rollback name).ledger.begin.1) := by
  refine open?_eq_update fun k => ?_
  rw [open?_begin, open?_rollback]
  split <;> rfl

theorem Sound.start (around : Surroundings) : Sound { around } := Ledger.Sound.empty

theorem Sound.rollback (h : w.Sound) (name : String) : (w.rollback name).Sound := by
  unfold Sound
  rw [open?_eq_update (w.open?_rollback name), ledger_rollback]
  cases w.open? name with
  | none => exact h.close name
  | some s => exact Ledger.Sound.rollback h name s

theorem Sound.begin (h : w.Sound) (name : String) : (w.begin name).Sound := by
  unfold Sound
  rw [w.open?_begin_eq_update]
  exact Ledger.Sound.begin (h.rollback name) name

theorem Sound.commit (h : w.Sound) (name : String) : (w.commit name).2.Sound := by
  unfold Sound
  rw [open?_eq_update (w.open?_commit name)]
  cases hs : w.open? name with
  | none =>
    rw [ledger_commit_of_none hs]
    exact h.close name
  | some s =>
    rw [(commit_of_open? hs).2]
    exact Ledger.Sound.commit h hs

/-- A commit that succeeds makes the changes. -/
theorem tables_commit {s : Session} (hs : w.open? name = some s) (hok : (w.commit name).1 = .ok ()) :
    (w.commit name).2.ledger.tables = w.ledger.tables.apply s.changes := by
  obtain ⟨hresult, hledger⟩ := commit_of_open? hs
  by_cases hadmits : w.ledger.Admits s
  · rw [hledger, Ledger.commit_of_admits hadmits]
  · obtain ⟨e, hconflict⟩ := Ledger.commit_of_not_admits hadmits
    rw [hresult, hconflict] at hok
    cases hok

theorem Sound.addTeam (h : w.Sound) (name : String) (kind : Team.Kind) :
    (w.addTeam name kind).2.Sound :=
  Ledger.Sound.addTeam h name kind _

theorem Sound.run {α : Type} {p : Program α} {a : α} (h : w.Sound)
    (hrun : w.run name none p = some (a, w')) : w'.Sound := by
  obtain ⟨s, l, s', around', hs, hp, hledger, hopen⟩ := run_eq_some hrun
  have := Ledger.Sound.program h hs p w.around
  unfold Sound
  rw [open?_eq_update hopen, hledger]
  rwa [hp] at this

theorem Sound.hosts {s : Session} (h : w.Sound) (hs : w.open? name = some s) : w.ledger.Hosts s :=
  ⟨h.keyed, h.within, h.fits name s hs⟩

variable {σ α : Type} {p : Service σ α} {r : Except Failure α} {st st' : σ}

/-- **A service that has run** in a session came to an end there. The committed tables are as before,
and so are all other sessions. -/
theorem Sound.served (h : w.Sound) (hrun : w.run name none (p st) = some ((r, st'), w')) :
    ∃ s s', w.open? name = some s ∧ w'.open? name = some s' ∧ w'.Sound ∧
      p.Ends (st, w.ledger, s) r (st', w'.ledger, s') ∧ w'.ledger.tables = w.ledger.tables ∧
      ∀ other, other ≠ name → w'.open? other = w.open? other := by
  obtain ⟨s, l, s', around', hs, hp, hledger, hopen⟩ := run_eq_some hrun
  have hends : p.Ends (st, w.ledger, s) r (st', w'.ledger, s') := by
    rw [hledger]
    exact ⟨_, _, hp⟩
  obtain ⟨hgrants, -, -⟩ := hends.leads (h.hosts hs)
  refine ⟨s, s', hs, ?_, h.run hrun, hends, hgrants.tables, fun other hne => ?_⟩
  · rw [hopen, if_pos rfl]
  · rw [hopen, if_neg hne]

/-- **A service runs** in every open session. -/
theorem Sound.serve {s : Session} (h : w.Sound) (hs : w.open? name = some s) (p : Service σ α)
    (st : σ) : ∃ r st' w' s', w.run name none (p st) = some ((r, st'), w') ∧
      w'.open? name = some s' ∧ p.Ends (st, w.ledger, s) r (st', w'.ledger, s') ∧
      w'.ledger.tables = w.ledger.tables ∧
      ∀ other, other ≠ name → w'.open? other = w.open? other := by
  obtain ⟨⟨⟨r, st'⟩, w'⟩, hrun⟩ := Option.isSome_iff_exists.1
    ((w.run_isSome name (p st)).trans (by rw [hs]; rfl))
  obtain ⟨s₀, s', hs₀, hs', -, hends, htables, hothers⟩ := h.served hrun
  cases hs.symm.trans hs₀
  exact ⟨r, st', w', s', hrun, hs', hends, htables, hothers⟩

end World

end TeamLedger
