/-
Whom a lock keeps out.

A statement that locks is refused over the lock of another session. A statement
that writes asks for no lock, and a commit compares versions and looks at no
lock either. So a lock keeps out those who lock what they are going to write,
and nobody else.

Every event keeps true what the marks tell, and only a trespass makes the version
of a locked row differ from the one that the holder of the lock has noted
(`Session.Marked.current`).
-/
import TeamLedger.Proofs.LockMarks

set_option autoImplicit false

namespace TeamLedger

/-! ## Every event keeps what the log tells -/

namespace Session.Marked

variable {s : Session} {l : Ledger} {log : List Mark} {c : StoreCall}

theorem holds_grants {l' : Ledger} {k : RowKey} (hgrants : l.Grants s.id l')
    (hk : l.holds s.id k = true) : l'.holds s.id k = true := by
  obtain ⟨key, hkey, hlock⟩ := holds_iff.1 hk
  exact holds_iff.2 ⟨key, hkey, hgrants.locks_own hlock⟩

/-- A mark that a call leaves of a lock is of a row that was found and is locked then. -/
theorem locked_answer (h : s.Marked l log) (hl : l.Hosts s) {key : LockKey}
    (hkey : .locked s.id key ∈ log ++ s.marks l c) : (s.answer l c).2.1.locks key = some s.id ∧
      ((key.root.rows (l.tables.apply s.changes)).get? key.id).isSome := by
  rcases List.mem_append.1 hkey with hkey | hkey
  · obtain ⟨hlock, hrow⟩ := h.locked key hkey
    exact ⟨(s.answer_ledger l c).locks_own hlock, hrow⟩
  · rcases List.mem_append.1 hkey with hkey | hkey
    · obtain ⟨key', heq, hlock, hrow⟩ := Session.mem_lockMarks hl hkey
      cases heq
      exact ⟨hlock, hrow⟩
    · obtain ⟨k, heq⟩ := Session.mem_bareMarks hkey
      cases heq

/-- **A session reads.** It notes the versions of all rows that it has not written; and those that it
has written are marked, or had the version that it noted when it locked them. -/
theorem read (h : s.Marked l log) (hl : l.Hosts s)
    (hstored : ∀ k, l.tables.has k = true → l.versions k ≠ 0)
    (htaken : ∀ key, l.locks key = some s.id → .locked s.id key ∈ log) (hc : c.reads = true) :
    (s.answer l c).2.2.Marked (s.answer l c).2.1 (log ++ s.marks l c) := by
  have hgrants := s.answer_ledger l c
  have session_eq : (s.answer l c).2.2 = s.refresh l := by
    rw [hl.answer_session c, s.writes_of_reads l hc, if_pos hc]
    rfl
  have locked_answer (key : LockKey) (hkey : .locked s.id key ∈ log ++ s.marks l c) :=
    h.locked_answer hl hkey
  rw [session_eq]
  generalize (s.answer l c).2.1 = l' at hgrants locked_answer ⊢
  refine
    { found := fun k hk => hgrants.versions ▸ hstored k hk
      written := fun k hk => (h.written k hk).append hgrants.versions (holds_grants hgrants) _
      locked := fun key hkey => ?locked
      current := fun k key hkey hlocked => ?current }
  case locked =>
    rw [hgrants.tables]
    exact locked_answer key hkey
  case current =>
    have version_eq := congrFun hgrants.versions k
    by_cases hk : k ∈ s.changes.written
    · -- the base stays, so what held of a lock that the session had still does
      have base_eq : (s.refresh l).base k = s.base k := if_pos hk
      have current : s.Current l log k := by
        rcases h.written k hk with hbare | hheld | hnew
        · exact .inl hbare
        · obtain ⟨key', hkey', hlock⟩ := holds_iff.1 hheld
          exact h.current k key' hkey' (htaken key' hlock)
        · have := hl.fits.base_le k
          exact .inr (.inl (by omega))
      have noted := current.append version_eq (s.marks l c)
      unfold Session.Current at noted ⊢
      rw [base_eq]
      exact noted
    · have base_eq : (s.refresh l).base k = l.versions k := if_neg hk
      exact .inr (.inl (version_eq.trans base_eq.symm))

/-- **A session writes** rows that it had written, that are new, or that it had found. -/
theorem write (h : s.Marked l log) (hl : l.Hosts s)
    (hold : ∀ k, l.versions k ≠ 0 → k.id ≤ l.lastId) (hc : c.reads = false) :
    (s.answer l c).2.2.Marked (s.answer l c).2.1 (log ++ s.marks l c) := by
  have hgrants := s.answer_ledger l c
  have session_eq : (s.answer l c).2.2 = s.writeAll (s.writes l c) := by
    rw [hl.answer_session c, hc]
    rfl
  have locked_answer (key : LockKey) (hkey : .locked s.id key ∈ log ++ s.marks l c) :=
    h.locked_answer hl hkey
  rw [session_eq]
  generalize (s.answer l c).2.1 = l' at hgrants locked_answer ⊢
  have covered (k : RowKey) (hk : k ∈ s.changes.written) : s.Covers l' (log ++ s.marks l c) k :=
    (h.written k hk).append hgrants.versions (holds_grants hgrants) _
  refine
    { found := fun k hk => hgrants.versions ▸ h.found k hk
      written := fun k hk => ?written
      locked := fun key hkey => ?locked
      current := fun k key hkey hlocked => ?current }
  case written =>
    show s.Covers l' (log ++ s.marks l c) k
    rcases Changes.mem_written_putAll.1 hk with ⟨p, hp, hpk⟩ | hk
    · rcases Session.write_cases hl hp hpk with hk | hnew | ⟨-, hheld | hbare⟩
      · exact covered k hk
      · -- nothing was ever committed under the id that is handed out next
        refine .inr (.inr (Classical.byContradiction fun hne => ?_))
        rw [hgrants.versions] at hne
        have old := hold k hne
        rw [hnew] at old
        exact l.not_newId_le old
      · exact .inr (.inl (holds_grants hgrants hheld))
      · exact .inl (List.mem_append_right _ (List.mem_append_right _ hbare))
    · exact covered k hk
  case locked =>
    obtain ⟨hlock, hrow⟩ := locked_answer key hkey
    refine ⟨hlock, ?_⟩
    rw [hgrants.tables]
    show ((key.root.rows (l.tables.apply (s.changes.putAll (s.writes l c)))).get? key.id).isSome
    rw [hl.fits.apply_writes c l.tables]
    exact Tables.isSome_rows_putAll hrow _
  case current =>
    -- a call that writes locks nothing
    have old_lock : .locked s.id key ∈ log := by
      rcases List.mem_append.1 hlocked with hlocked | hlocked
      · exact hlocked
      · rcases List.mem_append.1 hlocked with hlocked | hlocked
        · rw [s.lockMarks_of_not_reads l hc] at hlocked
          cases hlocked
        · obtain ⟨k, heq⟩ := Session.mem_bareMarks hlocked
          cases heq
    exact (h.current k key hkey old_lock).append (congrFun hgrants.versions k) _

/-- **Another session commits.** A row of it that this session has locked it has written without the
lock, and this is a trespass then. -/
theorem committed {ses : String → Option Session} {n m : String} {t : Session}
    (hm : l.Marked ses log) (hne : n ≠ m) (hs : ses n = some s) (ht : ses m = some t)
    (hadmits : l.Admits t) : s.Marked (l.commit t).2 (log ++ [.committed t.id]) := by
  have h := hm.sessions n s hs
  have id_ne := hm.sound.id_ne hne hs ht
  have old_lock {key : LockKey} (hx : .locked s.id key ∈ log ++ [.committed t.id]) :
      .locked s.id key ∈ log := by
    rcases List.mem_append.1 hx with hx | hx
    · exact hx
    · cases List.mem_singleton.1 hx
  rw [Ledger.commit_of_admits hadmits]
  refine
    { found := fun k hk => ?found
      written := fun k hk => ?written
      locked := fun key hkey => ?locked
      current := fun k key hkey hlocked => ?current }
  case found =>
    show (if k ∈ t.changes.written then l.commits + 1 else l.versions k) ≠ 0
    split
    · exact Nat.succ_ne_zero _
    · exact h.found k hk
  case written =>
    rcases h.written k hk with hbare | hheld | hnew
    · exact .inl (List.mem_append_left _ hbare)
    · obtain ⟨key, hkey, hlock⟩ := holds_iff.1 hheld
      exact .inr (.inl (holds_iff.2 ⟨key, hkey, Ledger.release_other id_ne hlock⟩))
    · have apart : k ∉ t.changes.written := fun hkt => hm.shared n m s t hne hs ht k hk hkt hnew
      exact .inr (.inr ((if_neg apart).trans hnew))
  case locked =>
    obtain ⟨hlock, hrow⟩ := h.locked key (old_lock hkey)
    exact ⟨Ledger.release_other id_ne hlock, Tables.isSome_rows_between hrow _⟩
  case current =>
    by_cases hkt : k ∈ t.changes.written
    · have hbare := hm.bare_of_written hne hs ht hkey (old_lock hlocked) hkt
      exact .inr (.inr ⟨t.id, log, [], key, rfl, id_ne.symm, hkey, old_lock hlocked, hbare⟩)
    · exact (h.current k key hkey (old_lock hlocked)).append (if_neg hkt) _

end Session.Marked

namespace Ledger.Marked

variable {l : Ledger} {ses : String → Option Session} {log : List Mark} {n : String} {s : Session}

theorem empty : ({} : Ledger).Marked (fun _ => none) [] where
  sound := .empty
  known _ h := nomatch h
  stored := by
    rintro ⟨kind, id⟩ h
    cases kind <;> cases h
  old _ h := absurd rfl h
  shared _ _ _ _ _ h := nomatch h
  taken _ _ h := nomatch h
  sessions _ _ h := nomatch h

theorem hosts (h : l.Marked ses log) (hs : ses n = some s) : l.Hosts s :=
  ⟨h.sound.keyed, h.sound.within, h.sound.fits n s hs⟩

/-- A session goes, and gives back its locks. -/
theorem release (h : l.Marked ses log) (hs : ses n = some s) :
    (l.release s.id).Marked (Function.update ses n none) log := by
  refine { h with
    sound := h.sound.rollback n s
    shared := fun m m' t t' hne ht ht' =>
      h.shared m m' t t' hne (there_of_update_none ht).2 (there_of_update_none ht').2
    taken := fun key id hlock => ?taken
    sessions := fun m t ht => ?sessions }
  case taken =>
    replace hlock : (if l.locks key = some s.id then none else l.locks key) = some id := hlock
    split at hlock
    · cases hlock
    · exact h.taken key id hlock
  case sessions =>
    obtain ⟨hm, ht⟩ := there_of_update_none ht
    exact (h.sessions m t ht).same_rows rfl rfl fun key hlock =>
      Ledger.release_other (h.sound.id_ne hm ht hs) hlock

/-- A session begins; the log knows nothing of it yet. -/
theorem begin (h : l.Marked ses log) (n : String) :
    l.begin.2.Marked (Function.update ses n (some l.begin.1)) log := by
  have unknown : ∀ x ∈ log, x.session ≠ l.lastSession + 1 := fun x hx heq => by
    have := h.known x hx
    rw [heq] at this
    exact Nat.not_succ_le_self _ this
  refine { h with
    sound := h.sound.begin n
    known := fun x hx => Nat.le_succ_of_le (h.known x hx)
    shared := ?shared
    sessions := fun m t ht => ?sessions }
  case shared =>
    refine between_update (R := fun s t => ∀ k ∈ s.changes.written, k ∈ t.changes.written →
      l.versions k ≠ 0) (fun s t hst k hk hk' => hst k hk' hk) h.shared fun m t _ _ k hk => ?_
    cases hk
  case sessions =>
    rw [Function.update_apply] at ht
    split at ht
    · cases ht
      exact ⟨h.stored, fun k hk => (nomatch hk), fun key hkey => absurd rfl (unknown _ hkey),
        fun k key _ hkey => absurd rfl (unknown _ hkey)⟩
    · exact (h.sessions m t ht).same_rows rfl rfl fun _ hlock => hlock

theorem addTeam (h : l.Marked ses log) (name : String) (kind : Team.Kind) (now : Instant) :
    (l.addTeam name kind now).2.Marked ses log := by
  exact { h with
    sound := h.sound.addTeam name kind now
    old := fun k hk => Int.le_trans (h.old k hk) (Int.ofNat_le.2 (Nat.le_succ _))
    sessions := fun m t ht => (h.sessions m t ht).same_rows rfl rfl fun _ hlock => hlock }

/-- **A call.** -/
theorem answer (h : l.Marked ses log) (hs : ses n = some s) (c : StoreCall) :
    (s.answer l c).2.1.Marked (Function.update ses n (some (s.answer l c).2.2))
      (log ++ s.marks l c) := by
  have hl := h.hosts hs
  have hgrants := s.answer_ledger l c
  have hmarks : ∀ x ∈ s.marks l c, x.session = s.id :=
    fun x hx => Session.session_of_mem_marks hl hx
  refine
    { sound := h.sound.answer hs c
      known := fun x hx => ?known
      stored := ?stored
      old := ?old
      shared := ?shared
      taken := fun key id hlock => ?taken
      sessions := fun m t ht => ?sessions }
  case known =>
    rw [hgrants.lastSession]
    rcases List.mem_append.1 hx with hx | hx
    · exact h.known x hx
    · rw [hmarks x hx]
      exact hl.fits.known
  case stored =>
    rw [hgrants.tables, hgrants.versions]
    exact h.stored
  case old =>
    rw [hgrants.versions]
    exact fun k hk => Int.le_trans (h.old k hk) (Int.ofNat_le.2 hgrants.lastId)
  case shared =>
    rw [hgrants.versions]
    refine between_update (R := fun s t => ∀ k ∈ s.changes.written, k ∈ t.changes.written →
      l.versions k ≠ 0) (fun s t hst k hk hk' => hst k hk' hk) h.shared fun m t hm ht k hk hkt => ?_
    rw [hl.answer_changes c] at hk
    rcases Changes.mem_written_putAll.1 hk with ⟨p, hp, hpk⟩ | hk
    · rcases Session.write_cases hl hp hpk with hk | hnew | ⟨hfound, -⟩
      · exact h.shared n m s t hm.symm hs ht k hk hkt
      · -- nobody else has written anything under the id that is handed out next
        have old := (h.sound.fits m t ht).changes_within _ (Changes.uses_of_mem_written hkt)
        rw [hnew] at old
        exact absurd old l.not_newId_le
      · exact (h.sessions n s hs).found k hfound
    · exact h.shared n m s t hm.symm hs ht k hk hkt
  case taken =>
    rcases Session.locks_answer hlock with hlock | hmark
    · exact List.mem_append_left _ (h.taken key id hlock)
    · exact List.mem_append_right _ (List.mem_append_left _ hmark)
  case sessions =>
    rw [Function.update_apply] at ht
    split at ht
    · cases ht
      cases hc : c.reads with
      | true => exact (h.sessions n s hs).read hl h.stored (fun key => h.taken key s.id) hc
      | false => exact (h.sessions n s hs).write hl h.old hc
    next hm =>
      have id_ne := h.sound.id_ne hm ht hs
      refine (h.sessions m t ht).others hgrants.tables hgrants.versions
        (fun key => (hgrants.locks_other id_ne key).2) fun x hx heq => id_ne ?_
      rw [← heq, hmarks x hx]

/-- **A commit that goes through.** -/
theorem commit (h : l.Marked ses log) (hs : ses n = some s) (hadmits : l.Admits s) :
    (l.commit s).2.Marked (Function.update ses n none) (log ++ [.committed s.id]) := by
  have released := h.release hs
  have sound := h.sound.commit hs
  have sessions : ∀ m t, Function.update ses n none m = some t →
      t.Marked (l.commit s).2 (log ++ [.committed s.id]) := by
    intro m t ht
    obtain ⟨hm, ht⟩ := there_of_update_none ht
    exact .committed h hm ht hs hadmits
  rw [Ledger.commit_of_admits hadmits] at sound sessions ⊢
  refine
    { sound
      sessions
      known := fun x hx => ?known
      stored := fun k hk => ?stored
      old := fun k hk => ?old
      shared := fun m m' t t' hne ht ht' k hk hk' => ?shared
      taken := fun key id hlock => List.mem_append_left _ (released.taken key id hlock) }
  case known =>
    rcases List.mem_append.1 hx with hx | hx
    · exact h.known x hx
    · cases List.mem_singleton.1 hx
      exact (h.sound.fits n s hs).known
  case stored =>
    show (if k ∈ s.changes.written then l.commits + 1 else l.versions k) ≠ 0
    split
    · exact Nat.succ_ne_zero _
    next hkw => exact h.stored k ((Tables.has_apply hk).resolve_right hkw)
  case old =>
    replace hk : (if k ∈ s.changes.written then l.commits + 1 else l.versions k) ≠ 0 := hk
    split at hk
    next hkw =>
      exact (h.sound.fits n s hs).changes_within _ (Changes.uses_of_mem_written hkw)
    next => exact h.old k hk
  case shared =>
    have old := released.shared m m' t t' hne ht ht' k hk hk'
    show (if k ∈ s.changes.written then l.commits + 1 else l.versions k) ≠ 0
    split
    · exact Nat.succ_ne_zero _
    · exact old

/-- **A program.** It leaves the marks of its calls, one after the other. -/
theorem program {α : Type} (p : Program α) (around : Surroundings) (h : l.Marked ses log)
    (hs : ses n = some s) :
    (p.run Session.backend (l, s) around).2.1.1.Marked
      (Function.update ses n (some (p.run Session.backend (l, s) around).2.1.2))
      (log ++ p.marks (l, s) around) := by
  induction p generalizing l s ses log around with
  | done a =>
    show l.Marked (Function.update ses n (some s)) (log ++ [])
    rwa [List.append_nil, ← hs, Function.update_eq_self]
  | ask request next ih =>
    cases request with
    | store c =>
      have := ih (s.answer l c).1 (Session.backend.respond (l, s) around (.store c)).2.2
        (h.answer hs c) (Function.update_self ..)
      rw [Function.update_idem, List.append_assoc] at this
      exact this
    -- the clock, the counters and the cache leave no marks
    | now | count _ _ | cacheGet _ | cachePut _ _ _ => exact ih _ _ h hs

end Ledger.Marked

/-! ## Every run -/

namespace Floor

variable {kind : Floor → Event → Prop} {f : Floor} {log : List Mark}

theorem marked_rollback {w : World} (h : w.ledger.Marked w.open? log) (name : String) :
    (w.rollback name).ledger.Marked (w.rollback name).open? log := by
  rw [World.open?_eq_update (w.open?_rollback name), World.ledger_rollback]
  cases hs : w.open? name with
  | none =>
    rw [Function.update_eq_self_iff.2 hs.symm]
    exact h
  | some s => exact h.release hs

theorem marked_begin {w : World} (h : w.ledger.Marked w.open? log) (name : String) :
    (w.begin name).ledger.Marked (w.begin name).open? log := by
  rw [w.open?_begin_eq_update]
  exact (marked_rollback h name).begin name

theorem marked_act (h : f.world.ledger.Marked f.world.open? log) (name : String) (d : Deed) :
    (f.happen (.act name d)).world.ledger.Marked (f.happen (.act name d)).world.open?
      (log ++ f.marks (.act name d)) := by
  cases hs : f.world.open? name with
  | none =>
    simp only [happen, World.run_of_not_open hs, marks, hs, Option.elim, List.append_nil]
    exact h
  | some s =>
    obtain ⟨w, hrun, hledger, hopen⟩ := World.run_of_open hs (d.program (f.desk name))
    simp only [happen, hrun, marks, hs, Option.elim]
    rw [hledger, World.open?_eq_update hopen]
    exact h.program (d.program (f.desk name)) f.world.around hs

theorem marked_commit (h : f.world.ledger.Marked f.world.open? log) (name : String) :
    (f.world.commit name).2.ledger.Marked (f.world.commit name).2.open?
      (log ++ f.marks (.commit name)) := by
  rw [World.open?_eq_update (f.world.open?_commit name)]
  cases hs : f.world.open? name with
  | none =>
    simp only [marks, hs, Option.elim, List.append_nil]
    rw [World.ledger_commit_of_none hs, Function.update_eq_self_iff.2 hs.symm]
    exact h
  | some s =>
    obtain ⟨result_eq, ledger_eq⟩ := World.commit_of_open? hs
    simp only [marks, hs, Option.elim]
    rw [result_eq, ledger_eq]
    by_cases hadmits : f.world.ledger.Admits s
    · have marked := h.commit hs hadmits
      rw [Ledger.commit_of_admits hadmits] at marked ⊢
      exact marked
    · obtain ⟨e, he⟩ := Ledger.commit_of_not_admits hadmits
      rw [he, List.append_nil]
      exact h.release hs

/-- **The marks are true of every floor that can be reached.** -/
theorem Marked.ledger (h : f.Marked kind log) : f.world.ledger.Marked f.world.open? log := by
  induction h with
  | start around => exact .empty
  | step h e he ih =>
    cases e with
    | begin name =>
      rw [show marks _ (.begin name) = [] from rfl, List.append_nil]
      exact marked_begin ih name
    | act name d => exact marked_act ih name d
    | commit name => exact marked_commit ih name
    | rollback name =>
      rw [show marks _ (.rollback name) = [] from rfl, List.append_nil]
      exact marked_rollback ih name
    | addTeam name kind =>
      rw [show marks _ (.addTeam name kind) = [] from rfl, List.append_nil]
      exact ih.addTeam name kind _

/-! ## What locks are worth -/

/-- **A lock keeps out those who lock before they write.** On every floor that can be reached, as long as
a session is open that a find has returned a locked row to, a commit of another session leaves the row
as it is, unless that session has written it without holding its lock. A session that held the lock of
every row that it had found when it wrote it is refused its commit only over a trespass: another session
has written a row of it without the lock and has committed after the lock was taken. -/
theorem lock_keeps_out_lockers (h : f.Marked kind log) {name : String} {s : Session}
    (hs : f.world.open? name = some s) :
    (∀ other t, other ≠ name → f.world.open? other = some t → (f.world.commit other).1 = .ok () →
      ∀ key, .locked s.id key ∈ log →
        (key.root.rows (f.happen (.commit other)).tables).get? key.id =
            (key.root.rows f.tables).get? key.id ∨
          ∃ k : RowKey, k.lock? = some key ∧ .bare t.id k ∈ log) ∧
    ((∀ k, .bare s.id k ∉ log) → ∀ e, (f.world.commit name).1 = .error e →
      ∃ k : RowKey, e = .consistency (.concurrentChange k.kind k.id) ∧ Trespassed log s.id k) := by
  have marked := h.ledger
  refine ⟨fun other t hne ht hok key hkey => ?_, fun hbare e he => ?_⟩
  · obtain ⟨result_eq, ledger_eq⟩ := World.commit_of_open? ht
    have hadmits : f.world.ledger.Admits t := by
      by_contra hnot
      obtain ⟨e, he⟩ := Ledger.commit_of_not_admits hnot
      rw [result_eq, he] at hok
      cases hok
    have tables_eq : (f.happen (.commit other)).tables =
        f.world.ledger.tables.apply t.changes := by
      show (f.world.commit other).2.ledger.tables = _
      rw [ledger_eq, Ledger.commit_of_admits hadmits]
    rw [tables_eq]
    exact marked.row_of_commit hne.symm hs ht hkey
  · rw [(World.commit_of_open? hs).1] at he
    unfold Ledger.commit at he
    cases hconflict : f.world.ledger.conflict? s with
    | none =>
      rw [hconflict] at he
      cases he
    | some k =>
      rw [hconflict] at he
      cases he
      have hmem := List.mem_of_find?_eq_some hconflict
      have hmoved : f.world.ledger.versions k ≠ s.base k := by
        simpa using List.find?_some hconflict
      exact ⟨k, rfl, marked.trespassed_of_conflict hs hmem hmoved (hbare k)⟩

/-- A session has locked the only invoice. Another one changes it without a lock and commits, which is a
trespass: the first session changes it too, and its commit is refused. -/
theorem lock_keeps_out_lockers_trespassed : ∃ f log s e k,
    Marked (fun _ _ => True) f log ∧ f.world.open? "holder" = some s ∧
      (f.world.commit "holder").1 = .error e ∧ (∀ k, .bare s.id k ∉ log) ∧
      e = .consistency (.concurrentChange k.kind k.id) ∧ Trespassed log s.id k := by
  have key (f log s e) (h : Marked (fun _ _ => True) f log) (hs : f.world.open? "holder" = some s)
      (he : (f.world.commit "holder").1 = .error e)
      (hbare : log.all (fun | .bare id _ => id != s.id | _ => true) = true) :
      ∃ k, (∀ k, .bare s.id k ∉ log) ∧ e = .consistency (.concurrentChange k.kind k.id) ∧
        Trespassed log s.id k := by
    have none_bare : ∀ k, .bare s.id k ∉ log := fun k hk => by
      simpa using List.all_eq_true.1 hbare _ hk
    obtain ⟨k, hk⟩ := (lock_keeps_out_lockers h hs).2 none_bare e he
    exact ⟨k, none_bare, hk⟩
  have stored : Marked (fun _ _ => True) _ _ :=
    (((Marked.start { clock := ⟨⟨0, 0, by decide⟩⟩ }).step (.begin "seed") trivial).step
      (.act "seed" (.call (.insertInvoice default))) trivial).step (.commit "seed") trivial
  have held := (stored.step (.begin "holder") trivial).step
    (.act "holder" (.call (.find .invoice (.start .invoice true)))) trivial
  have changed := ((held.step (.begin "other") trivial).step
    (.act "other" (.call (.updateInvoiceStatus 1 .cancelled))) trivial).step (.commit "other") trivial
  have h := changed.step (.act "holder" (.call (.updateInvoiceStatus 1 .notPaid))) trivial
  obtain ⟨k, htrespass⟩ := key _ _ _ (.consistency (.concurrentChange .invoice 1)) h rfl (by decide)
    (by decide)
  exact ⟨_, _, _, _, k, h, rfl, by decide, htrespass⟩

/-- **A lock keeps out nobody else.** A manager has loaded an invoice under lock. A workflow rejects the
submission that the invoice is part of, which changes the invoice, and its commit goes through. The
manager, who has written no row without its lock, readjusts and is refused its commit. -/
theorem lock_keeps_out_lockers_only :
    (¬ ∀ (f : Floor) (log : List Mark) (name other : String) (s t : Session) (key : LockKey),
      Marked Ordinary f log → f.world.open? name = some s → f.world.open? other = some t →
        other ≠ name → (f.world.commit other).1 = .ok () → .locked s.id key ∈ log →
          (key.root.rows (f.happen (.commit other)).tables).get? key.id =
            (key.root.rows f.tables).get? key.id) ∧
    ¬ ∀ (f : Floor) (log : List Mark) (name : String) (s : Session), Marked Ordinary f log →
      f.world.open? name = some s → (∀ k, .bare s.id k ∉ log) → (f.world.commit name).1 = .ok () := by
  have stored : Marked Ordinary _ _ :=
    (((Marked.start { clock := ⟨⟨0, 0, by decide⟩⟩ }).step (.begin "clerk") trivial).step
      (.act "clerk" (.call (.insertInvoice { (default : NewInvoice) with
        status := .notPaid, orderId := some 7 }))) (.inr ⟨_, rfl⟩)).step (.commit "clerk") trivial
  have submitted := (((stored.step (.begin "clerk") trivial).step
    (.act "clerk" (.openWorkflow .system none)) trivial).step
    (.act "clerk" (.create (.start .invoice false) "" .zero)) trivial).step (.commit "clerk") trivial
  have gathered := ((submitted.step (.begin "manager") trivial).step
    (.act "manager" (.openManager [])) trivial).step
    (.act "manager" (.gather (.start .invoice true))) trivial
  have rejected := (((gathered.step (.begin "reviewer") trivial).step
    (.act "reviewer" (.openWorkflow .system none)) trivial).step
    (.act "reviewer" (.load (.start .submission true))) trivial).step (.act "reviewer" .reject) trivial
  refine ⟨fun hall => ?_, fun hall => ?_⟩
  · have same := hall _ _ "manager" "reviewer" _ _ ⟨.invoice, 1⟩ rejected rfl rfl (by decide)
      (by decide) (by decide)
    exact absurd same (by decide)
  · have readjusted := (rejected.step (.commit "reviewer") trivial).step
      (.act "manager" (.readjust ⟨0, 0, .zero, none, some 7⟩)) trivial
    have key (f log s) (h : Marked Ordinary f log) (hs : f.world.open? "manager" = some s)
        (hbare : log.all (fun | .bare id _ => id != s.id | _ => true) = true) :
        (f.world.commit "manager").1 = .ok () :=
      hall f log "manager" s h hs fun k hk => by simpa using List.all_eq_true.1 hbare _ hk
    exact absurd (key _ _ _ readjusted rfl (by decide)) (by decide)

end Floor

end TeamLedger
