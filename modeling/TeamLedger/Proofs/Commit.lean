/-
When a commit goes through, read off the history of all sessions.

The proof is one equivalence that every single note of the log preserves. At any
time, and for every row, the session's noted version differs from the current one
exactly when the row is overtaken, or, as long as the session has not written it,
when a commit has written it since the session's last read (`Log.Stale`). A write
turns the second case into the first without changing either side, a read clears
the second case and notes the version, and a commit makes both sides true for the
rows it writes.
-/
import Mathlib.Data.List.Induction
import TeamLedger.Proofs.Isolation
import TeamLedger.Proofs.Logs

set_option autoImplicit false

namespace TeamLedger

/-! ## The invariant -/

/-- The log tells the truth about an open session: the session has the changes that were noted, and
for each row its noted version is out of date exactly when the log says so. -/
structure Session.Traced (s : Session) (versions : RowKey → Nat) (log : List Note) : Prop where
  opened : Log.Opened log s.id
  changes_eq : s.changes = ({} : Changes).putAll (Log.puts log s.id)
  apply_eq : ∀ t : Tables, t.apply s.changes = t.putAll (Log.puts log s.id)
  stale_iff : ∀ k, versions k ≠ s.base k ↔ Log.Stale log s.id k

namespace Session.Traced

variable {s : Session} {versions : RowKey → Nat} {log : List Note}

theorem mem_written (h : s.Traced versions log) {k : RowKey} :
    k ∈ s.changes.written ↔ ∃ n, Log.WroteAt log s.id k n := by
  rw [h.changes_eq, Changes.mem_written_putAll, Log.exists_wroteAt]
  simp [Changes.written, Rows.ids, Rows.empty]

/-- Notes about other sessions, none of them a commit. -/
theorem others (h : s.Traced versions log) {xs : List Note} (hne : ∀ x ∈ xs, x.session ≠ s.id)
    (hcommit : ∀ other, .committed other ∉ xs) : s.Traced versions (log ++ xs) := by
  have puts_eq : Log.puts (log ++ xs) s.id = Log.puts log s.id := by
    rw [Log.puts_append, Log.puts_of_ne hne, List.append_nil]
  have log_part : Log.Opened (log ++ xs) s.id ∧
      ∀ k, Log.Stale (log ++ xs) s.id k ↔ Log.Stale log s.id k := by
    clear puts_eq
    induction xs using List.reverseRecOn with
    | nil => simpa using h.opened
    | append_singleton xs x ih =>
      obtain ⟨opened, stale⟩ := ih (fun y hy => hne y (List.mem_append_left _ hy))
        (fun other hy => hcommit other (List.mem_append_left _ hy))
      have hx : x ∈ xs ++ [x] := List.mem_append_right _ List.mem_cons_self
      have hread : x ≠ .read s.id := by
        rintro rfl
        exact hne _ hx rfl
      have hnot : ∀ other, x ≠ .committed other := by
        rintro other rfl
        exact hcommit other hx
      rw [← List.append_assoc]
      exact ⟨opened.snoc hread, fun k => (Log.stale_snoc hread hnot).trans (stale k)⟩
  refine ⟨log_part.1, ?_, ?_, fun k => (h.stale_iff k).trans (log_part.2 k).symm⟩
  · rw [puts_eq]
    exact h.changes_eq
  · rw [puts_eq]
    exact h.apply_eq

/-- The session reads. Rows that it has written keep the version noted for them. -/
theorem refresh (h : s.Traced versions log) {l : Ledger} (hv : l.versions = versions) :
    (s.refresh l).Traced l.versions (log ++ [.read s.id]) := by
  have puts_eq : Log.puts (log ++ [.read s.id]) s.id = Log.puts log s.id := by
    rw [Log.puts_append]
    exact List.append_nil _
  refine ⟨.snoc_read h.opened.before, ?_, ?_, fun k => ?_⟩
  · exact h.changes_eq.trans (by rw [← puts_eq]; rfl)
  · exact fun t => (h.apply_eq t).trans (by rw [← puts_eq]; rfl)
  · show l.versions k ≠ (if k ∈ s.changes.written then s.base k else l.versions k) ↔ _
    rw [show (s.refresh l).id = s.id from rfl, Log.stale_snoc_read]
    by_cases hk : k ∈ s.changes.written
    · rw [if_pos hk, hv, h.stale_iff k, Log.stale_iff_overtaken (h.mem_written.1 hk)]
    · rw [if_neg hk]
      exact ⟨fun hne => absurd rfl hne, fun ho => absurd (h.mem_written.2 ho.wrote) hk⟩

/-- The session writes. The rows are noted one by one. -/
theorem writeAll (h : s.Traced versions log) {ps : List Put}
    (hps : ∀ t : Tables, t.apply (s.changes.putAll ps) = (t.apply s.changes).putAll ps) :
    (s.writeAll ps).Traced versions (log ++ ps.map (.wrote s.id)) := by
  have puts_eq : Log.puts (log ++ ps.map (.wrote s.id)) s.id = Log.puts log s.id ++ ps := by
    rw [Log.puts_append, Log.puts_map_wrote]
  have log_part : Log.Opened (log ++ ps.map (.wrote s.id)) s.id ∧
      ∀ k, Log.Stale (log ++ ps.map (.wrote s.id)) s.id k ↔ Log.Stale log s.id k := by
    clear puts_eq hps
    induction ps using List.reverseRecOn with
    | nil => simpa using h.opened
    | append_singleton ps p ih =>
      obtain ⟨opened, stale⟩ := ih
      rw [List.map_append, List.map_singleton, ← List.append_assoc]
      refine ⟨opened.snoc (by simp), fun k => ?_⟩
      exact (Log.stale_snoc (by simp) (by simp)).trans (stale k)
  refine ⟨log_part.1, ?_, ?_, fun k => (h.stale_iff k).trans (log_part.2 k).symm⟩
  · rw [writeAll_id, puts_eq, Changes.putAll_append, ← h.changes_eq]
    rfl
  · intro t
    rw [writeAll_id, puts_eq, Tables.putAll_append, ← h.apply_eq]
    exact hps t

/-- Another session commits: its rows get a version beyond every version noted. -/
theorem committed (h : s.Traced versions log) {other : SessionId} (hne : other ≠ s.id)
    {written : List RowKey} (hw : ∀ k, k ∈ written ↔ ∃ n, Log.WroteAt log other k n) {n : Nat}
    (hn : ∀ k, s.base k < n) :
    s.Traced (fun k => if k ∈ written then n else versions k) (log ++ [.committed other]) := by
  have puts_eq : Log.puts (log ++ [.committed other]) s.id = Log.puts log s.id := by
    rw [Log.puts_append]
    exact List.append_nil _
  refine ⟨h.opened.snoc (by simp), ?_, ?_, fun k => ?_⟩
  · rw [puts_eq]
    exact h.changes_eq
  · rw [puts_eq]
    exact h.apply_eq
  · rw [Log.stale_snoc_committed h.opened hne, ← h.stale_iff k, ← hw k]
    by_cases hk : k ∈ written
    · have := hn k
      rw [if_pos hk]
      exact ⟨fun _ => .inr hk, fun _ => by omega⟩
    · rw [if_neg hk]
      exact ⟨.inl, fun hor => hor.resolve_right hk⟩

end Session.Traced

/-! ## Every event keeps the log true -/

/-- The writes of a call commute with laying the session's changes over any tables: a limit that is
stored is new, or is seen by the session and hence not deleted by it. -/
theorem Ledger.Fits.apply_writes {l : Ledger} {s : Session} (h : l.Fits s) (c : StoreCall)
    (t : Tables) : t.apply (s.changes.putAll (s.writes l c)) =
      (t.apply s.changes).putAll (s.writes l c) := by
  have one_limit {x : Limit} (hx : x.id ∉ s.changes.deletedLimits.ids) :
      t.apply (s.changes.putAll [.limit x]) = (t.apply s.changes).putAll [.limit x] :=
    Tables.apply_put t (p := .limit x) fun y hy => by
      cases hy
      exact hx
  cases c with
  | saveLimit limit =>
    simp only [Session.writes]
    split
    · refine one_limit fun hdeleted => ?_
      exact l.not_newId_le (h.changes_within _ (.inr (.inr (.inr (.inr (.inr hdeleted))))))
    · cases hstored : s.view.limits.get? limit.id with
      | none => rfl
      | some stored =>
        refine one_limit fun hdeleted => ?_
        rw [h.view_keyed.limits _ _ hstored] at hdeleted
        unfold Session.view at hstored
        simp only [Tables.apply, Rows.get?_eraseAll, if_pos hdeleted] at hstored
        cases hstored
  | _ =>
    refine Tables.apply_putAll t s.changes fun x hx => ?_
    simp [Session.writes, Session.revisions] at hx

namespace World

/-- What the log is worth for a world. -/
structure Traced (w : World) (log : List Note) : Prop where
  sound : w.Sound
  known : ∀ x ∈ log, x.session ≤ w.ledger.lastSession
  sessions : ∀ name s, w.open? name = some s → s.Traced w.ledger.versions log

variable {w : World} {log : List Note}

/-- A session that ends leaves the others as they are, and so what the log says of them. -/
theorem Traced.close {w' : World} {name : String} (h : w.Traced log) (hsound : w'.Sound)
    (hopen : ∀ k, w'.open? k = if k = name then none else w.open? k)
    (hlast : w'.ledger.lastSession = w.ledger.lastSession)
    (hversions : w'.ledger.versions = w.ledger.versions) : w'.Traced log := by
  refine ⟨hsound, ?_, fun m t ht => ?_⟩
  · rw [hlast]
    exact h.known
  · rw [hopen] at ht
    split at ht
    · cases ht
    · rw [hversions]
      exact h.sessions m t ht

theorem Traced.rollback (h : w.Traced log) (name : String) : (w.rollback name).Traced log := by
  refine h.close (h.sound.rollback name) (w.open?_rollback name) ?_ ?_
  · rw [ledger_rollback_eq]
  · rw [ledger_rollback_eq]

/-- A session that begins has read everything and written nothing. -/
theorem Traced.begin (h : w.Traced log) (name : String) :
    (w.begin name).Traced (log ++ [.read (w.ledger.lastSession + 1)]) := by
  have hr := h.rollback name
  have last_eq : (w.rollback name).ledger.lastSession = w.ledger.lastSession := by
    rw [ledger_rollback_eq]
  refine ⟨h.sound.begin name, ?_, ?_⟩
  · intro x hx
    show x.session ≤ (w.rollback name).ledger.lastSession + 1
    rw [last_eq]
    rcases List.mem_append.1 hx with hx | hx
    · exact Nat.le_succ_of_le (h.known x hx)
    · cases List.mem_singleton.1 hx
      exact Nat.le_refl _
  · intro m t ht
    rw [open?_begin] at ht
    split at ht
    · cases ht
      have nothing_yet : ∀ k n, ¬ Log.WroteAt log (w.ledger.lastSession + 1) k n := by
        rintro k n ⟨p, hp, -⟩
        exact absurd (h.known _ (List.mem_of_getElem? hp)) (Nat.not_succ_le_self _)
      have puts_eq : Log.puts (log ++ [.read (w.ledger.lastSession + 1)])
          (w.ledger.lastSession + 1) = [] := by
        rw [Log.puts_append, Log.puts_of_ne fun x hx heq => ?_]
        · rfl
        · exact absurd (heq ▸ h.known x hx) (Nat.not_succ_le_self _)
      show Session.Traced ⟨(w.rollback name).ledger.lastSession + 1, (w.rollback name).ledger.tables,
        (w.rollback name).ledger.versions, {}⟩ (w.rollback name).ledger.versions _
      rw [last_eq]
      refine ⟨.snoc_read fun k n hn => absurd hn (nothing_yet k n), ?_, fun t => ?_, fun k => ?_⟩
      · rw [puts_eq]
        rfl
      · rw [puts_eq]
        exact t.apply_empty
      · rw [Log.stale_snoc_read]
        exact ⟨fun hne => absurd rfl hne, fun ho => by
          obtain ⟨n, hn⟩ := ho.wrote
          exact absurd hn (nothing_yet k n)⟩
    next hm =>
      -- the number of the new session is no other session's
      have older : t.id ≤ w.ledger.lastSession := (h.sound.fits m t ht).known
      have others : ∀ x ∈ [Note.read (w.ledger.lastSession + 1)], x.session ≠ t.id := by
        intro x hx
        cases List.mem_singleton.1 hx
        exact Nat.ne_of_gt (Nat.lt_succ_of_le older)
      have traced := (h.sessions m t ht).others others (by simp)
      rwa [ledger_begin, ledger_rollback_eq]

theorem Traced.commit (h : w.Traced log) (name : String) :
    (w.commit name).2.Traced (log ++ w.notes (.commit name)) := by
  cases hs : w.open? name with
  | none =>
    have nothing : w.notes (.commit name) = [] := by
      simp only [notes, hs, Option.elim]
    rw [nothing, List.append_nil]
    refine h.close (h.sound.commit name) (w.open?_commit name) ?_ ?_
    · rw [ledger_commit_of_none hs]
    · rw [ledger_commit_of_none hs]
  | some s =>
    obtain ⟨result_eq, ledger_eq⟩ := commit_of_open? hs
    have other_id : ∀ m t, w.open? m = some t → m ≠ name → s.id ≠ t.id :=
      fun m t ht hm heq => hm (h.sound.distinct name m s t hs ht heq).symm
    by_cases hadmits : w.ledger.Admits s
    · have commit_eq := Ledger.commit_of_admits hadmits
      have notes_eq : w.notes (.commit name) = [.committed s.id] := by
        simp only [notes, hs, Option.elim, result_eq, commit_eq]
      rw [notes_eq]
      rw [commit_eq] at ledger_eq
      refine ⟨h.sound.commit name, ?_, fun m t ht => ?_⟩
      · rw [ledger_eq]
        intro x hx
        rcases List.mem_append.1 hx with hx | hx
        · exact h.known x hx
        · cases List.mem_singleton.1 hx
          exact (h.sound.fits name s hs).known
      · rw [open?_commit] at ht
        split at ht
        · cases ht
        next hm =>
          rw [ledger_eq]
          refine (h.sessions m t ht).committed (other_id m t ht hm)
            (fun k => (h.sessions name s hs).mem_written) fun k => ?_
          exact Nat.lt_succ_of_le
            (Nat.le_trans ((h.sound.fits m t ht).base_le k) (h.sound.versions_le k))
    · obtain ⟨e, commit_eq⟩ := Ledger.commit_of_not_admits hadmits
      have notes_eq : w.notes (.commit name) = [] := by
        simp only [notes, hs, Option.elim, result_eq, commit_eq]
      rw [notes_eq, List.append_nil]
      rw [commit_eq] at ledger_eq
      refine h.close (h.sound.commit name) (w.open?_commit name) ?_ ?_
      · rw [ledger_eq]
        rfl
      · rw [ledger_eq]
        rfl

/-- A call notes what its own session reads and writes. -/
theorem mem_callNotes {s : Session} {c : StoreCall} {x : Note} (hx : x ∈ w.callNotes s c) :
    x = .read s.id ∨ ∃ p, x = .wrote s.id p := by
  rcases List.mem_append.1 hx with hx | hx
  · split at hx
    · exact .inl (List.mem_singleton.1 hx)
    · cases hx
  · obtain ⟨p, -, rfl⟩ := List.mem_map.1 hx
    exact .inr ⟨p, rfl⟩

theorem Traced.call (h : w.Traced log) (name : String) (c : StoreCall) :
    (w.happen (.call name c)).Traced (log ++ w.notes (.call name c)) := by
  cases hs : w.open? name with
  | none =>
    have stays : w.happen (.call name c) = w := by
      have := w.run_isSome name (Program.request (.store c))
      rw [hs] at this
      simp only [happen, Option.isNone_iff_eq_none.1 (Option.isSome_eq_false_iff.1 this),
        Option.map_none, Option.getD_none]
    have nothing : w.notes (.call name c) = [] := by
      simp only [notes, hs, Option.elim]
    rw [stays, nothing, List.append_nil]
    exact h
  | some s =>
    obtain ⟨⟨a, w'⟩, hrun⟩ := Option.isSome_iff_exists.1
      ((w.run_isSome name (Program.request (.store c))).trans (by rw [hs]; rfl))
    have happen_eq : w.happen (.call name c) = w' := by
      simp only [happen, hrun, Option.map_some, Option.getD_some]
    have notes_eq : w.notes (.call name c) = w.callNotes s c := by
      simp only [notes, hs, Option.elim]
    rw [happen_eq, notes_eq]
    obtain ⟨s₀, l, s', around', hs₀, hp, hledger, hopen⟩ := run_eq_some hrun
    cases hs.symm.trans hs₀
    have answer_eq : s.answer w.ledger c = (a, l, s') := by
      cases hp
      rfl
    have hfit := h.sound.fits name s hs
    have hgrants := s.answer_ledger w.ledger c
    have session_eq := s.answer_session w.ledger c hfit.view_keyed.invoices
    rw [answer_eq] at hgrants session_eq
    have versions_eq : w'.ledger.versions = w.ledger.versions := by rw [hledger, hgrants.versions]
    have notes_own : ∀ x ∈ w.callNotes s c, x.session = s.id := by
      intro x hx
      rcases mem_callNotes hx with rfl | ⟨p, rfl⟩
      · rfl
      · rfl
    refine ⟨h.sound.run hrun, ?_, fun m t ht => ?_⟩
    · rw [hledger, hgrants.lastSession]
      intro x hx
      rcases List.mem_append.1 hx with hx | hx
      · exact h.known x hx
      · rw [notes_own x hx]
        exact hfit.known
    · rw [hopen] at ht
      rw [versions_eq]
      split at ht
      · cases ht
        rw [show s' = _ from session_eq]
        have traced := h.sessions name s hs
        unfold callNotes
        -- a call that reads writes nothing, so either way there is one kind of notes
        cases hreads : c.reads with
        | true =>
          rw [s.writes_of_reads _ hreads, if_pos rfl, if_pos rfl]
          exact traced.refresh rfl
        | false =>
          rw [if_neg Bool.false_ne_true, if_neg Bool.false_ne_true]
          exact traced.writeAll (hfit.apply_writes c)
      next hm =>
        refine (h.sessions m t ht).others (fun x hx heq => ?_) fun other hother => ?_
        · rw [notes_own x hx] at heq
          exact hm (h.sound.distinct name m s t hs ht heq).symm
        · rcases mem_callNotes hother with heq | ⟨p, heq⟩
          · cases heq
          · cases heq

/-- **The log is true of every world that can be reached.** -/
theorem Logged.traced {around : Surroundings} (h : Logged around w log) : w.Traced log := by
  induction h with
  | start => exact ⟨.start around, fun x hx => (nomatch hx), fun name s hs => (nomatch hs)⟩
  | step h e ih =>
    cases e with
    | begin name => exact ih.begin name
    | call name c => exact ih.call name c
    | commit name => exact ih.commit name
    | rollback name =>
      rw [show World.notes _ (.rollback name) = [] from rfl, List.append_nil]
      exact ih.rollback name
    | addTeam name kind =>
      rw [show World.notes _ (.addTeam name kind) = [] from rfl, List.append_nil]
      exact ⟨ih.sound.addTeam name kind, ih.known, ih.sessions⟩

/-! ## Commits -/

/-- **Commits are atomic and lose no update.** In every world that can be reached, by any events of
any number of sessions, the commit of a session goes through if and only if none of its rows is
overtaken. If it does, the tables are the earlier ones with exactly the session's writes made, in
the order in which its calls made them; rows that it did not write keep their contents and versions.
If it does not, tables and versions are as before. -/
theorem commit_iff_not_overtaken {around : Surroundings} (h : Logged around w log) {name : String}
    {s : Session} (hs : w.open? name = some s) :
    ((w.commit name).1 = .ok () ↔ ∀ k, ¬ Log.Overtaken log s.id k) ∧
    ((w.commit name).1 = .ok () →
      (w.commit name).2.ledger.tables = w.ledger.tables.putAll (Log.puts log s.id) ∧
      ∀ k, if ∃ p ∈ Log.puts log s.id, p.key? = some k
        then (w.commit name).2.ledger.versions k = w.ledger.commits + 1
        else (w.commit name).2.ledger.tables.SameRow w.ledger.tables k ∧
          (w.commit name).2.ledger.versions k = w.ledger.versions k) ∧
    ((w.commit name).1 ≠ .ok () →
      (w.commit name).2.ledger.tables = w.ledger.tables ∧
      (w.commit name).2.ledger.versions = w.ledger.versions) := by
  have traced := h.traced.sessions name s hs
  have written_iff : ∀ k, k ∈ s.changes.written ↔ ∃ p ∈ Log.puts log s.id, p.key? = some k :=
    fun k => traced.mem_written.trans Log.exists_wroteAt
  -- once a row is written, being out of date is being overtaken
  have admits_iff : w.ledger.Admits s ↔ ∀ k, ¬ Log.Overtaken log s.id k := by
    constructor
    · intro hadmits k ho
      have hk := traced.mem_written.2 ho.wrote
      exact (traced.stale_iff k).2 (.inl ho) (hadmits k hk)
    · intro hnone k hk
      by_contra hne
      have hstale := (traced.stale_iff k).1 hne
      exact hnone k ((Log.stale_iff_overtaken (traced.mem_written.1 hk)).1 hstale)
  obtain ⟨result_eq, ledger_eq⟩ := commit_of_open? hs
  rw [result_eq, ledger_eq, ← admits_iff]
  by_cases hadmits : w.ledger.Admits s
  · rw [Ledger.commit_of_admits hadmits]
    refine ⟨by simp [hadmits], fun _ => ⟨traced.apply_eq _, fun k => ?_⟩, fun hne => absurd rfl hne⟩
    split
    next hk => exact if_pos ((written_iff k).2 hk)
    next hk =>
      have hkw : k ∉ s.changes.written := fun hkw => hk ((written_iff k).1 hkw)
      exact ⟨w.ledger.tables.sameRow_apply hkw, if_neg hkw⟩
  · obtain ⟨e, commit_eq⟩ := Ledger.commit_of_not_admits hadmits
    rw [commit_eq]
    refine ⟨by simp [hadmits], fun hok => ?_, fun _ => ⟨rfl, rfl⟩⟩
    cases hok

/-- Two sessions see the same limit. The first one deletes it and commits; then the second one
changes it, as it saw it before, and its commit is refused. -/
theorem commit_iff_not_overtaken_rivals :
    ∃ w log s, Logged { clock := ⟨⟨0, 0, by decide⟩⟩ } w log ∧ w.open? "second" = some s ∧
      (w.commit "second").1 ≠ .ok () ∧ ¬ ∀ k, ¬ Log.Overtaken log s.id k := by
  have stored : Logged { clock := ⟨⟨0, 0, by decide⟩⟩ } _ _ :=
    ((Logged.start.step (.begin "first")).step (.call "first" (.saveLimit default))).step
      (.commit "first")
  have both := (stored.step (.begin "first")).step (.begin "second")
  have deleted := (both.step (.call "first" (.deleteLimits 0 none))).step (.commit "first")
  have h := deleted.step (.call "second" (.saveLimit { (default : Limit) with id := 1 }))
  refine ⟨_, _, _, h, rfl, by decide, fun hnone => ?_⟩
  have goes_through := (@commit_iff_not_overtaken _ _ _ h "second" _ rfl).1.2 hnone
  exact absurd goes_through (by decide)

end World

end TeamLedger
