/-
Who can change the status of a submission that has ended.

Whether a submission may still be ended is read off the copy that a workflow has.
If the copy is not locked, somebody else may have ended the submission and
committed; a workflow with an old copy goes on all the same. Accepting then reads
the invoices, so the session has a new snapshot and has noted the new version by
the time it writes, and its commit goes through.

This is the only way: a commit changes the status of an ended submission exactly
when the session has ended it on a copy that still said submitted, and the status
that it wrote last is another one.
-/
import TeamLedger.Proofs.Creating
import TeamLedger.Proofs.Paying
import TeamLedger.Proofs.Readjusting
import TeamLedger.Proofs.Rejecting
import TeamLedger.Proofs.Runs

set_option autoImplicit false

namespace TeamLedger

/-- The workflow took a submission to be under way that had ended. -/
def Ending.Stale (e : Ending) : Prop :=
  e.copied = .submitted ∧ ∃ status, e.found = some status ∧ status.isTerminal = true

namespace Floor

variable {l l' : Ledger} {s s' : Session} {es : List Ending}

/-- What the endings of a session tell of its changes. If it can commit, then of all submissions that
are not new it has written just those that it has ended. Their status is the one written last, and one
of the endings found the status that is committed. -/
structure Told (l : Ledger) (s : Session) (_ : Desk) (es : List Ending) : Prop where
  written : ∀ e ∈ es, ⟨.submission, e.submission⟩ ∈ s.changes.written ∧ e.copied = .submitted
  last : l.Admits s → ∀ id x, l.tables.submissions.get? id = some x →
    ⟨.submission, id⟩ ∈ s.changes.written → ∃ e, es.find? (·.submission = id) = some e ∧
      ((l.tables.apply s.changes).submissions.get? id).map (·.status) = some e.written ∧
      ∃ e₁ ∈ es, e₁.submission = id ∧ e₁.found = some x.status

theorem told_stable : Stable (fun _ => True) Told where
  empty := trivial
  teams _ _ _ := trivial
  begun l id snapshot base := by
    refine ⟨fun e he => (nomatch he), fun _ i x _ hi => ?_⟩
    simp [Changes.mem_written_submission] at hi
  spared l l' s d es ts _ h ht hv _ := by
    refine ⟨h.written, fun hadmits id x hx hi => ?_⟩
    rw [ht] at hx ⊢
    refine h.last ?_ id x hx hi
    unfold Ledger.Admits at hadmits ⊢
    rwa [hv] at hadmits
  commits _ _ _ _ _ _ _ := trivial
  others l ses n m o s d d' es es' hsound _ _ _ hm _ h hadmits := by
    refine ⟨h.written, fun hafter id x hx hi => ?_⟩
    obtain ⟨before, apart⟩ := hsound.admits_after hm hadmits hafter
    rw [Ledger.commit_of_admits hadmits] at hx ⊢
    -- the other session has not written the row, so its commit leaves it alone
    have same := l.tables.sameRow_apply (apart _ hi)
    have seen : ((l.tables.apply o.changes).apply s.changes).submissions.get? id =
        (l.tables.apply s.changes).submissions.get? id := same.apply s.changes
    replace hx : l.tables.submissions.get? id = some x :=
      (show (l.tables.apply o.changes).submissions.get? id = _ from same).symm.trans hx
    show ∃ e, _ ∧ (((l.tables.apply o.changes).apply s.changes).submissions.get? id).map _ = _ ∧ _
    rw [seen]
    exact h.last before id x hx hi

namespace Told

variable {desk desk' : Desk} {qs : List Put}

/-- Writes that change no submission which is there. -/
theorem step (h : Told l s desk es) (hl : l.Grants s.id l') (hon : s.Onward s')
    (hs : s'.changes = s.changes.putAll qs) (hlimit : ∀ z, Put.limit z ∉ qs)
    (hnew : ∀ z, Put.submission z ∈ qs → (l.tables.apply s.changes).submissions.get? z.id = none) :
    Told l' s' desk' es := by
  refine ⟨fun e he => ?_, fun hadmits id x hx hi => ?_⟩
  · exact ⟨hon.written _ (h.written e he).1, (h.written e he).2⟩
  rw [hl.tables] at hx ⊢
  -- what is written is new, and this submission was there
  have not_new : ∀ z, Put.submission z ∈ qs → z.id ≠ id := by
    rintro z hz rfl
    have hnone : l.tables.submissions.get? z.id = none := Tables.eq_none_of_apply.1 (hnew z hz)
    cases hx.symm.trans hnone
  have written_before : ⟨.submission, id⟩ ∈ s.changes.written := by
    rw [hs] at hi
    rcases Changes.mem_written_putAll.1 hi with ⟨p, hp, hkey⟩ | hi
    · cases p <;> cases hkey
      exact absurd rfl (not_new _ hp)
    · exact hi
  have same : (l.tables.apply s'.changes).submissions.get? id =
      (l.tables.apply s.changes).submissions.get? id := by
    rw [hs, Tables.apply_putAll _ _ hlimit]
    rcases Tables.submission_putAll (l.tables.apply s.changes) qs id with
      ⟨hget, -⟩ | ⟨z, hz, hid, -⟩
    · exact hget
    · exact absurd hid (not_new z hz)
  rw [same]
  exact h.last (hon.admits hl.versions hadmits) id x hx written_before

/-- The session only reads, or does nothing at all. -/
theorem idle (h : Told l s desk es) (hl : l.Grants s.id l') (hon : s.Onward s')
    (hs : s'.changes = s.changes) : Told l' s' desk' es :=
  h.step hl hon (hs.trans s.changes.putAll_nil.symm) (fun _ hz => nomatch hz) fun _ hz => nomatch hz

/-- A submission is ended. -/
theorem ending (h : Told l s desk es) (hl : l.Grants s.id l') (hon : s.Onward s')
    (hs : s'.changes = s.changes.putAll qs) {z : Submission} (hheads : Put.Heads z qs) {e : Ending}
    (hid : e.submission = z.id) (hcopied : e.copied = .submitted)
    (hfound : e.found = ((l.tables.apply s.changes).submissions.get? z.id).map (·.status))
    (hwritten : e.written = z.status) : Told l' s' desk' (e :: es) := by
  have key_written : ⟨.submission, z.id⟩ ∈ s'.changes.written := by
    rw [hs]
    exact Changes.mem_written_putAll.2 (.inl ⟨_, hheads.mem, rfl⟩)
  refine ⟨fun e' he' => ?_, fun hadmits id x hx hi => ?_⟩
  · rcases List.mem_cons.1 he' with rfl | he'
    · rw [hid]
      exact ⟨key_written, hcopied⟩
    · exact ⟨hon.written _ (h.written e' he').1, (h.written e' he').2⟩
  rw [hl.tables] at hx ⊢
  have before := hon.admits hl.versions hadmits
  rw [hs, Tables.apply_putAll _ _ hheads.no_limit, hheads.get?_putAll]
  by_cases heq : id = z.id
  · subst heq
    rw [if_pos rfl]
    refine ⟨e, List.find?_cons_of_pos (by simpa using hid), by rw [hwritten]; rfl, ?_⟩
    by_cases hi₀ : ⟨.submission, z.id⟩ ∈ s.changes.written
    · obtain ⟨-, -, -, e₁, he₁, hfirst⟩ := h.last before z.id x hx hi₀
      exact ⟨e₁, List.mem_cons_of_mem _ he₁, hfirst⟩
    · -- nothing of the session's own is in the way yet
      have same : (l.tables.apply s.changes).submissions.get? z.id =
          l.tables.submissions.get? z.id := l.tables.sameRow_apply hi₀
      refine ⟨e, List.mem_cons_self, hid, ?_⟩
      rw [hfound, same, hx]
      rfl
  · rw [if_neg heq]
    have hi₀ : ⟨.submission, id⟩ ∈ s.changes.written := by
      rw [hs] at hi
      rcases Changes.mem_written_putAll.1 hi with ⟨p, hp, hkey⟩ | hi
      · cases p <;> cases hkey
        exact absurd (congrArg Submission.id (hheads.eq_of_mem hp)) heq
      · exact hi
    obtain ⟨e', hfind, hstatus, e₁, he₁, hfirst⟩ := h.last before id x hx hi₀
    refine ⟨e', ?_, hstatus, e₁, List.mem_cons_of_mem _ he₁, hfirst⟩
    rw [List.find?_cons_of_neg]
    · exact hfind
    · rw [hid]
      simpa using fun h => heq h.symm

end Told

/-- **Every deed of an ordinary run** keeps the invariant. -/
theorem told_act {f : Floor} {name : String} {d : Deed} (h : f.Holds (fun _ => True) Told)
    (hordinary : f.Ordinary (.act name d)) :
    (f.happen (.act name d)).Holds (fun _ => True) Told := by
  refine h.act told_stable fun s desk' ended l' s' hs hran hh hl hon => ?_
  have told := h.sessions name s hs
  generalize f.desk name = desk at hran told
  cases hran with
  | call c =>
    have invoices_only : ∀ p ∈ s.writes f.world.ledger c, ∃ i, p = Put.invoice i := by
      intro p hp
      rcases hordinary with hreads | ⟨new, rfl⟩
      · rw [s.writes_of_reads _ hreads] at hp
        cases hp
      · exact ⟨_, List.mem_singleton.1 hp⟩
    refine told.step hl hon (hh.answer_changes c) (fun z hz => ?_) fun z hz => ?_
    · obtain ⟨i, hi⟩ := invoices_only _ hz
      cases hi
    · obtain ⟨i, hi⟩ := invoices_only _ hz
      cases hi
  | openWorkflow agent copy => exact told.idle hl hon rfl
  | openManager set => exact told.idle hl hon rfl
  | load hends =>
    refine told.idle hl hon ?_
    rw [(Workflow.load_ends hh hends).1]
    rfl
  | @create q receipt amount w held r y hends =>
    rcases Workflow.create_ends False hh hends with ⟨-, huntouched⟩ | ⟨x, qs, -, hcreated⟩
    · exact told.idle hl hon huntouched.changes
    · refine told.step hl hon hcreated.changes hcreated.heads.no_limit fun z hz => ?_
      rw [hcreated.heads.eq_of_mem hz]
      exact hcreated.new
  | @accept w held r y hends =>
    rcases Workflow.accept_ends False hh (fun h => h.elim) hends with
      ⟨⟨e, rfl⟩, huntouched⟩ | ⟨⟨a, rfl⟩, c, x, qs, haccepted⟩
    · exact told.idle hl hon huntouched.changes
    · have hid : c.id = x.id :=
        (hh.shown_keyed.submissions _ _ haccepted.seen).symm
      rw [Workflow.ended, haccepted.copy]
      refine told.ending hl hon haccepted.changes haccepted.heads hid haccepted.submitted ?_ rfl
      show ((f.prospect name).submissions.get? c.id).map (·.status) = _
      rw [prospect_eq hs, hid]
  | @reject w held r y hends =>
    rcases Workflow.reject_ends False hh hends with
      ⟨⟨e, rfl⟩, huntouched⟩ | ⟨⟨a, rfl⟩, c, x, qs, hrejected⟩
    · exact told.idle hl hon huntouched.changes
    · have hid : c.id = x.id := (hh.fits.view_keyed.submissions _ _ hrejected.seen).symm
      rw [Workflow.ended, hrejected.copy]
      refine told.ending hl hon hrejected.changes hrejected.heads hid hrejected.submitted ?_ rfl
      show ((f.prospect name).submissions.get? c.id).map (·.status) = _
      rw [prospect_eq hs, hid]
  | gather hends =>
    refine told.idle hl hon ?_
    rw [(Readjustment.load_ends hh hends).1]
    rfl
  | @readjust a set origin r y hends =>
    obtain ⟨zs, added, hdone⟩ := Readjustment.apply_ends False hh hends
    have changes_eq : y.2.2.changes = s.changes.putAll ((zs ++ added).map .invoice) := by
      rw [hdone.session]
      rfl
    exact told.step hl hon changes_eq (by simp) (by simp)
  | nothing => exact told.idle hl hon rfl

variable {f : Floor}

/-- **A commit changes the status of a submission that has ended** exactly when it goes through and the
status that the session has given to the submission last is another one. Then the session has ended
the submission on a copy that still said submitted. -/
theorem commit_changes_ended_iff (h : f.Reach Ordinary) (name : String) {id : Ident} {x : Submission}
    (hx : f.tables.submissions.get? id = some x) (hended : x.status.isTerminal = true) :
    ((f.happen (.commit name)).tables.submissions.get? id).map (·.status) ≠ some x.status ↔
      (f.world.commit name).1 = .ok () ∧
        ∃ e, (f.endings name).find? (·.submission = id) = some e ∧ e.written ≠ x.status ∧
          ∃ e₁ ∈ f.endings name, e₁.submission = id ∧ e₁.Stale := by
  have holds : f.Holds (fun _ => True) Told :=
    h.holds told_stable fun _ _ _ hordinary hf => told_act hf hordinary
  show ((f.world.commit name).2.ledger.tables.submissions.get? id).map (·.status) ≠ _ ↔ _
  have unchanged {t : Tables} (ht : t.submissions.get? id = f.tables.submissions.get? id) :
      ¬ (t.submissions.get? id).map (·.status) ≠ some x.status := by
    rw [ht, hx]
    exact fun hne => hne rfl
  cases hs : f.world.open? name with
  | none =>
    rw [World.ledger_commit_of_none hs, holds.closed name hs]
    refine iff_of_false (unchanged rfl) ?_
    rintro ⟨-, e, he, -⟩
    cases he
  | some s =>
    obtain ⟨result_eq, ledger_eq⟩ := World.commit_of_open? hs
    rw [result_eq, ledger_eq]
    have told := holds.sessions name s hs
    by_cases hadmits : f.world.ledger.Admits s
    case neg =>
      obtain ⟨e, he⟩ := Ledger.commit_of_not_admits hadmits
      rw [he]
      refine iff_of_false (unchanged rfl) ?_
      rintro ⟨hok, -⟩
      cases hok
    case pos =>
      rw [Ledger.commit_of_admits hadmits]
      by_cases hi : ⟨.submission, id⟩ ∈ s.changes.written
      case neg =>
        refine iff_of_false (unchanged (f.world.ledger.tables.sameRow_apply hi)) ?_
        rintro ⟨-, e, he, -⟩
        have he_id : e.submission = id := by simpa using List.find?_some he
        refine hi ?_
        rw [← he_id]
        exact (told.written e (List.mem_of_find?_eq_some he)).1
      case pos =>
        obtain ⟨e, he, hstatus, e₁, he₁, hid, hfound⟩ := told.last hadmits id x hx hi
        -- what this ending found is the committed status, and with that the submission had ended
        have stale : e₁.Stale := ⟨(told.written e₁ he₁).2, x.status, hfound, hended⟩
        show ((f.world.ledger.tables.apply s.changes).submissions.get? id).map (·.status) ≠ _ ↔ _
        rw [hstatus]
        constructor
        · intro hne
          exact ⟨rfl, e, he, fun heq => hne (congrArg some heq), e₁, he₁, hid, stale⟩
        · rintro ⟨-, e', he', hne, -⟩ heq
          cases he.symm.trans he'
          exact hne (Option.some.inj heq)

/-- A submission is loaded without a lock, and rejected and committed by somebody else. The copy still
says submitted, so it is accepted then, and the commit goes through. -/
theorem commit_changes_ended_iff_overturned : ∃ f : Floor, f.Reach Ordinary ∧
    (f.tables.submissions.get? 2).map (·.status) = some .rejected ∧
      ((f.happen (.commit "slow")).tables.submissions.get? 2).map (·.status) = some .accepted ∧
        ∃ e ∈ f.endings "slow", e.Stale := by
  have key (f : Floor) (h : f.Reach Ordinary)
      (hbefore : (f.tables.submissions.get? 2).map (·.status) = some .rejected)
      (hafter : ((f.happen (.commit "slow")).tables.submissions.get? 2).map (·.status) =
        some .accepted) : ∃ e ∈ f.endings "slow", e.Stale := by
    obtain ⟨x, hx, hstatus⟩ := Option.map_eq_some_iff.1 hbefore
    obtain ⟨-, -, -, -, e, he, -, hstale⟩ :=
      (commit_changes_ended_iff h "slow" hx (by rw [hstatus]; rfl)).1
        (by rw [hafter, hstatus]; decide)
    exact ⟨e, he, hstale⟩
  have empty : Reach Ordinary _ := .start { clock := ⟨⟨0, 0, by decide⟩⟩ }
  have created := ((((empty.step (.begin "first") trivial).step
    (.act "first" (.call (.insertInvoice { (default : NewInvoice) with status := .notPaid })))
    (.inr ⟨_, rfl⟩)).step (.act "first" (.openWorkflow .system none)) trivial).step
    (.act "first" (.create (.start .invoice false) "" .zero)) trivial).step (.commit "first") trivial
  have loaded := ((created.step (.begin "slow") trivial).step
    (.act "slow" (.openWorkflow .system none)) trivial).step
    (.act "slow" (.load (.start .submission false))) trivial
  have rejected := ((((loaded.step (.begin "quick") trivial).step
    (.act "quick" (.openWorkflow .system none)) trivial).step
    (.act "quick" (.load (.start .submission true))) trivial).step
    (.act "quick" .reject) trivial).step (.commit "quick") trivial
  have h := rejected.step (.act "slow" .accept) trivial
  exact ⟨_, h, by decide, by decide, key _ h (by decide) (by decide)⟩

end Floor

end TeamLedger
