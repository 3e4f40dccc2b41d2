/-
Every session that can commit has made moves on the tables as they are now.

A session saw tables of various ages while it wrote, and others have committed
since. Still, as long as no version has moved of a row that it wrote, all that it
wrote is a row of moves on the committed tables: it might have done everything
just now, with nobody else there (`Seat.moves`). A commit then makes these moves,
and the others make theirs again on top.

Two kinds of locks are needed for this. A submission is ended on the row that the
workflow has a copy of, so between loading it and ending it nobody may end it,
and nobody can whose own workflow holds a lock too (`Seat.submissions`). And an
invoice of a locked working set stays unpaid, because paying takes its lock
(`Seat.paid`).
-/
import TeamLedger.Proofs.Creating
import TeamLedger.Proofs.Paying
import TeamLedger.Proofs.Rejecting
import TeamLedger.Proofs.WorkingSets

set_option autoImplicit false

namespace TeamLedger

/-- A payment that was written is among the changes. -/
theorem Changes.isSome_history_of_mem {c : Changes} {ps : List Put} {x : History}
    (hx : Put.history x ∈ ps) : ((c.putAll ps).histories.get? x.id).isSome := by
  have kept {ps : List Put} {c : Changes} {id : Ident} (h : (c.histories.get? id).isSome) :
      ((c.putAll ps).histories.get? id).isSome := by
    induction ps generalizing c with
    | nil => exact h
    | cons p ps ih =>
      refine ih ?_
      cases p with
      | history y =>
        show ((c.histories.insert y.id y).get? id).isSome
        rw [Rows.get?_insert]
        split
        · rfl
        · exact h
      | _ => exact h
  obtain ⟨before, after, rfl⟩ := List.append_of_mem hx
  rw [Changes.putAll_append, Changes.putAll_cons]
  refine kept ?_
  show (((c.putAll before).histories.insert x.id x).get? x.id).isSome
  rw [Rows.get?_insert, if_pos rfl]
  rfl

/-- The writes of two sessions with different rows are apart. -/
theorem Put.Apart.of_changes {s o : Session} {ps qs : List Put}
    (hs : s.changes = ({} : Changes).putAll ps) (ho : o.changes = ({} : Changes).putAll qs)
    (apart : ∀ k ∈ s.changes.written, k ∉ o.changes.written)
    (histories : ∀ id, (s.changes.histories.get? id).isSome → o.changes.histories.get? id = none) :
    Put.Apart ps qs := by
  refine ⟨fun p hp q hq k hpk hqk => ?_, fun x y hx hy heq => ?_⟩
  · refine apart k ?_ ?_
    · rw [hs]
      exact Changes.mem_written_putAll.2 (.inl ⟨p, hp, hpk⟩)
    · rw [ho]
      exact Changes.mem_written_putAll.2 (.inl ⟨q, hq, hqk⟩)
  · have hxs : (s.changes.histories.get? x.id).isSome := by
      rw [hs]
      exact Changes.isSome_history_of_mem hx
    have hyo : (o.changes.histories.get? y.id).isSome := by
      rw [ho]
      exact Changes.isSome_history_of_mem hy
    rw [heq, histories x.id hxs] at hyo
    cases hyo

/-! ## What is known of a desk -/

/-- What lies on a desk is up to date as far as locks reach. -/
def Desk.Fits (l : Ledger) (s : Session) : Desk → Prop
  | .free | .manager _ .given => True
  | .workflow w held =>
    (∀ id ∈ held, l.locks ⟨.submission, id⟩ = some s.id ∨
      ⟨.submission, id⟩ ∈ s.changes.written ∧ l.tables.submissions.get? id = none) ∧
    ∀ c, w.data = some c → c.id ∈ held →
      (l.tables.apply s.changes).submissions.get? c.id = some c
  | .manager set (.loaded locked current) => Readjustment.Watched l s locked current set

/-- A session that can commit, with its desk. -/
structure Seat (strict : Prop) (l : Ledger) (s : Session) (desk : Desk) : Prop where
  moves : ∃ ps, s.changes = ({} : Changes).putAll ps ∧ Moves strict l.tables ps
  /-- A submission that is not new is changed under a lock. -/
  submissions : ∀ id,
    (l.tables.apply s.changes).submissions.get? id = l.tables.submissions.get? id ∨
      l.tables.submissions.get? id = none ∨ l.locks ⟨.submission, id⟩ = some s.id
  paid : l.PaysLocked s
  fits : desk.Fits l s

namespace Seat

variable {strict : Prop} {l l' : Ledger} {s s' : Session} {desk desk' : Desk}

/-- What the session's commit would leave is what its moves lead to. -/
theorem apply_eq (h : Seat strict l s desk) : ∃ ps, s.changes = ({} : Changes).putAll ps ∧
    Moves strict l.tables ps ∧ l.tables.apply s.changes = l.tables.putAll ps := by
  obtain ⟨ps, hps, hmoves⟩ := h.moves
  refine ⟨ps, hps, hmoves, ?_⟩
  rw [hps, Tables.apply_putAll _ _ hmoves.no_limit, Tables.apply_empty]

theorem built (h : Seat strict l s desk) (hl : Built strict l.tables) :
    Built strict (l.tables.apply s.changes) := by
  obtain ⟨ps, -, hmoves, happly⟩ := h.apply_eq
  rw [happly]
  exact hl.moves hmoves

/-- A session that has just begun. -/
theorem begun (id : SessionId) (snapshot : Tables) (base : RowKey → Nat) :
    Seat strict l { id, snapshot, base } .free where
  moves := ⟨[], rfl, .nil _⟩
  submissions id := by
    rw [Tables.apply_empty]
    exact .inl rfl
  paid := .begun
  fits := trivial

/-- Other teams are no matter, nor is anything else as long as the session keeps its locks. -/
theorem transfer (h : Seat strict l s desk) (hl : Built strict l.tables) {teams : Rows Team}
    (ht : l'.tables = { l.tables with teams })
    (hlocks : ∀ k, l.locks k = some s.id → l'.locks k = some s.id) : Seat strict l' s desk := by
  obtain ⟨hmoves, hsubmissions, hpaid, hfits⟩ := h
  have apply_eq : l'.tables.apply s.changes = { l.tables.apply s.changes with teams } := by
    rw [ht]
    rfl
  refine ⟨?_, ?_, ?_, ?_⟩
  · obtain ⟨ps, hps, hmoves⟩ := hmoves
    exact ⟨ps, hps, ht ▸ hmoves.teams hl teams⟩
  · intro id
    rw [apply_eq, ht]
    exact (hsubmissions id).imp_right fun h => h.imp_right (hlocks _)
  · exact hpaid.transfer ht hlocks
  · cases desk with
    | free => trivial
    | workflow w held =>
      obtain ⟨hheld, hdata⟩ := hfits
      refine ⟨fun id hid => ?_, fun c hc hmem => ?_⟩
      · rw [ht]
        exact (hheld id hid).imp_left (hlocks _)
      · rw [apply_eq]
        exact hdata c hc hmem
    | manager set origin =>
      cases origin with
      | given => trivial
      | loaded locked current => exact Readjustment.Watched.transfer hfits ht hlocks

/-! ### Someone else commits -/

section Committed

variable {o : Session} {other : Desk}

/-- What a desk relies on is there after a commit of someone else: what is locked the other has left
as it was, and what is not locked this session has written, and so the other has not. -/
theorem fits_committed (h : Seat strict l s desk) (ho : Seat strict l o other)
    (hp : l.Passed o s l') : desk.Fits l' s := by
  cases desk with
  | free => trivial
  | workflow w held =>
    obtain ⟨hheld, hdata⟩ := h.fits
    refine ⟨fun id hid => ?_, fun c hc hmem => ?_⟩
    · rw [hp.tables]
      rcases hheld id hid with hlock | ⟨hwritten, hnone⟩
      · exact .inl (hp.locks_kept _ hlock)
      · rcases hp.submission_row id with ⟨hrow, -⟩ | ⟨hne, -⟩
        · exact .inr ⟨hwritten, hrow.trans hnone⟩
        · exact absurd hwritten hne
    · rw [hp.tables]
      have hthere := hdata c hc hmem
      rcases hp.submission_row c.id with ⟨-, hseen⟩ | ⟨hne, hseen, hsame⟩
      · exact hseen.trans hthere
      · rcases hheld c.id hmem with hlock | ⟨hwritten, -⟩
        · rcases ho.submissions c.id with hsame' | hnone | hlock'
          · exact hseen.trans (hsame'.trans (hsame.symm.trans hthere))
          · cases hnone.symm.trans (hsame.symm.trans hthere)
          · exact absurd hlock' (hp.lock_not hlock)
        · exact absurd hwritten hne
  | manager set origin =>
    cases origin with
    | given => trivial
    | loaded locked current => exact Readjustment.Watched.committed h.fits hp ho.paid

/-- **Someone else commits.** A session that can commit even so has written none of the same rows, so
it makes its moves again on what is there now. -/
theorem committed (h : Seat strict l s desk) (hl : Built strict l.tables)
    {ses : String → Option Session} (hsound : l.Sound ses) {n m : String} (hne : n ≠ m)
    (hn : ses n = some o) (hm : ses m = some s) (ho : Seat strict l o other)
    (hadmits : l.Admits o) (hafter : (l.commit o).2.Admits s) :
    Seat strict (l.commit o).2 s desk := by
  have hp := hsound.passed hne hn hm hadmits hafter
  refine ⟨?_, fun id => ?_, h.paid.committed hp, h.fits_committed ho hp⟩
  · obtain ⟨ps, hps, hmoves⟩ := h.moves
    obtain ⟨qs, hqs, hmoves_other, happly⟩ := ho.apply_eq
    refine ⟨ps, hps, ?_⟩
    rw [hp.tables, happly]
    exact hmoves.again hl hmoves_other
      (.of_changes hps hqs hp.apart (hsound.apart m n s o hne.symm hm hn))
  · rw [hp.tables]
    rcases hp.submission_row id with ⟨hrow, hseen⟩ | ⟨-, hseen, -⟩
    · rcases h.submissions id with heq | hnone | hlock
      · exact .inl (hseen.trans (heq.trans hrow.symm))
      · exact .inr (.inl (hrow.trans hnone))
      · exact .inr (.inr (hp.locks_kept _ hlock))
    · exact .inl hseen

end Committed

/-! ## Steps of the session itself -/

/-- **The session makes moves** on what its commit would leave. -/
theorem step (h : Seat strict l s desk) (hl : l.Grants s.id l') {qs : List Put}
    (hid : s'.id = s.id) (hs : s'.changes = s.changes.putAll qs)
    (hmoves : Moves strict (l.tables.apply s.changes) qs)
    (hsubmissions : ∀ x, Put.submission x ∈ qs →
      l.tables.submissions.get? x.id = none ∨ l'.locks ⟨.submission, x.id⟩ = some s.id)
    (hpaid : ∀ i, Put.invoice i ∈ qs → i.status = .paid →
      (∃ j, (l.tables.apply s.changes).invoices.get? i.id = some j ∧ j.status = .paid) ∨
        (l.tables.apply s.changes).invoices.get? i.id = none ∨
        l'.locks ⟨.invoice, i.id⟩ = some s.id)
    (hfits : desk'.Fits l' s') : Seat strict l' s' desk' := by
  obtain ⟨ps, hps, hdone, happly⟩ := h.apply_eq
  have after : l'.tables.apply s'.changes = (l.tables.apply s.changes).putAll qs := by
    rw [hl.tables, hs]
    exact Tables.apply_putAll _ _ hmoves.no_limit
  refine ⟨⟨ps ++ qs, ?_, ?_⟩, fun id => ?_, h.paid.step hl hid hs hmoves.no_limit hpaid, hfits⟩
  · rw [hs, hps, ← Changes.putAll_append]
  · rw [hl.tables]
    exact hdone.append (happly ▸ hmoves)
  · rw [after, hl.tables, hid]
    rcases Tables.submission_putAll (l.tables.apply s.changes) qs id with
      ⟨hget, -⟩ | ⟨x, hx, rfl, -⟩
    · rw [hget]
      exact (h.submissions id).imp_right (Or.imp_right hl.locks_own)
    · exact .inr (hsubmissions x hx)

/-- The session only reads, or does nothing at all. -/
theorem idle (h : Seat strict l s desk) (hl : l.Grants s.id l') (hid : s'.id = s.id)
    (hs : s'.changes = s.changes) (hfits : desk'.Fits l' s') : Seat strict l' s' desk' :=
  h.step hl hid (hs.trans s.changes.putAll_nil.symm) (.nil _) (fun _ hx => nomatch hx)
    (fun _ hi => nomatch hi) hfits

/-- A direct call that reads or stores an invoice. -/
theorem call (h : Seat strict l s desk) (hh : l.Hosts s) {c : StoreCall} (hc : c.Plain)
    (hpos : ∀ new, c = .insertInvoice new → strict → 0 < new.amount.units) :
    Seat strict (s.answer l c).2.1 (s.answer l c).2.2 .free := by
  have hl := s.answer_ledger l c
  have hid := hh.answer_id c
  have hs := hh.answer_changes c
  rcases hc with hreads | ⟨new, rfl⟩
  · rw [s.writes_of_reads l hreads] at hs
    exact h.idle hl hid hs trivial
  · have hmove := hh.insert strict new (hpos new rfl)
    refine h.step hl hid hs hmove.moves (by simp [Session.writes]) (fun i hi hpaid => .inr (.inl ?_))
      trivial
    obtain rfl : i = new.withId l.newId.1 := by simpa [Session.writes] using hi
    exact Option.not_isSome_iff_eq_none.1 fun hused => hh.newId_unused (.inl hused)

section Workflows

variable {w : Workflow} {held : List Ident} {y : Workflow × Ledger × Session}

/-- What is held stays held. -/
theorem held_kept (h : Seat strict l s (.workflow w held)) (hl : l.Grants s.id l')
    (hs : s.Onward s') : ∀ id ∈ held, l'.locks ⟨.submission, id⟩ = some s'.id ∨
      ⟨.submission, id⟩ ∈ s'.changes.written ∧ l'.tables.submissions.get? id = none := by
  intro id hid
  rw [hs.id, hl.tables]
  exact (h.fits.1 id hid).imp hl.locks_own (And.imp_left (hs.written _))

/-- What is held may be ended. -/
theorem may_end (h : Seat strict l s (.workflow w held)) (hl : l.Grants s.id l') {id : Ident}
    (hid : id ∈ held) :
    l.tables.submissions.get? id = none ∨ l'.locks ⟨.submission, id⟩ = some s.id :=
  (h.fits.1 id hid).elim (fun hlock => .inr (hl.locks_own hlock)) fun hnew => .inl hnew.2

/-- The workflow has failed and has the copy that it had. -/
theorem failed (h : Seat strict l s (.workflow w held)) (hl : l.Grants s.id l') (hon : s.Onward s')
    {w' : Workflow} (huntouched : Service.Untouched w l s (w', l', s')) :
    Seat strict l' s' (.workflow w' held) := by
  have hs : s'.changes = s.changes := huntouched.changes
  have hw : w' = w := huntouched.state
  refine h.idle hl hon.id hs ⟨h.held_kept hl hon, fun c hc hmem => ?_⟩
  rw [hl.tables, hs]
  exact h.fits.2 c (hw ▸ hc) hmem

theorem load (h : Seat strict l s (.workflow w held)) (hh : l.Hosts s) {q : Query .submission}
    {r : Except Failure Submission} (hends : (Workflow.load q).Ends (w, l, s) r y) :
    Seat strict y.2.1 y.2.2 (.loaded q held r y.1) := by
  obtain ⟨hl, honward, -⟩ := hends.leads hh
  obtain ⟨hs, hresult⟩ := Workflow.load_ends hh hends
  have hkept := h.held_kept hl honward
  have changes_eq : y.2.2.changes = s.changes := by
    rw [hs]
    rfl
  rcases hresult with ⟨⟨e, rfl⟩, huntouched⟩ | ⟨c, rfl, hw, hthere, hlock⟩
  · exact h.failed hl honward huntouched
  · refine h.idle hl honward.id changes_eq ⟨fun id hid => ?_, fun c' hc' _ => ?_⟩
    · split at hid
      next hlocked =>
        rcases List.mem_cons.1 hid with rfl | hid
        · rw [honward.id]
          exact .inl (hlock hlocked)
        · exact hkept id hid
      next => exact hkept id hid
    · rw [hw] at hc'
      cases hc'
      rw [hl.tables, changes_eq]
      exact hthere

theorem create (h : Seat strict l s (.workflow w held)) (hh : l.Hosts s) {q : Query .invoice}
    {receipt : String} {amount : Money} {r : Except Failure Submission}
    (hends : (Workflow.create q receipt amount).Ends (w, l, s) r y)
    (hexact : strict → Invoice.SumsExactly (q.select (l.tables.apply s.changes))) :
    Seat strict y.2.1 y.2.2 (.created held r y.1) := by
  obtain ⟨hl, honward, -⟩ := hends.leads hh
  have hkept := h.held_kept hl honward
  rcases Workflow.create_ends strict hh hends with ⟨⟨e, rfl⟩, huntouched⟩ | ⟨x, qs, rfl, hcreated⟩
  · exact h.failed hl honward huntouched
  · have new : l.tables.submissions.get? x.id = none := Tables.eq_none_of_apply.1 hcreated.new
    refine h.step hl honward.id hcreated.changes (hcreated.move hexact).moves (fun z hz => ?_)
      (fun i hi hpaid => ?_) ⟨fun id hid => ?_, fun c hc _ => ?_⟩
    · rw [hcreated.heads.eq_of_mem hz]
      exact .inl new
    · obtain ⟨j, -, hunpaid, rfl⟩ := hcreated.takes i hi
      cases hunpaid.symm.trans hpaid
    · rcases List.mem_cons.1 hid with rfl | hid
      -- a new submission needs no lock, because nobody else can see it
      · refine .inr ⟨?_, by rw [hl.tables]; exact new⟩
        rw [hcreated.changes]
        exact Changes.mem_written_putAll.2 (.inl ⟨_, hcreated.heads.mem, rfl⟩)
      · exact hkept id hid
    · cases hcreated.data.symm.trans hc
      rw [hl.tables, hcreated.changes, Tables.apply_putAll _ _ hcreated.heads.no_limit,
        hcreated.heads.get?_putAll, if_pos rfl]

theorem accept (h : Seat strict l s (.workflow w held)) (hh : l.Hosts s)
    (hl₀ : Built strict l.tables) (hholding : (Desk.workflow w held).Holding)
    {r : Except Failure AcceptOutcome} (hends : Workflow.accept.Ends (w, l, s) r y)
    (hexact : strict → ∀ c, w.data = some c → Invoice.SumsExactly
      ((Query.invoicesOf c.id true).select (l.tables.apply s.changes))) :
    Seat strict y.2.1 y.2.2 (.workflow y.1 held) := by
  obtain ⟨hl, honward, -⟩ := hends.leads hh
  have hkept := h.held_kept hl honward
  have hbuilt := h.built hl₀
  have hpositive : strict → ∀ id i, (l.tables.apply s.changes).invoices.get? id = some i →
      0 < i.amount.units := fun hs id i hi => hbuilt.positive hs hi
  rcases Workflow.accept_ends strict hh hpositive hends with
    ⟨-, huntouched⟩ | ⟨-, c, x, qs, haccepted⟩
  · exact h.failed hl honward huntouched
  · have hmem := hholding c haccepted.copy
    -- the copy is the row
    obtain rfl : x = c := by
      have hthere := h.fits.2 c haccepted.copy hmem
      cases haccepted.seen.symm.trans hthere
      rfl
    refine h.step hl honward.id haccepted.changes
      (haccepted.moves hbuilt rfl fun hs => hexact hs x haccepted.copy) (fun z hz => ?_)
      (fun i hi hpaid => .inr (.inr (haccepted.locked i hi hpaid)))
      ⟨hkept, fun c' hc' _ => ?_⟩
    · rw [haccepted.heads.eq_of_mem hz]
      exact h.may_end hl hmem
    · cases haccepted.data.symm.trans hc'
      rw [hl.tables, haccepted.changes, Tables.apply_putAll _ _ haccepted.heads.no_limit,
        haccepted.heads.get?_putAll, if_pos rfl]

theorem reject (h : Seat strict l s (.workflow w held)) (hh : l.Hosts s)
    (hl₀ : Built strict l.tables) (hholding : (Desk.workflow w held).Holding)
    {r : Except Failure Nat} (hends : Workflow.reject.Ends (w, l, s) r y)
    (hafter : y.2.1.Admits y.2.2) : Seat strict y.2.1 y.2.2 (.workflow y.1 held) := by
  obtain ⟨hl, honward, -⟩ := hends.leads hh
  have hkept := h.held_kept hl honward
  rcases Workflow.reject_ends strict hh hends with ⟨-, huntouched⟩ | ⟨-, c, x, qs, hrejected⟩
  · exact h.failed hl honward huntouched
  · have hmem := hholding c hrejected.copy
    have hthere := h.fits.2 c hrejected.copy hmem
    -- the row was seen on a view that may be old, but its version has not moved
    obtain rfl : x = c := by
      have hid : x.id = c.id := hh.fits.view_keyed.submissions _ _ hrejected.seen
      have version : l.versions ⟨.submission, x.id⟩ = s.base ⟨.submission, x.id⟩ := by
        rw [← hl.versions, ← hrejected.noted]
        refine hafter _ ?_
        rw [hrejected.changes]
        exact Changes.mem_written_putAll.2 (.inl ⟨_, hrejected.heads.mem, rfl⟩)
      have same : (l.tables.apply s.changes).submissions.get? x.id = s.view.submissions.get? x.id :=
        hh.fits.sameRow_view version
      rw [hid, hthere, hrejected.seen] at same
      exact (Option.some.inj same).symm
    refine h.step hl honward.id hrejected.changes
      (hrejected.moves (h.built hl₀) rfl hthere) (fun z hz => ?_) (fun i hi hpaid => ?_)
      ⟨hkept, fun c' hc' _ => ?_⟩
    · rw [hrejected.heads.eq_of_mem hz]
      exact h.may_end hl hmem
    · obtain ⟨j, hj, rfl⟩ := hrejected.frees i hi
      exact .inl ⟨j, hj, hpaid⟩
    · cases hrejected.data.symm.trans hc'
      rw [hl.tables, hrejected.changes, Tables.apply_putAll _ _ hrejected.heads.no_limit,
        hrejected.heads.get?_putAll, if_pos rfl]

end Workflows

section Managers

variable {set : Readjustment.WorkingSet} {origin : Origin}
  {y : Readjustment.WorkingSet × Ledger × Session}

theorem gather (h : Seat strict l s (.manager set origin)) (hh : l.Hosts s) {q : Query .invoice}
    {r : Except Failure (List Invoice)} (hends : (Readjustment.load q).Ends (set, l, s) r y) :
    Seat strict y.2.1 y.2.2 (.gathered q origin r y.1) := by
  obtain ⟨hl, honward, -⟩ := hends.leads hh
  obtain ⟨hs, hresult⟩ := Readjustment.load_ends hh hends
  have changes_eq : y.2.2.changes = s.changes := by
    rw [hs]
    rfl
  refine h.idle hl honward.id changes_eq ?_
  rcases hresult with ⟨⟨e, rfl⟩, hset⟩ | ⟨⟨a, rfl⟩, -⟩
  · cases origin with
    | given => trivial
    | loaded locked current =>
      rw [hset]
      exact Readjustment.Watched.outdated h.fits hl honward.id changes_eq
  · exact Readjustment.watched_of_load hh hends ⟨a, rfl⟩

theorem readjust (h : Seat strict l s (.manager set origin)) (hh : l.Hosts s)
    (hloaded : (Desk.manager set origin).Loaded) {a : Readjustment}
    {r : Except Failure Readjustment.Outcome} (hends : a.apply.Ends (set, l, s) r y)
    (hafter : y.2.1.Admits y.2.2) (hguarded : strict → (Desk.manager set origin).Guarded) :
    Seat strict y.2.1 y.2.2 (.manager y.1 origin) := by
  obtain ⟨hl, honward, -⟩ := hends.leads hh
  obtain ⟨zs, added, hdone⟩ := Readjustment.apply_ends strict hh hends
  cases origin with
  | given => exact hloaded.elim
  | loaded locked current =>
    have hmoves := hdone.moves fun z hz => by
      obtain ⟨i, hthere, -, hzi⟩ := hdone.cancels_current hh hl hafter hz
      refine ⟨i, hthere, hzi, fun hs => ?_⟩
      exact hdone.cancels_unpaid h.fits hh hl hafter (hguarded hs) hz hthere
    exact h.step hl honward.id hdone.changes hmoves (by simp)
      (fun i hi hpaid => absurd hpaid (hdone.written_unpaid hi)) (hdone.watched h.fits hl honward)

end Managers

end Seat

end TeamLedger
