/-
What can become of an invoice.

Who changes an invoice replaces its whole row by one that it took from its view,
and the view may be old. But a session that can commit has changed only rows that
nobody else has changed behind its view, so each change is made to the row as it
is: it flags the row, settles it, or cancels it. Flagging touches nothing that
matters, and only what is not paid is settled.

Cancelling is decided by a working set. A set that is locked or current has no
paid invoice that it takes to be open (`Readjustment.Watched`). A set without
locks, kept after a later loading has failed, may have one: then a paid invoice
is cancelled, and this is all that can go wrong. It is not an invoice that the
same session has paid, since what the session has written itself it sees in every
loading.
-/
import TeamLedger.Proofs.Creating
import TeamLedger.Proofs.Paying
import TeamLedger.Proofs.Rejecting
import TeamLedger.Proofs.Runs
import TeamLedger.Proofs.WorkingSets

set_option autoImplicit false

namespace TeamLedger

/-! ## One life -/

namespace Invoice

/-- What is fixed when an invoice is stored. -/
structure Same (i j : Invoice) : Prop where
  id : j.id = i.id
  fromTeam : j.fromTeam = i.fromTeam
  toTeam : j.toTeam = i.toTeam
  kind : j.kind = i.kind
  amount : j.amount = i.amount
  txId : j.txId = i.txId
  orderId : j.orderId = i.orderId
  needAdjustment : j.needAdjustment = i.needAdjustment
  created : j.created = i.created

/-- What settling leaves on an invoice. -/
def stamps (i : Invoice) : Option Ident × Option Instant × Option Instant :=
  (i.historyId, i.paidAt, i.acceptedAt)

/-- The second invoice is the first one at a later time: it is open still, or it has been paid or
cancelled since and carries the stamps that it was paid with. -/
structure Becomes (i j : Invoice) : Prop where
  same : i.Same j
  status : j.status = i.status ∨ i.Open ∧ j.status = .cancelled ∨
    i.status = .notPaid ∧ j.status = .paid
  stamps : j.stamps = i.stamps ∨ i.status = .notPaid ∧ j.status = .paid

/-- The second invoice is the first one, which was paid and is cancelled with its stamps on. -/
structure Overturned (i j : Invoice) : Prop where
  same : i.Same j
  paid : i.status = .paid
  cancelled : j.status = .cancelled
  stamps : j.stamps = i.stamps

variable {i j k : Invoice}

theorem Same.revised (i : Invoice) (status : Status) (flag : Bool) (historyId : Option Ident)
    (paidAt acceptedAt : Option Instant) : i.Same { i with
      status, hasSubmission := flag, historyId, paidAt, acceptedAt } :=
  ⟨rfl, rfl, rfl, rfl, rfl, rfl, rfl, rfl, rfl⟩

theorem Same.trans (h : i.Same j) (h' : j.Same k) : i.Same k where
  id := h'.id.trans h.id
  fromTeam := h'.fromTeam.trans h.fromTeam
  toTeam := h'.toTeam.trans h.toTeam
  kind := h'.kind.trans h.kind
  amount := h'.amount.trans h.amount
  txId := h'.txId.trans h.txId
  orderId := h'.orderId.trans h.orderId
  needAdjustment := h'.needAdjustment.trans h.needAdjustment
  created := h'.created.trans h.created

namespace Becomes

theorem refl (i : Invoice) : i.Becomes i := ⟨.revised i .., .inl rfl, .inl rfl⟩

theorem flagged (i : Invoice) (flag : Bool) : i.Becomes { i with hasSubmission := flag } :=
  ⟨.revised i .., .inl rfl, .inl rfl⟩

theorem settled (h : i.status = .notPaid) (settlement : Settlement) :
    i.Becomes (i.settled settlement) :=
  ⟨.revised i .., .inr (.inr ⟨h, rfl⟩), .inr ⟨h, rfl⟩⟩

theorem cancelled (h : i.status ≠ .paid) : i.Becomes { i with status := .cancelled } := by
  refine ⟨.revised i .., ?_, .inl rfl⟩
  cases hstatus : i.status with
  | notFinal => exact .inr (.inl ⟨.inl hstatus, rfl⟩)
  | notPaid => exact .inr (.inl ⟨.inr hstatus, rfl⟩)
  | paid => exact absurd hstatus h
  | cancelled => exact .inl rfl

theorem trans (h : i.Becomes j) (h' : j.Becomes k) : i.Becomes k := by
  refine ⟨h.same.trans h'.same, ?_, ?_⟩
  · -- only what has not changed yet can change
    rcases h.status with hj | ⟨hopen, hj⟩ | ⟨hunpaid, hj⟩
    · have open_iff : j.Open ↔ i.Open := by
        unfold Open
        rw [hj]
      rw [← hj, ← open_iff]
      exact h'.status
    · rcases h'.status with hk | ⟨hopen', -⟩ | ⟨hunpaid', -⟩
      · exact .inr (.inl ⟨hopen, hk.trans hj⟩)
      · rcases hopen' with hstatus | hstatus <;> cases hj.symm.trans hstatus
      · cases hj.symm.trans hunpaid'
    · rcases h'.status with hk | ⟨hopen', -⟩ | ⟨hunpaid', -⟩
      · exact .inr (.inr ⟨hunpaid, hk.trans hj⟩)
      · rcases hopen' with hstatus | hstatus <;> cases hj.symm.trans hstatus
      · cases hj.symm.trans hunpaid'
  · rcases h'.stamps with hk | ⟨hunpaid', hk⟩
    · rcases h.stamps with hj | ⟨hunpaid, hj⟩
      · exact .inl (hk.trans hj)
      · rcases h'.status with hk' | ⟨hopen', -⟩ | ⟨hunpaid', -⟩
        · exact .inr ⟨hunpaid, hk'.trans hj⟩
        · rcases hopen' with hstatus | hstatus <;> cases hj.symm.trans hstatus
        · cases hj.symm.trans hunpaid'
    · rcases h.status with hj | ⟨-, hj⟩ | ⟨-, hj⟩
      · exact .inr ⟨hj.symm.trans hunpaid', hk⟩
      · cases hj.symm.trans hunpaid'
      · cases hj.symm.trans hunpaid'

end Becomes

theorem Overturned.of_paid (h : i.status = .paid) : i.Overturned { i with status := .cancelled } :=
  ⟨.revised i .., h, rfl, rfl⟩

/-- What was cancelled stays so. -/
theorem Overturned.trans (h : i.Overturned j) (h' : j.Becomes k) : i.Overturned k := by
  have cancelled : k.status = .cancelled := by
    rcases h'.status with hk | ⟨-, hk⟩ | ⟨hunpaid, -⟩
    · exact hk.trans h.cancelled
    · exact hk
    · cases h.cancelled.symm.trans hunpaid
  refine ⟨h.same.trans h'.same, h.paid, cancelled, ?_⟩
  rcases h'.stamps with hk | ⟨hunpaid, -⟩
  · exact hk.trans h.stamps
  · cases h.cancelled.symm.trans hunpaid

/-- An invoice at a later time, after a run of which it is known whether readjustments are careful. -/
def Follows (careful : Prop) (i j : Invoice) : Prop := i.Becomes j ∨ ¬ careful ∧ i.Overturned j

theorem Follows.refl (careful : Prop) (i : Invoice) : i.Follows careful i := .inl (.refl i)

theorem Follows.trans {careful : Prop} (h : i.Follows careful j) (h' : j.Becomes k) :
    i.Follows careful k :=
  h.imp (fun h => h.trans h') (And.imp_right fun h => h.trans h')

end Invoice

/-! ## Sessions that can commit -/

/-- What the session has written itself it does not have as open in its working set if it is paid. -/
def Desk.OwnUnpaid (s : Session) : Desk → Prop
  | .manager set (.loaded ..) => ∀ i ∈ set, i.Open → ∀ j, s.changes.invoices.get? i.id = some j →
      j.status ≠ .paid
  | .manager _ .given | .free | .workflow .. => True

/-- The working set of a manager is watched. -/
def Desk.Watched (l : Ledger) (s : Session) : Desk → Prop
  | .manager set (.loaded locked current) => Readjustment.Watched l s locked current set
  | .manager _ .given | .free | .workflow .. => True

/-- A session that can commit: what its commit would leave of every invoice is what that invoice may
become. -/
structure Tended (careful : Prop) (l : Ledger) (s : Session) (desk : Desk) : Prop where
  rows : ∀ id i, l.tables.invoices.get? id = some i →
    ∃ j, (l.tables.apply s.changes).invoices.get? id = some j ∧ i.Follows careful j
  paid : l.PaysLocked s
  watched : desk.Watched l s
  own : desk.OwnUnpaid s

namespace Tended

variable {careful : Prop} {l l' : Ledger} {s s' o : Session} {desk desk' : Desk}

/-- A session that has just begun. -/
theorem begun (id : SessionId) (snapshot : Tables) (base : RowKey → Nat) :
    Tended careful l { id, snapshot, base } .free where
  rows id i hi := by
    rw [Tables.apply_empty]
    exact ⟨i, hi, .refl careful i⟩
  paid := .begun
  watched := trivial
  own := trivial

theorem transfer (h : Tended careful l s desk) {teams : Rows Team}
    (ht : l'.tables = { l.tables with teams })
    (hlocks : ∀ k, l.locks k = some s.id → l'.locks k = some s.id) : Tended careful l' s desk where
  rows id i hi := by
    rw [ht] at hi ⊢
    exact h.rows id i hi
  paid := h.paid.transfer ht hlocks
  watched := by
    have hwatched := h.watched
    cases desk with
    | free | workflow w held => trivial
    | manager set origin =>
      cases origin with
      | given => trivial
      | loaded locked current => exact Readjustment.Watched.transfer hwatched ht hlocks
  own := h.own

/-- **Someone else commits.** An invoice that the other has written this session has not. -/
theorem committed (h : Tended careful l s desk) (hp : l.Passed o s l') (ho : l.PaysLocked o) :
    Tended careful l' s desk where
  rows id i hi := by
    rw [hp.tables] at hi ⊢
    rcases hp.invoice_row id with ⟨hrow, hseen⟩ | ⟨-, hseen, -⟩
    · rw [hseen]
      exact h.rows id i (hrow.symm.trans hi)
    · exact ⟨i, hseen.trans hi, .refl careful i⟩
  paid := h.paid.committed hp
  watched := by
    have hwatched := h.watched
    cases desk with
    | free | workflow w held => trivial
    | manager set origin =>
      cases origin with
      | given => trivial
      | loaded locked current => exact Readjustment.Watched.committed hwatched hp ho
  own := h.own

/-! ### Steps of the session itself -/

/-- **The session writes.** Every invoice that it writes is new, or follows on the committed one. -/
theorem step (h : Tended careful l s desk) (hl : l.Grants s.id l') {qs : List Put}
    (hid : s'.id = s.id) (hs : s'.changes = s.changes.putAll qs) (hlimit : ∀ x, Put.limit x ∉ qs)
    (hrows : ∀ j, Put.invoice j ∈ qs → (l.tables.apply s.changes).invoices.get? j.id = none ∨
      ∀ i, l.tables.invoices.get? j.id = some i → i.Follows careful j)
    (hpaid : ∀ i, Put.invoice i ∈ qs → i.status = .paid →
      (∃ j, (l.tables.apply s.changes).invoices.get? i.id = some j ∧ j.status = .paid) ∨
        (l.tables.apply s.changes).invoices.get? i.id = none ∨
        l'.locks ⟨.invoice, i.id⟩ = some s.id)
    (hwatched : desk'.Watched l' s') (hown : desk'.OwnUnpaid s') :
    Tended careful l' s' desk' where
  rows id i hi := by
    rw [hl.tables] at hi ⊢
    rw [hs, Tables.apply_putAll _ _ hlimit]
    obtain ⟨j, hj, hfollows⟩ := h.rows id i hi
    rcases Tables.invoice_putAll (l.tables.apply s.changes) qs id with
      ⟨hget, -⟩ | ⟨k, hk, rfl, hget⟩
    · exact ⟨j, hget.trans hj, hfollows⟩
    · rcases hrows k hk with hnone | hcommitted
      · cases hj.symm.trans hnone
      · exact ⟨k, hget, hcommitted i hi⟩
  paid := h.paid.step hl hid hs hlimit hpaid
  watched := hwatched
  own := hown

/-- An invoice follows on the committed one if it does on the row that the session would leave. -/
theorem follows (h : Tended careful l s desk) {id : Ident} {j k : Invoice}
    (hj : (l.tables.apply s.changes).invoices.get? id = some j) (hk : j.Becomes k) :
    ∀ i, l.tables.invoices.get? id = some i → i.Follows careful k := by
  intro i hi
  obtain ⟨j', hj', hfollows⟩ := h.rows id i hi
  cases hj.symm.trans hj'
  exact hfollows.trans hk

/-- The session only reads, or does nothing at all. -/
theorem idle (h : Tended careful l s desk) (hl : l.Grants s.id l') (hid : s'.id = s.id)
    (hs : s'.changes = s.changes) (hwatched : desk'.Watched l' s') (hown : desk'.OwnUnpaid s') :
    Tended careful l' s' desk' :=
  h.step hl hid (hs.trans s.changes.putAll_nil.symm) (fun _ hx => nomatch hx) (fun _ hj => nomatch hj)
    (fun _ hi => nomatch hi) hwatched hown

/-- A direct call that reads or stores an invoice. -/
theorem call (h : Tended careful l s desk) (hh : l.Hosts s) {c : StoreCall} (hc : c.Plain) :
    Tended careful (s.answer l c).2.1 (s.answer l c).2.2 .free := by
  have hl := s.answer_ledger l c
  have hid := hh.answer_id c
  have hs := hh.answer_changes c
  rcases hc with hreads | ⟨new, rfl⟩
  · rw [s.writes_of_reads l hreads] at hs
    exact h.idle hl hid hs trivial trivial
  · have stored_new : ∀ j, Put.invoice j ∈ s.writes l (.insertInvoice new) →
        (l.tables.apply s.changes).invoices.get? j.id = none := by
      intro j hj
      obtain rfl : j = new.withId l.newId.1 := by simpa [Session.writes] using hj
      exact Option.not_isSome_iff_eq_none.1 fun hused => hh.newId_unused (.inl hused)
    exact h.step hl hid hs (by simp [Session.writes]) (fun j hj => .inl (stored_new j hj))
      (fun j hj _ => .inr (.inl (stored_new j hj))) trivial trivial

section Workflows

variable {w : Workflow} {held : List Ident} {y : Workflow × Ledger × Session}

theorem load (h : Tended careful l s (.workflow w held)) (hh : l.Hosts s) {q : Query .submission}
    {r : Except Failure Submission} (hends : (Workflow.load q).Ends (w, l, s) r y) :
    Tended careful y.2.1 y.2.2 (.loaded q held r y.1) := by
  obtain ⟨hl, honward, -⟩ := hends.leads hh
  have changes_eq : y.2.2.changes = s.changes := by
    rw [(Workflow.load_ends hh hends).1]
    rfl
  cases r <;> exact h.idle hl honward.id changes_eq trivial trivial

theorem create (h : Tended careful l s (.workflow w held)) (hh : l.Hosts s) {q : Query .invoice}
    {receipt : String} {amount : Money} {r : Except Failure Submission}
    (hends : (Workflow.create q receipt amount).Ends (w, l, s) r y) :
    Tended careful y.2.1 y.2.2 (.created held r y.1) := by
  obtain ⟨hl, honward, -⟩ := hends.leads hh
  rcases Workflow.create_ends False hh hends with ⟨⟨e, rfl⟩, huntouched⟩ | ⟨x, qs, rfl, hcreated⟩
  · exact h.idle hl honward.id huntouched.changes trivial trivial
  · refine h.step hl honward.id hcreated.changes hcreated.heads.no_limit (fun i hi => .inr ?_)
      (fun i hi hpaid => ?_) trivial trivial
    · obtain ⟨j, hj, -, rfl⟩ := hcreated.takes i hi
      exact h.follows hj (.flagged j true)
    · obtain ⟨j, -, hunpaid, rfl⟩ := hcreated.takes i hi
      cases hunpaid.symm.trans hpaid

theorem accept (h : Tended careful l s (.workflow w held)) (hh : l.Hosts s)
    {r : Except Failure AcceptOutcome} (hends : Workflow.accept.Ends (w, l, s) r y) :
    Tended careful y.2.1 y.2.2 (.workflow y.1 held) := by
  obtain ⟨hl, honward, -⟩ := hends.leads hh
  rcases Workflow.accept_ends False hh (fun h => h.elim) hends with
    ⟨-, huntouched⟩ | ⟨-, c, x, qs, haccepted⟩
  · exact h.idle hl honward.id huntouched.changes trivial trivial
  · refine h.step hl honward.id haccepted.changes haccepted.heads.no_limit (fun i hi => ?_)
      (fun i hi hpaid => .inr (.inr (haccepted.locked i hi hpaid))) trivial trivial
    rcases haccepted.settles i hi with hnone | ⟨j, settlement, hj, hunpaid, rfl⟩
    · exact .inl hnone
    · exact .inr (h.follows hj (.settled hunpaid settlement))

theorem reject (h : Tended careful l s (.workflow w held)) (hh : l.Hosts s)
    {r : Except Failure Nat} (hends : Workflow.reject.Ends (w, l, s) r y) :
    Tended careful y.2.1 y.2.2 (.workflow y.1 held) := by
  obtain ⟨hl, honward, -⟩ := hends.leads hh
  rcases Workflow.reject_ends False hh hends with ⟨-, huntouched⟩ | ⟨-, c, x, qs, hrejected⟩
  · exact h.idle hl honward.id huntouched.changes trivial trivial
  · refine h.step hl honward.id hrejected.changes hrejected.heads.no_limit (fun i hi => .inr ?_)
      (fun i hi hpaid => ?_) trivial trivial
    · obtain ⟨j, hj, rfl⟩ := hrejected.frees i hi
      exact h.follows hj (.flagged j false)
    · obtain ⟨j, hj, rfl⟩ := hrejected.frees i hi
      exact .inl ⟨j, hj, hpaid⟩

end Workflows

section Managers

variable {set : Readjustment.WorkingSet} {origin : Origin}
  {y : Readjustment.WorkingSet × Ledger × Session}

theorem gather (h : Tended careful l s (.manager set origin)) (hh : l.Hosts s) {q : Query .invoice}
    {r : Except Failure (List Invoice)} (hends : (Readjustment.load q).Ends (set, l, s) r y) :
    Tended careful y.2.1 y.2.2 (.gathered q origin r y.1) := by
  obtain ⟨hl, honward, -⟩ := hends.leads hh
  obtain ⟨hs, hresult⟩ := Readjustment.load_ends hh hends
  have changes_eq : y.2.2.changes = s.changes := by
    rw [hs]
    rfl
  rcases hresult with ⟨⟨e, rfl⟩, hset⟩ | ⟨⟨a, rfl⟩, hset⟩
  · have hwatched := h.watched
    have hown := h.own
    refine h.idle hl honward.id changes_eq ?_ ?_
    · cases origin with
      | given => trivial
      | loaded locked current =>
        rw [hset]
        exact Readjustment.Watched.outdated hwatched hl honward.id changes_eq
    · cases origin with
      | given => trivial
      | loaded locked current =>
        intro i hi hopen j hj
        rw [hset] at hi
        rw [changes_eq] at hj
        exact hown i hi hopen j hj
  · refine h.idle hl honward.id changes_eq (Readjustment.watched_of_load hh hends ⟨a, rfl⟩) ?_
    intro i hi hopen j hj
    rw [changes_eq] at hj
    -- what the session has written is what it has loaded
    have written : (l.tables.apply s.changes).invoices.get? i.id = some j := by
      show (l.tables.invoices.overlay s.changes.invoices).get? i.id = some j
      rw [Rows.get?_overlay, hj, Option.some_or]
    cases (hset i hi).1.symm.trans written
    intro hpaid
    rcases hopen with hstatus | hstatus <;> cases hstatus.symm.trans hpaid

theorem readjust (h : Tended careful l s (.manager set origin)) (hh : l.Hosts s)
    (hloaded : (Desk.manager set origin).Loaded) {a : Readjustment}
    {r : Except Failure Readjustment.Outcome} (hends : a.apply.Ends (set, l, s) r y)
    (hafter : y.2.1.Admits y.2.2) (hguarded : careful → (Desk.manager set origin).Guarded) :
    Tended careful y.2.1 y.2.2 (.manager y.1 origin) := by
  obtain ⟨hl, honward, -⟩ := hends.leads hh
  obtain ⟨zs, added, hdone⟩ := Readjustment.apply_ends False hh hends
  have hown := h.own
  cases origin with
  | given => exact hloaded.elim
  | loaded locked current =>
    refine h.step hl honward.id hdone.changes (by simp) (fun z hz => ?_)
      (fun i hi hpaid => absurd hpaid (hdone.written_unpaid hi)) (hdone.watched h.watched hl honward) ?_
    · rcases List.mem_append.1 (show z ∈ zs ++ added by simpa using hz) with hz | hz
      · obtain ⟨j, hj, -, hzj⟩ := hdone.cancels_current hh hl hafter hz
        refine .inr fun i hi => ?_
        by_cases hpaid : j.status = .paid
        case neg =>
          refine h.follows hj ?_ i hi
          rw [hzj]
          exact .cancelled hpaid
        case pos =>
          -- the session has not written the row, so it is the committed one
          obtain ⟨-, i₀, hi₀, hopen, hid⟩ := hdone.cancels z hz
          have unwritten : s.changes.invoices.get? z.id = none := by
            cases hwritten : s.changes.invoices.get? z.id with
            | none => rfl
            | some j' =>
              have hj' : (l.tables.invoices.overlay s.changes.invoices).get? z.id = some j := hj
              rw [Rows.get?_overlay, hwritten, Option.some_or] at hj'
              cases hj'
              exact absurd hpaid (hown i₀ hi₀ hopen j (hid ▸ hwritten))
          have hcommitted : (l.tables.invoices.overlay s.changes.invoices).get? z.id = some j := hj
          rw [Rows.get?_overlay, unwritten, Option.none_or, hi] at hcommitted
          cases hcommitted
          refine .inr ⟨fun hcareful => ?_, ?_⟩
          · exact hdone.cancels_unpaid h.watched hh hl hafter (hguarded hcareful) hz hj hpaid
          · rw [hzj]
            exact .of_paid hpaid
      · exact .inl (hdone.added_new z hz)
    · intro i hi hopen j hj hpaid
      rw [hdone.changes] at hj
      rcases s.changes.invoice_putAll ((zs ++ added).map .invoice) i.id with
        ⟨hget, hne⟩ | ⟨k, hk, -, hget⟩
      · rcases hdone.set_open i hi hopen with hi | hi
        · exact hown i hi hopen j (hget.symm.trans hj) hpaid
        · exact hne i (List.mem_map_of_mem (List.mem_append_right _ hi)) rfl
      · cases hj.symm.trans hget
        exact hdone.written_unpaid hk hpaid

end Managers

end Tended

/-! ## Runs -/

namespace Floor

variable {careful : Prop} {f : Floor}

/-- Managers work on sets that they have loaded. -/
def Tending (f : Floor) : Event → Prop
  | .act name (.readjust _) => (f.desk name).Loaded
  | _ => True

/-- The session is tended, if it can commit. -/
def Lively (careful : Prop) (l : Ledger) (s : Session) (desk : Desk) (_ : List Ending) : Prop :=
  l.Admits s → Tended careful l s desk

theorem lively_stable : Stable (fun _ => True) (Lively careful) where
  empty := trivial
  teams _ _ _ := trivial
  begun l id snapshot base _ := Tended.begun id snapshot base
  spared l l' s d es ts _ h ht hv hlocks hadmits := by
    refine (h ?_).transfer ht hlocks
    unfold Ledger.Admits at hadmits ⊢
    rwa [hv] at hadmits
  commits _ _ _ _ _ _ _ := trivial
  others l ses n m o s d d' es es' hsound _ hne hn hm ho h hadmits hafter :=
    (h (hsound.admits_after hm hadmits hafter).1).committed
      (hsound.passed hne hn hm hadmits hafter) (ho hadmits).paid

/-- **Every deed** keeps the invariant. -/
theorem lively_act {name : String} {d : Deed} (h : f.Holds (fun _ => True) (Lively careful))
    (hordinary : f.Ordinary (.act name d)) (htending : f.Tending (.act name d))
    (hcareful : careful → f.Careful (.act name d)) :
    (f.happen (.act name d)).Holds (fun _ => True) (Lively careful) := by
  refine h.act lively_stable fun s desk' ended l' s' hopen hran hh hgrants honward hafter => ?_
  have tended := h.sessions name s hopen (honward.admits hgrants.versions hafter)
  generalize hdesk : f.desk name = desk at hran tended
  cases hran with
  | call c => exact tended.call hh hordinary
  | openWorkflow agent copy => exact tended.idle (.refl _ _) rfl rfl trivial trivial
  | openManager set => exact tended.idle (.refl _ _) rfl rfl trivial trivial
  | load hends => exact tended.load hh hends
  | create hends => exact tended.create hh hends
  | accept hends => exact tended.accept hh hends
  | reject hends => exact tended.reject hh hends
  | gather hends => exact tended.gather hh hends
  | readjust hends =>
    have hloaded : (f.desk name).Loaded := htending
    rw [hdesk] at hloaded
    refine tended.readjust hh hloaded hends hafter fun hc => ?_
    rw [← hdesk]
    exact hcareful hc
  | nothing => exact tended

/-- **An invoice has one life.** Whatever sessions do, and in whatever order, from one committed state to
the next an invoice is what it was but for its flag, or it is open and is cancelled, or it is unpaid and
is paid and stamped. If readjustments work on sets that are locked or current this is all; otherwise
a paid invoice may also be cancelled, and keeps its stamps. -/
theorem committed_invoice_follows
    (h : f.Reach fun f e => f.Ordinary e ∧ f.Tending e ∧ (careful → f.Careful e)) (e : Event)
    {id : Ident} {i : Invoice} (hi : f.tables.invoices.get? id = some i) :
    ∃ j, (f.happen e).tables.invoices.get? id = some j ∧ i.Follows careful j := by
  have holds : f.Holds (fun _ => True) (Lively careful) :=
    h.holds lively_stable fun _ _ _ hkind hf => lively_act hf hkind.1 hkind.2.1 hkind.2.2
  have unchanged {t : Tables} (ht : t.invoices = f.tables.invoices) :
      ∃ j, t.invoices.get? id = some j ∧ i.Follows careful j :=
    ⟨i, by rw [ht, hi], .refl careful i⟩
  cases e with
  | begin name =>
    exact unchanged (congrArg Tables.invoices (f.world.tables_begin name))
  | act name d => exact unchanged (by rw [tables_act])
  | commit name =>
    show ∃ j, (f.world.commit name).2.ledger.tables.invoices.get? id = some j ∧ _
    cases hs : f.world.open? name with
    | none =>
      rw [World.ledger_commit_of_none hs]
      exact unchanged rfl
    | some s =>
      rw [(World.commit_of_open? hs).2]
      by_cases hadmits : f.world.ledger.Admits s
      · rw [Ledger.commit_of_admits hadmits]
        exact (holds.sessions name s hs hadmits).rows id i hi
      · obtain ⟨e, he⟩ := Ledger.commit_of_not_admits hadmits
        rw [he]
        exact unchanged rfl
  | rollback name =>
    exact unchanged (congrArg Tables.invoices (f.world.tables_rollback name))
  | addTeam name kind => exact unchanged rfl

/-- A submission that was loaded without a lock is accepted, and its invoice is paid by the commit. -/
theorem committed_invoice_follows_paid : ∃ f : Floor,
    (f.Reach fun f e => f.Ordinary e ∧ f.Tending e ∧ (True → f.Careful e)) ∧
      ∃ i j, f.tables.invoices.get? 1 = some i ∧
        (f.happen (.commit "payer")).tables.invoices.get? 1 = some j ∧
        i.status = .notPaid ∧ j.status = .paid ∧ i.Follows True j := by
  have key (f : Floor) (h : f.Reach fun f e => f.Ordinary e ∧ f.Tending e ∧ (True → f.Careful e))
      (hbefore : (f.tables.invoices.get? 1).map (·.status) = some .notPaid)
      (hafter : ((f.happen (.commit "payer")).tables.invoices.get? 1).map (·.status) = some .paid) :
      ∃ i j, f.tables.invoices.get? 1 = some i ∧
        (f.happen (.commit "payer")).tables.invoices.get? 1 = some j ∧
        i.status = .notPaid ∧ j.status = .paid ∧ i.Follows True j := by
    obtain ⟨i, hi, hunpaid⟩ := Option.map_eq_some_iff.1 hbefore
    obtain ⟨j, hj, hfollows⟩ := committed_invoice_follows h (.commit "payer") hi
    rw [hj] at hafter
    exact ⟨i, j, hi, hj, hunpaid, Option.some.inj hafter, hfollows⟩
  have empty : Reach (fun f e => f.Ordinary e ∧ f.Tending e ∧ (True → f.Careful e)) _ :=
    .start { clock := ⟨⟨0, 0, by decide⟩⟩ }
  have created := ((((empty.step (.begin "first") ⟨trivial, trivial, fun _ => trivial⟩).step
    (.act "first" (.call (.insertInvoice { (default : NewInvoice) with status := .notPaid })))
    ⟨.inr ⟨_, rfl⟩, trivial, fun _ => trivial⟩).step
    (.act "first" (.openWorkflow .system none)) ⟨trivial, trivial, fun _ => trivial⟩).step
    (.act "first" (.create (.start .invoice false) "" .zero))
    ⟨trivial, trivial, fun _ => trivial⟩).step (.commit "first")
    ⟨trivial, trivial, fun _ => trivial⟩
  have h := (((created.step (.begin "payer") ⟨trivial, trivial, fun _ => trivial⟩).step
    (.act "payer" (.openWorkflow .system none)) ⟨trivial, trivial, fun _ => trivial⟩).step
    (.act "payer" (.load (.start .submission false))) ⟨trivial, trivial, fun _ => trivial⟩).step
    (.act "payer" .accept) ⟨trivial, trivial, fun _ => trivial⟩
  exact ⟨_, h, key _ h (by decide) (by decide)⟩

/-- A manager has loaded an open invoice without locks, and the invoice is paid and committed. Another
invoice is locked by somebody else, so that the manager's next loading fails: the view is up to date
then and the set is not. The manager cancels the paid invoice, and nothing stands against the commit. -/
theorem committed_invoice_follows_needs_care :
    ¬ ∀ (f : Floor) (e : Event) (id : Ident) (i j : Invoice),
      (f.Reach fun f e => f.Ordinary e ∧ f.Tending e) → f.Ordinary e ∧ f.Tending e →
        f.tables.invoices.get? id = some i → (f.happen e).tables.invoices.get? id = some j →
          i.Becomes j := by
  intro hall
  have overturned (f : Floor) (h : f.Reach fun f e => f.Ordinary e ∧ f.Tending e)
      (hbefore : (f.tables.invoices.get? 1).map (·.status) = some .paid)
      (hafter : ((f.happen (.commit "manager")).tables.invoices.get? 1).map (·.status) =
        some .cancelled) : False := by
    obtain ⟨i, hi, hpaid⟩ := Option.map_eq_some_iff.1 hbefore
    obtain ⟨j, hj, hcancelled⟩ := Option.map_eq_some_iff.1 hafter
    have becomes := hall f (.commit "manager") 1 i j h ⟨trivial, trivial⟩ hi hj
    rcases becomes.status with hsame | ⟨hopen, -⟩ | ⟨hunpaid, -⟩
    · rw [hpaid, hcancelled] at hsame
      cases hsame
    · rcases hopen with hstatus | hstatus <;> cases hpaid.symm.trans hstatus
    · cases hpaid.symm.trans hunpaid
  have empty : Reach (fun f e => f.Ordinary e ∧ f.Tending e) _ :=
    .start { clock := ⟨⟨0, 0, by decide⟩⟩ }
  have stored := (((empty.step (.begin "first") ⟨trivial, trivial⟩).step
    (.act "first" (.call (.insertInvoice { (default : NewInvoice) with
      status := .notPaid, orderId := some 7 }))) ⟨.inr ⟨_, rfl⟩, trivial⟩).step
    (.act "first" (.call (.insertInvoice { (default : NewInvoice) with
      status := .notPaid, orderId := some 8 }))) ⟨.inr ⟨_, rfl⟩, trivial⟩).step (.commit "first")
    ⟨trivial, trivial⟩
  have loaded := ((stored.step (.begin "manager") ⟨trivial, trivial⟩).step
    (.act "manager" (.openManager [])) ⟨trivial, trivial⟩).step
    (.act "manager" (.gather ((Query.start .invoice false).take (.orderId 7)))) ⟨trivial, trivial⟩
  have blocked := (loaded.step (.begin "other") ⟨trivial, trivial⟩).step
    (.act "other" (.call (.find .invoice ((Query.start .invoice true).take (.orderId 8)))))
    ⟨.inl rfl, trivial⟩
  have paid := ((((blocked.step (.begin "payer") ⟨trivial, trivial⟩).step
    (.act "payer" (.openWorkflow .system none)) ⟨trivial, trivial⟩).step
    (.act "payer" (.create ((Query.start .invoice false).take (.orderId 7)) "" .zero))
    ⟨trivial, trivial⟩).step (.act "payer" .accept) ⟨trivial, trivial⟩).step (.commit "payer")
    ⟨trivial, trivial⟩
  have h := (paid.step
    (.act "manager" (.gather ((Query.start .invoice true).take (.orderId 8)))) ⟨trivial, trivial⟩).step
    (.act "manager" (.readjust ⟨0, 0, .zero, none, some 7⟩)) ⟨trivial, by unfold Tending; decide⟩
  exact overturned _ h (by decide) (by decide)

end Floor

end TeamLedger
