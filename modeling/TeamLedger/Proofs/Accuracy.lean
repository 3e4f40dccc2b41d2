/-
The services are accurate on all that a ledger can hold.

A service fails by refusing, or because an amount has overflowed. Where it forms
no sum it can only refuse, and not over an amount, whatever it is answered
(`Service.SumFree`). So a service is taken apart at the sums that it forms and
nowhere else, and each sum is one of invoices that it has read: a part of them,
in some order.

What all this comes to is put together in `Invoice.Accurate`, for a list of
invoices and a target. It is said for every order of the list, and of a service
whenever what it reads is in the list, whatever else the ledger holds.
-/
import TeamLedger.Proofs.Debts
import TeamLedger.Proofs.TrueSums

set_option autoImplicit false

namespace TeamLedger

/-! ## Services that form no sums -/

/-- The call adds amounts up. -/
def StoreCall.sums : StoreCall → Bool
  | unpaidAmount .. | debts .. => true
  | _ => false

/-- The refusal is over an amount. -/
def LedgerError.ofAmount : LedgerError → Bool
  | amount _ => true
  | _ => false

/-- The failure is a refusal, and not over an amount. -/
def Failure.Plain (e : Failure) : Prop := ∃ k, e = .refused k ∧ k.ofAmount = false

theorem Failure.plain_refused {k : LedgerError} (h : k.ofAmount = false) : (Failure.refused k).Plain :=
  ⟨k, rfl, h⟩

/-- A call that adds nothing up says nothing of amounts. -/
theorem Session.answer_plain {l : Ledger} {s : Session} {c : StoreCall} {e : Failure}
    (hc : c.sums = false) (h : (s.answer l c).1 = .error e) : e.Plain := by
  cases c with
  | find root q =>
    simp only [answer, find] at h
    split at h
    · split at h
      next => cases h
      next hlock =>
        cases h
        -- whatever is refused here is refused over a lock
        unfold Ledger.lock at hlock
        split at hlock
        · cases hlock
          exact Failure.plain_refused rfl
        · cases hlock
    · cases h
  | saveLimit limit =>
    simp only [answer, saveLimit] at h
    split at h
    · cases h
    · split at h
      · cases h
      · cases h
        exact Failure.plain_refused rfl
  | updateSubmissionStatus id status user =>
    simp only [answer] at h
    split at h <;> cases h
  | unpaidAmount _ _ | debts _ _ => cases hc
  | _ => cases h

namespace Service

variable {σ α β : Type}

/-- Wherever the service is begun, if it fails then it says nothing of amounts. -/
def SumFree (p : Service σ α) : Prop := ∀ x e y, p.Ends x (.error e) y → e.Plain

namespace SumFree

variable {p : Service σ α} {f : α → Service σ β}

theorem bind (hp : p.SumFree) (hf : ∀ a, (f a).SumFree) : (p >>= f).SumFree := by
  intro x e y h
  rcases h.bind with ⟨e', he, hfirst⟩ | ⟨a, z, -, hrest⟩
  · cases he
    exact hp x e y hfirst
  · exact hf a z e y hrest

theorem pure (a : α) : (Pure.pure a : Service σ α).SumFree := by
  intro x e y h
  cases h.pure.1

theorem refuse {k : LedgerError} (hk : k.ofAmount = false) :
    (Service.refuse k : Service σ α).SumFree := by
  intro x e y h
  cases h.refuse.1
  exact Failure.plain_refused hk

theorem get : (MonadState.get : Service σ σ).SumFree := by
  intro x e y h
  cases h.get.1

theorem modify (g : σ → σ) : (modify g : Service σ PUnit).SumFree := by
  intro x e y h
  cases h.modify.1

theorem now : (Service.now : Service σ Instant).SumFree := by
  intro x e y h
  obtain ⟨⟨t, ht⟩, -⟩ := h.now
  cases ht

theorem count (metric : Metric) (label : String) :
    (Service.count metric label : Service σ Unit).SumFree := by
  intro x e y h
  cases h.count.1

theorem call {c : StoreCall} (hc : c.sums = false) : (Service.call c : Service σ c.Answer).SumFree := by
  rintro ⟨st, l, s⟩ e y h
  exact Session.answer_plain hc h.call.1.symm

/-- A check whose refusal says nothing of amounts. -/
theorem check {c : Prop} [Decidable c] {k : LedgerError} {g : PUnit → Service σ β}
    (hk : k.ofAmount = false) (hg : (g ⟨⟩).SumFree) :
    (if c then (Service.refuse k : Service σ PUnit) >>= g else g ⟨⟩).SumFree := by
  split
  · exact (refuse hk).bind fun _ => hg
  · exact hg

end SumFree

end Service

open Service (SumFree)

theorem Adjustments.sumFree_create {σ : Type} (is : List Invoice) :
    (create is : Service σ (List Invoice)).SumFree := by
  refine .bind .now fun now => ?_
  induction is with
  | nil => exact .pure []
  | cons i rest ih =>
    unfold insertAll
    cases i.adjustment? now with
    | none => exact ih
    | some adjustment =>
      exact .bind (.call rfl) fun stored => .bind (.count _ _) fun _ => .bind ih fun others => .pure _

namespace Workflow

theorem sumFree_loaded : loaded.SumFree := by
  refine .bind .get fun w => ?_
  cases w.data with
  | some c => exact .pure c
  | none => exact .refuse rfl

theorem sumFree_log (status : Submission.Status) : (log status).SumFree :=
  sumFree_loaded.bind fun _ => .bind .get fun _ => .bind .now fun _ => .bind (.call rfl) fun _ =>
    .modify _

theorem sumFree_updateStatus (status : Submission.Status) : (updateStatus status).SumFree :=
  sumFree_loaded.bind fun _ => .check rfl <| .bind .get fun _ => .bind (.call rfl) fun _ =>
    .check rfl <| .bind (.modify _) fun _ => sumFree_log status

theorem sumFree_activeAmong (is : List Invoice) : (activeAmong is).SumFree := by
  unfold activeAmong
  split
  · exact .pure []
  · exact .bind (.call rfl) fun _ => .pure _

end Workflow

/-! ## The sums of a workflow -/

/-- What a query returns is of the size of a ledger if what it selects is. -/
theorem Invoice.LedgerSized.inOrder {is : List Invoice} (h : LedgerSized is) :
    LedgerSized (Root.invoice.inOrder is) := h.part (Root.inOrder_perm .invoice is).subperm

namespace Workflow

open Invoice (LedgerSized worth unpaidAmong)

variable {w : Workflow} {l : Ledger} {s : Session} {y : Workflow × Ledger × Session}

/-- The target of a submission is the amount asked for, or what all invoices are worth. -/
theorem targetOf_value {is : List Invoice} (h : LedgerSized is) (amount : Money) :
    ∃ m, targetOf is amount = .ok m ∧
      m.value = if amount.value = 0 then worth is else amount.value := by
  unfold targetOf
  have hzero : amount.isZero = true ↔ amount.value = 0 :=
    Money.isZero_iff.trans Money.value_zero_iff.symm
  by_cases h0 : amount.isZero = true
  · rw [if_pos h0, if_pos (hzero.1 h0)]
    exact h.exists_total
  · rw [if_neg h0, if_neg (mt hzero.2 h0)]
    exact ⟨amount, rfl, rfl⟩

/-- **Creating from a ledger** either is refused or makes a submission of the true target. -/
theorem create_accurate {query : Query .invoice} {receipt : String} {amount : Money}
    {r : Except Failure Submission} (hl : l.Hosts s)
    (hsized : LedgerSized (query.select (l.tables.apply s.changes)))
    (h : (create query receipt amount).Ends (w, l, s) r y) :
    (∀ e, r = .error e → ∃ k, e = .refused k) ∧
      ∀ x, r = .ok x → x.amount.value = if amount.value = 0
        then worth (query.select (l.tables.apply s.changes)) else amount.value := by
  obtain ⟨target, htarget, hvalue⟩ := targetOf_value hsized.inOrder amount
  refine ⟨fun e he => ?_, fun x hx => ?_⟩
  · subst he
    have plain {e : Failure} (he : e.Plain) : ∃ k, e = .refused k := he.imp fun k hk => hk.1
    -- statement by statement, up to the selection
    unfold create at h
    rcases h.unless with ⟨hr, -, -⟩ | ⟨-, h⟩
    · cases hr
      exact ⟨_, rfl⟩
    rcases h.bind with ⟨e', he, hfind⟩ | ⟨found, ⟨w₁, l₁, s₁⟩, hfind, h⟩
    · cases he
      exact plain (SumFree.call rfl _ _ _ hfind)
    obtain ⟨l', -, -, ⟨⟨e', he⟩, -⟩ | ⟨hrows, -⟩⟩ := hfind.find
    · cases he
    cases hrows
    rcases h.ofMoney_bind with ⟨operation, hover, -⟩ | ⟨target', -, h⟩
    · cases hover.symm.trans htarget
    rcases h.bind with ⟨e', he, hactive⟩ | ⟨active, ⟨w₂, l₂, s₂⟩, -, h⟩
    · cases he
      exact plain (sumFree_activeAmong _ _ _ _ hactive)
    rcases ofSelection_bind h with ⟨e', hselect, he, -⟩ | ⟨selected, -, h⟩
    · cases he
      exact Selection.select_refused hsized.inOrder hselect
    -- behind the selection no sum is formed
    refine plain (SumFree.bind .now (fun now => ?_) _ _ _ h)
    exact .bind .get fun w => .bind (.call rfl) fun x => .bind (.call rfl) fun _ =>
      .bind (.call rfl) fun _ => .bind (.modify _) fun _ => .bind (sumFree_log _) fun _ => .pure x
  · subst hx
    obtain ⟨active, taken, e, hchosen, -⟩ := batched_of_create hl h
    unfold Tables.chosen at hchosen
    split at hchosen
    · cases hchosen
    dsimp only at hchosen
    rw [htarget] at hchosen
    obtain ⟨selected, -, hpair⟩ := map_eq_ok_iff.1 hchosen
    have hamount : target = x.amount := congrArg Prod.fst hpair
    rw [← hamount, hvalue, Invoice.worth_perm (Root.inOrder_perm .invoice _)]

/-- What the unpaid invoices of a submission are worth, as the tables are. -/
def unpaidWorth (t : Tables) (id : Ident) : ℚ :=
  worth (unpaidAmong ((Query.invoicesOf id true).select t))

theorem worth_unpaidAmong_found (t : Tables) (id : Ident) :
    worth (unpaidAmong (Root.invoice.inOrder ((Query.invoicesOf id true).select t))) =
      unpaidWorth t id :=
  Invoice.worth_perm ((Root.inOrder_perm .invoice _).filter _)

/-- Accepting fails over an amount only where the unpaid invoices are worth another one. -/
theorem accept_fails {e : Failure} (hsized : ∀ c, w.data = some c →
      LedgerSized ((Query.invoicesOf c.id true).select (l.tables.apply s.changes)))
    (h : accept.Ends (w, l, s) (.error e) y) : e.Plain ∨ ∃ c m, w.data = some c ∧
      e = .refused (.amount (.declaredMismatch c.id c.amount m)) ∧
      m.value = unpaidWorth (l.tables.apply s.changes) c.id ∧ m.value ≠ c.amount.value := by
  unfold accept at h
  rcases loaded_bind h with ⟨-, hr, -⟩ | ⟨c, hc, h⟩
  · cases hr
    exact .inl (Failure.plain_refused rfl)
  rcases h.unless with ⟨hr, -, -⟩ | ⟨-, h⟩
  · cases hr
    exact .inl (Failure.plain_refused rfl)
  rcases h.bind with ⟨e', he, hfind⟩ | ⟨linked, ⟨w₁, l₁, s₁⟩, hfind, h⟩
  · cases he
    exact .inl (SumFree.call rfl _ _ _ hfind)
  obtain ⟨l', -, -, ⟨⟨e', he⟩, -⟩ | ⟨hrows, -⟩⟩ := hfind.find
  · cases he
  cases hrows
  have hsettles := Settling.settles (hsized c hc).inOrder
  rcases ofSelection_bind h with ⟨e', hfold, he, -⟩ | ⟨settling, hfold, h⟩
  · cases he
    rcases hsettles with ⟨st, hst, -⟩ | ⟨cause, hcause, -⟩
    · cases hfold.symm.trans hst
    · cases hfold.symm.trans hcause
      exact .inl (Failure.plain_refused rfl)
  rcases hsettles with ⟨st, hst, hvalue⟩ | ⟨cause, hcause, -⟩
  · cases hfold.symm.trans hst
    rw [worth_unpaidAmong_found] at hvalue
    rcases h.unless with ⟨hr, -, hne⟩ | ⟨-, h⟩
    · cases hr
      exact .inr ⟨c, settling.total, hc, rfl, hvalue, mt Money.value_eq_iff.1 hne⟩
    · -- behind the comparison no sum is formed
      refine .inl (SumFree.bind (sumFree_updateStatus .accepted) (fun _ => ?_) _ _ _ h)
      exact .bind .now fun now => .bind .get fun w => .bind (.call rfl) fun history =>
        .bind (.call rfl) fun _ => .bind (Adjustments.sumFree_create _) fun _ => .pure _
  · cases hfold.symm.trans hcause

/-- **Accepting from a ledger** compares what the unpaid invoices are worth with the amount that was
declared. -/
theorem accept_accurate {r : Except Failure AcceptOutcome} (hl : l.Hosts s)
    (hsized : ∀ c, w.data = some c →
      LedgerSized ((Query.invoicesOf c.id true).select (l.tables.apply s.changes)))
    (h : accept.Ends (w, l, s) r y) :
    (∀ e, r = .error e → ∃ k, e = .refused k) ∧ ∀ c, w.data = some c →
      ((∃ o, r = .ok o) → unpaidWorth (l.tables.apply s.changes) c.id = c.amount.value) ∧
      ∀ cause, r = .error (.refused (.amount cause)) →
        unpaidWorth (l.tables.apply s.changes) c.id ≠ c.amount.value ∧
        ∃ m, cause = .declaredMismatch c.id c.amount m ∧
          m.value = unpaidWorth (l.tables.apply s.changes) c.id := by
  refine ⟨?_, fun c hc => ⟨?_, ?_⟩⟩
  · rintro e rfl
    rcases accept_fails hsized h with ⟨k, hk, -⟩ | ⟨c, m, -, he, -⟩
    · exact ⟨k, hk⟩
    · exact ⟨_, he⟩
  · rintro ⟨o, rfl⟩
    rcases accept_goes hl h with ⟨⟨e, he⟩, -⟩ | ⟨c', x, found, e, hist, now, added, -, hcleared⟩
    · cases he
    cases hc.symm.trans hcleared.copy
    -- what was added up in the end are the unpaid ones of the invoices found
    obtain ⟨sum, hsum, hunits⟩ := hcleared.total
    have hfinds := hcleared.finds
    have hfound : LedgerSized (unpaidAmong found) := by
      rw [← hfinds]
      exact (hsized c hc).inOrder.sublist (Invoice.unpaidAmong_sublist _)
    rw [← worth_unpaidAmong_found, hfinds, ← hfound.value_eq hsum]
    exact Money.value_eq_iff.2 (Money.equiv_iff.2 hunits)
  · rintro cause rfl
    rcases accept_fails hsized h with ⟨k, hk, hplain⟩ | ⟨c', m, hc', he, hvalue, hne⟩
    · cases hk
      cases hplain
    · cases hc.symm.trans hc'
      cases he
      exact ⟨hvalue ▸ hne, m, rfl, hvalue⟩

end Workflow

/-! ## The sums of a readjustment -/

namespace Readjustment

open Invoice (LedgerSized worth)

variable {r : Readjustment} {set : WorkingSet} {l : Ledger} {s : Session}
  {y : WorkingSet × Ledger × Session}

/-- The invoices of a set that count towards the target. -/
def paidWorth (set : WorkingSet) : ℚ := worth (set.filter fun i => i.status = .paid)

/-- **A readjustment of a ledger** either is refused or stores the true difference, in the direction
that it calls for. -/
theorem apply_accurate {result : Except Failure Outcome} (hl : l.Hosts s) (hset : LedgerSized set)
    (hr : r.amount.LedgerSized) (h : r.apply.Ends (set, l, s) result y) :
    (∀ e, result = .error e → ∃ k, e = .refused k) ∧ ∀ o, result = .ok o →
      o.paid.value = paidWorth set ∧ (o.created = none ↔ r.amount.value = paidWorth set) ∧
      ∀ i, o.created = some i → i.amount.value = |r.amount.value - paidWorth set| ∧
        i.fromTeam = (if r.amount.value < paidWorth set then r.toTeam else r.fromTeam) ∧
        i.toTeam = (if r.amount.value < paidWorth set then r.fromTeam else r.toTeam) := by
  rcases apply_goes hl h with ⟨rfl, -, -⟩ |
    ⟨-, ⟨met, tail, e, rfl, rfl, -, hstops⟩ | ⟨o, residual, rfl, hdone⟩⟩
  · refine ⟨?_, fun o ho => (nomatch ho)⟩
    rintro e ⟨⟩
    exact ⟨_, rfl⟩
  · refine ⟨?_, fun o ho => (nomatch ho)⟩
    rintro e' ⟨⟩
    cases hstops with
    | mismatched bad rest h => exact ⟨_, rfl⟩
    | overflowed i rest operation hover =>
      -- up to the invoice the sums are those of a part of the set
      have hpart : LedgerSized (met ++ [i]) := hset.sublist (by simp)
      obtain ⟨⟨m, hm, -⟩, total, htotal, -⟩ := hpart.subtracts hr
      rcases hover with hover | hover
      · cases hover.symm.trans hm
      · cases hover.symm.trans htotal
  · refine ⟨fun e he => (nomatch he), ?_⟩
    rintro o' ⟨⟩
    obtain ⟨⟨m, hm, hunits⟩, total, htotal, htotal_units⟩ := hset.subtracts hr
    obtain rfl : residual = m := Except.ok.inj (hdone.left.symm.trans hm)
    obtain rfl : total = o.paid := Except.ok.inj (htotal.symm.trans hdone.paid)
    have hresidual : residual.value = r.amount.value - paidWorth set := Invoice.value_sub_worth hunits
    have hnegative : residual.isNegative = true ↔ r.amount.value < paidWorth set := by
      rw [Money.isNegative_iff, ← Money.value_neg_iff, hresidual, sub_neg]
    have hzero : residual.isZero = true ↔ r.amount.value = paidWorth set := by
      rw [Money.isZero_iff, ← Money.value_zero_iff, hresidual, sub_eq_zero]
    refine ⟨Invoice.value_eq_worth htotal_units, ?_⟩
    rcases hdone.created with ⟨heven, hnone⟩ | ⟨huneven, now, id, -, hsome⟩
    · rw [hnone]
      exact ⟨iff_of_true rfl (hzero.1 heven), fun i hi => (nomatch hi)⟩
    · rw [hsome]
      refine ⟨iff_of_false (fun h => nomatch h) (fun h => ?_), ?_⟩
      · rw [hzero.2 h] at huneven
        cases huneven
      · rintro i ⟨⟩
        simp only [← hnegative, ← hresidual]
        exact ⟨Money.value_abs residual, rfl, rfl⟩

end Readjustment

/-! ## The sums of a report -/

namespace Tables

open Invoice (LedgerSized worth)

variable {t : Tables} {debtor : Ident}

/-- The debts to all creditors are reported, each with its parts as what the invoices are worth. -/
theorem debts_accurate {creditors : List Ident}
    (howed : ∀ c ∈ creditors, LedgerSized (t.owed debtor c)) :
    ∃ ds, t.debts debtor creditors = .ok ds ∧ ∀ d ∈ ds,
      d.total.value = worth (t.owed debtor d.toTeam) ∧
      d.unpaid.value = worth ((t.owed debtor d.toTeam).filter (!·.hasSubmission)) ∧
      d.submitted.value = worth ((t.owed debtor d.toTeam).filter (·.hasSubmission)) := by
  have hpart {c : Ident} (hc : c ∈ creditors) (p : Invoice → Bool) :
      LedgerSized ((t.owed debtor c).filter p) := (howed c hc).sublist List.filter_sublist
  have tallied : ∀ c ∈ creditors, t.Tallied debtor c := by
    intro c hc
    obtain ⟨total, htotal, -⟩ := (howed c hc).addUp
    obtain ⟨unpaid, hunpaid, -⟩ := (hpart hc (!·.hasSubmission)).addUp
    obtain ⟨submitted, hsubmitted, -⟩ := (hpart hc (·.hasSubmission)).addUp
    exact ⟨⟨c, total, unpaid, submitted⟩, rfl, htotal, hunpaid, hsubmitted⟩
  obtain ⟨ds, hds⟩ := debts_ok_iff.2 tallied
  refine ⟨ds, hds, fun d hd => ?_⟩
  have hreports := reports_of_debts hds
  have htallies := hreports.tallies d hd
  obtain ⟨hc, -⟩ := (hreports.listed d.toTeam).1 (List.mem_map_of_mem hd)
  exact ⟨(howed _ hc).value_eq htallies.total, (hpart hc _).value_eq htallies.unpaid,
    (hpart hc _).value_eq htallies.submitted⟩

end Tables

/-! ## All sums -/

namespace Invoice

/-- **All sums and differences** of the invoices with a target are the true ones, no matter in which
order the invoices come, and it is these that are compared. -/
structure Accurate (is : List Invoice) (target : Money) : Prop where
  /-- Adding up never overflows, nor rounds. -/
  adds : ∀ js front : List Invoice, js.Perm is → front <+: js →
    ∃ m, Money.total (front.map (·.amount)) = .ok m ∧ m.value = worth front
  /-- Neither does taking off. -/
  takes_off : ∀ js front : List Invoice, js.Perm is → front <+: js →
    ∃ m, (front.map (·.amount)).foldlM Money.sub target = .ok m ∧
      m.value = target.value - worth front
  /-- The order is of no account. -/
  total : ∀ js : List Invoice, js.Perm is →
    ∃ m, Money.total (js.map (·.amount)) = .ok m ∧ m.value = worth is
  targets : ∀ js : List Invoice, js.Perm is → ∃ m, Workflow.targetOf js target = .ok m ∧
    m.value = if target.value = 0 then worth is else target.value
  /-- Selecting goes as it does with numbers, for any target. -/
  selects : ∀ js active goal, js.Perm is →
    Selection.Judged goal (Selection.weigh active goal 0 js) (Selection.select js active goal)
  /-- What falls short of a target is the worth of all that may be taken. -/
  short : ∀ js active goal ids q, js.Perm is → Selection.weigh active goal 0 js = .ok (ids, q) →
    q < goal.value → q = worth (eligible active is)
  settles : ∀ js : List Invoice, js.Perm is →
    (∃ st, js.foldlM Workflow.Settling.add {} = .ok st ∧ st.total.value = worth (unpaidAmong is)) ∨
      ∃ cause, js.foldlM Workflow.Settling.add {} = .error (.refused (.consistency cause)) ∧
        ∃ i ∈ is, i.Blocking
  /-- The services, if they read what is in the list: creating reads what its query selects. -/
  creates : ∀ l s query, l.Hosts s →
    (query.select (l.tables.apply s.changes)).Subperm is → ∀ w receipt r y,
    (Workflow.create query receipt target).Ends (w, l, s) r y →
      (∀ e, r = .error e → ∃ k, e = .refused k) ∧ ∀ x, r = .ok x → x.amount.value =
        if target.value = 0 then worth (query.select (l.tables.apply s.changes)) else target.value
  /-- Accepting reads the invoices of its submission. -/
  accepts : ∀ l s w, l.Hosts s → (∀ c, w.data = some c →
      ((Query.invoicesOf c.id true).select (l.tables.apply s.changes)).Subperm is) → ∀ r y,
    Workflow.accept.Ends (w, l, s) r y →
    (∀ e, r = .error e → ∃ k, e = .refused k) ∧ ∀ c, w.data = some c →
      ((∃ o, r = .ok o) →
        Workflow.unpaidWorth (l.tables.apply s.changes) c.id = c.amount.value) ∧
      ∀ cause, r = .error (.refused (.amount cause)) →
        Workflow.unpaidWorth (l.tables.apply s.changes) c.id ≠ c.amount.value ∧
        ∃ m, cause = .declaredMismatch c.id c.amount m ∧
          m.value = Workflow.unpaidWorth (l.tables.apply s.changes) c.id
  /-- A readjustment goes through its set. -/
  readjusts : ∀ l s, l.Hosts s → ∀ r js result y, r.amount = target → js.Perm is →
    (Readjustment.apply r).Ends (js, l, s) result y →
      (∀ e, result = .error e → ∃ k, e = .refused k) ∧ ∀ o, result = .ok o →
        o.paid.value = Readjustment.paidWorth is ∧
        (o.created = none ↔ target.value = Readjustment.paidWorth is) ∧
        ∀ i, o.created = some i → i.amount.value = |target.value - Readjustment.paidWorth is| ∧
          i.fromTeam = (if target.value < Readjustment.paidWorth is then r.toTeam else r.fromTeam) ∧
          i.toTeam = (if target.value < Readjustment.paidWorth is then r.fromTeam else r.toTeam)
  /-- A report reads what one team owes others. -/
  unpaid : ∀ (l : Ledger) (s : Session) debtor c,
    ((l.tables.apply s.changes).owed debtor c).Subperm is → ∃ m,
    (s.answer l (.unpaidAmount debtor c)).1 = .ok m ∧
      m.value = worth ((l.tables.apply s.changes).owed debtor c)
  debts : ∀ (l : Ledger) (s : Session) debtor creditors,
    (∀ c ∈ creditors, ((l.tables.apply s.changes).owed debtor c).Subperm is) → ∃ ds,
    (s.answer l (.debts debtor creditors)).1 = .ok ds ∧ ∀ d ∈ ds,
      d.total.value = worth ((l.tables.apply s.changes).owed debtor d.toTeam) ∧
      d.unpaid.value =
        worth (((l.tables.apply s.changes).owed debtor d.toTeam).filter (!·.hasSubmission)) ∧
      d.submitted.value =
        worth (((l.tables.apply s.changes).owed debtor d.toTeam).filter (·.hasSubmission))

/-- **Invoices of a ledger** are accounted for without an overflow and without rounding. -/
theorem accurate {is : List Invoice} {target : Money} (h : LedgerSized is)
    (htarget : target.LedgerSized) : Accurate is target := by
  have sized {js : List Invoice} (hjs : js.Perm is) : LedgerSized js := h.part hjs.subperm
  have worth_filter {js : List Invoice} (hjs : js.Perm is) (p : Invoice → Bool) :
      worth (js.filter p) = worth (is.filter p) := worth_perm (hjs.filter p)
  refine {
    adds := fun js front hjs hfront => ((sized hjs).sublist hfront.sublist).exists_total
    takes_off := fun js front hjs hfront => ?_
    total := fun js hjs => ?_
    targets := fun js hjs => ?_
    selects := fun js active goal hjs => Selection.select_judged (sized hjs) active goal
    short := fun js active goal ids q hjs hweigh hshort => ?_
    settles := fun js hjs => ?_
    creates := fun l s query hl hread w receipt r y hends =>
      Workflow.create_accurate hl (h.part hread) hends
    accepts := fun l s w hl hread r y hends =>
      Workflow.accept_accurate hl (fun c hc => h.part (hread c hc)) hends
    readjusts := fun l s hl r js result y hr hjs hends => ?_
    unpaid := fun l s debtor c howed => ?_
    debts := fun l s debtor creditors howed => ?_ }
  · obtain ⟨m, hm, hunits⟩ := ((sized hjs).sublist hfront.sublist).foldlM_sub htarget
    exact ⟨m, hm, value_sub_worth hunits⟩
  · rw [← worth_perm hjs]
    exact (sized hjs).exists_total
  · rw [← worth_perm hjs]
    exact Workflow.targetOf_value (sized hjs) target
  · rw [Selection.weigh_short hweigh hshort, zero_add, eligible, worth_filter hjs]
    rfl
  · rw [unpaidAmong, ← worth_filter hjs]
    refine (Workflow.Settling.settles (sized hjs)).imp_right ?_
    rintro ⟨cause, hcause, i, hi, hblocking⟩
    exact ⟨cause, hcause, i, hjs.subset hi, hblocking⟩
  · subst hr
    rw [Readjustment.paidWorth, ← worth_filter hjs]
    exact Readjustment.apply_accurate hl (sized hjs) htarget hends
  · obtain ⟨m, hm, hvalue⟩ := (h.part howed).exists_total
    exact ⟨m, congrArg Session.ofMoney hm, hvalue⟩
  · obtain ⟨ds, hds, hvalues⟩ := Tables.debts_accurate fun c hc => h.part (howed c hc)
    exact ⟨ds, congrArg Session.ofMoney hds, hvalues⟩

/-- The largest amount of a ledger, the smallest one, and none. -/
def extremes : List Invoice :=
  [(9999999999999999999, 4), (1, 4), (0, 0)].map fun parts =>
    { (default : Invoice) with amount := (Money.ofParts? parts.1 parts.2).getD .zero }

/-- Their sum has more digits before the decimals than an amount of a ledger, and it is exact. -/
theorem accurate_extremes : LedgerSized extremes ∧ Money.zero.LedgerSized ∧
    Accurate extremes .zero ∧
    ∃ m, Money.total (extremes.map (·.amount)) = .ok m ∧ m.value = 1000000000000000 := by
  have hsized : LedgerSized extremes := .of_scale_le (by decide) (by decide)
  have haccurate := accurate hsized LedgerSized.zero
  obtain ⟨m, hm, hvalue⟩ := haccurate.total extremes (.refl _)
  refine ⟨hsized, LedgerSized.zero, haccurate, m, hm, hvalue.trans ?_⟩
  norm_num [worth, extremes, Money.value, Money.ofParts?]

end Invoice

end TeamLedger
