/-
What the operations of a workflow have in common.

They work on the copy of a submission that the workflow has, on the row that the
session sees, and on invoices that were just found. An operation that writes
writes one submission, and no other (`Put.Heads`). Whether a submission may be
moved to a status is read off the copy; what is written is the row, and the two
need not be the same.
-/
import TeamLedger.Proofs.Effects

set_option autoImplicit false

namespace TeamLedger

/-! ## Writes that begin with a submission -/

theorem Submission.Status.eq_submitted {status : Submission.Status} (h : status.isTerminal = false) :
    status = .submitted := by
  cases status with
  | submitted => rfl
  | accepted | rejected => cases h

/-- The writes begin with a submission, and they write no other and no limit. -/
def Put.Heads (x : Submission) (ps : List Put) : Prop :=
  ∃ rest, (∀ z, Put.submission z ∉ rest) ∧ (∀ z, Put.limit z ∉ rest) ∧ ps = .submission x :: rest

namespace Put.Heads

variable {x : Submission} {ps : List Put}

theorem mem (h : Heads x ps) : Put.submission x ∈ ps := by
  obtain ⟨rest, -, -, rfl⟩ := h
  exact List.mem_cons_self

theorem eq_of_mem (h : Heads x ps) {z : Submission} (hz : Put.submission z ∈ ps) : z = x := by
  obtain ⟨rest, hrest, -, rfl⟩ := h
  rcases List.mem_cons.1 hz with hz | hz
  · cases hz
    rfl
  · exact absurd hz (hrest z)

theorem no_limit (h : Heads x ps) (z : Limit) : Put.limit z ∉ ps := by
  obtain ⟨rest, -, hrest, rfl⟩ := h
  intro hz
  rcases List.mem_cons.1 hz with hz | hz
  · cases hz
  · exact hrest z hz

theorem get?_putAll (h : Heads x ps) (t : Tables) (id : Ident) :
    (t.putAll ps).submissions.get? id = if id = x.id then some x else t.submissions.get? id := by
  rcases Tables.submission_putAll t ps id with ⟨hget, hne⟩ | ⟨z, hz, rfl, hget⟩
  · rw [hget, if_neg fun heq => hne x h.mem heq.symm]
  · rw [hget, h.eq_of_mem hz, if_pos rfl]

end Put.Heads

/-! ## Invoices that were found -/

section

variable {t : Tables} {q : Query .invoice} {found taken : List Invoice}

theorem Query.there_of_found (ht : t.Keyed) (hfound : found.Perm (q.select t)) {i : Invoice}
    (hi : i ∈ found) : t.invoices.get? i.id = some i :=
  ht.invoices.mem_values_iff.1 (mem_values_of_mem_select (hfound.mem_iff.1 hi))

theorem Query.distinct_of_found (ht : t.Keyed) (hfound : found.Perm (q.select t))
    (hsub : taken.Sublist found) : (taken.map (·.id)).Nodup := by
  refine List.Nodup.sublist (hsub.map _) ?_
  refine (hfound.map _).nodup_iff.2 ?_
  exact @Query.nodup_select .invoice _ _ ht.invoices

theorem Invoice.SumsExactly.units_of_found (h : SumsExactly (q.select t)) (ht : t.Keyed)
    (hfound : found.Perm (q.select t)) (hsub : taken.Sublist found) {m : Money}
    (hm : Money.total (taken.map (·.amount)) = .ok m) : m.units = sumUnits taken := by
  have hdistinct := Query.distinct_of_found ht hfound hsub
  have hnodup : taken.Nodup :=
    List.Pairwise.of_map _ (fun i j hne heq => hne (congrArg Invoice.id heq)) hdistinct
  exact h.units_eq hnodup (fun i hi => hfound.mem_iff.1 (hsub.subset hi)) hm

end

/-! ## Parts of operations -/

namespace Workflow

variable {α : Type} {w : Workflow} {l : Ledger} {s : Session} {y : Workflow × Ledger × Session}
  {r : Except Failure α}

theorem loaded_bind {f : Submission → Flow α} (h : (loaded >>= f).Ends (w, l, s) r y) :
    (w.data = none ∧ r = .error (.refused (.consistency .notLoaded)) ∧ y = (w, l, s)) ∨
      ∃ c, w.data = some c ∧ (f c).Ends (w, l, s) r y := by
  cases hdata : w.data with
  | none =>
    have loaded_none :
        loaded w = .done (.error (.refused (.consistency .notLoaded)), w) := by
      cases w
      cases hdata
      rfl
    rcases h.bind with ⟨e, rfl, hloaded⟩ | ⟨c, z, hloaded, hrest⟩
    · obtain ⟨he, rfl⟩ := hloaded.of_done loaded_none
      cases he
      exact .inl ⟨rfl, rfl, rfl⟩
    · obtain ⟨hresult, -⟩ := hloaded.of_done loaded_none
      cases hresult
  | some c =>
    have loaded_some : loaded w = .done (.ok c, w) := by
      cases w
      cases hdata
      rfl
    rcases h.bind with ⟨e, rfl, hloaded⟩ | ⟨c', z, hloaded, hrest⟩
    · obtain ⟨hresult, -⟩ := hloaded.of_done loaded_some
      cases hresult
    · obtain ⟨hresult, rfl⟩ := hloaded.of_done loaded_some
      cases hresult
      exact .inr ⟨c, rfl, hrest⟩

theorem ofSelection_bind {β : Type} {m : Except Failure β} {f : β → Flow α}
    (h : (ofSelection m >>= f).Ends (w, l, s) r y) :
    (∃ e, m = .error e ∧ r = .error e ∧ y = (w, l, s)) ∨
      ∃ b, m = .ok b ∧ (f b).Ends (w, l, s) r y := by
  cases m with
  | ok b => exact .inr ⟨b, rfl, Service.Ends.pure_bind h⟩
  | error e =>
    obtain ⟨hr, hy⟩ := Service.Ends.throw_bind h
    exact .inl ⟨e, rfl, hr, hy⟩

/-- Writing a log entry about a submission that is loaded, under a new id. -/
theorem log_ends {status : Submission.Status} {r : Except Failure Unit} (hl : l.Hosts s)
    {c : Submission} (hc : w.data = some c) (h : (log status).Ends (w, l, s) r y) :
    ∃ e : LogEntry, r = .ok () ∧ y.1.data = w.data ∧ y.1.agent = w.agent ∧
      y.2.2 = s.writeAll [.logEntry e] ∧ (l.lastId : Ident) < e.id ∧
      e = ⟨e.id, c.id, status, w.agent.kind, w.agent.userId, e.createdAt⟩ := by
  unfold log at h
  rcases loaded_bind h with ⟨hnone, -⟩ | ⟨c', hc', h⟩
  · rw [hc] at hnone
    cases hnone
  · cases hc.symm.trans hc'
    obtain ⟨now, h⟩ := h.get_bind.now_bind
    obtain ⟨l', -, -, h⟩ := h.write_bind hl rfl rfl rfl
    obtain ⟨rfl, rfl⟩ := h.modify
    exact ⟨_, rfl, rfl, rfl, rfl, Int.not_le.1 l.not_newId_le, rfl⟩

/-- **Moving a submission to a status.** Whether it may be moved is read off the workflow's copy; what
is written is the row that the session sees. -/
theorem updateStatus_ends {status : Submission.Status} {r : Except Failure Unit} (hl : l.Hosts s)
    (h : (updateStatus status).Ends (w, l, s) r y) :
    ((∃ e, r = .error e) ∧ y = (w, l, s) ∧ ∀ c, w.data = some c → c.status.isTerminal = false →
        s.view.submissions.get? c.id = none) ∨
      ∃ c x e, w.data = some c ∧ c.status.isTerminal = false ∧
        s.view.submissions.get? c.id = some x ∧ r = .ok () ∧
        y.1.data = some { c with status, completedBy := some w.agent.userId } ∧
        y.1.agent = w.agent ∧ y.2.2 = s.writeAll
          [.submission { x with status, completedBy := some w.agent.userId }, .logEntry e] ∧
        (l.lastId : Ident) < e.id ∧
        e = ⟨e.id, c.id, status, w.agent.kind, w.agent.userId, e.createdAt⟩ := by
  unfold updateStatus at h
  rcases loaded_bind h with ⟨hnone, hr, rfl⟩ | ⟨c, hc, h⟩
  · refine .inl ⟨⟨_, hr⟩, rfl, fun c hc => ?_⟩
    cases hnone.symm.trans hc
  rcases h.unless with ⟨hr, rfl, hended⟩ | ⟨hopen, h⟩
  · refine .inl ⟨⟨_, hr⟩, rfl, fun c' hc' hopen => ?_⟩
    cases hc.symm.trans hc'
    cases hopen.symm.trans hended
  replace h := h.get_bind
  cases hx : s.view.submissions.get? c.id with
  | none =>
    -- the session does not see the row, so nothing is written, and the service says so
    have answer_eq :
        s.answer l (.updateSubmissionStatus c.id status w.agent.userId) = (.ok 0, l, s) := by
      simp only [Session.answer, hx]
    refine .inl ?_
    rcases h.bind with ⟨e, -, hcall⟩ | ⟨n, z, hcall, h⟩
    · have he := hcall.call.1
      rw [answer_eq] at he
      cases he
    · obtain ⟨hn, rfl⟩ := hcall.call
      rw [answer_eq] at hn h
      cases hn
      obtain ⟨hr, rfl⟩ := Service.Ends.throw_bind h
      refine ⟨⟨_, hr⟩, rfl, fun c' hc' _ => ?_⟩
      cases hc.symm.trans hc'
      exact hx
  | some x =>
    have writes_eq : s.writes l (.updateSubmissionStatus c.id status w.agent.userId) =
        [.submission { x with status, completedBy := some w.agent.userId }] := by
      simp only [Session.writes, hx, Option.map_some, Option.toList_some]
    obtain ⟨l', hgrants, hl', h⟩ := h.write_bind hl (a := 1) rfl
      (by simp only [Session.answer, hx]) writes_eq
    rcases h.unless with ⟨-, -, hzero⟩ | ⟨-, h⟩
    · cases hzero
    · have data_eq : w.data.map (fun c => { c with status, completedBy := some w.agent.userId }) =
          some { c with status, completedBy := some w.agent.userId } := by
        rw [hc, Option.map_some]
      obtain ⟨e, hr, hdata, hagent, hs, hnew, hentry⟩ :=
        log_ends hl' data_eq (Service.modify_bind h)
      refine .inr ⟨c, x, e, hc, by simpa using hopen, hx, hr, ?_, hagent, ?_, ?_, hentry⟩
      · rw [hdata]
        exact data_eq
      · rw [hs, Session.writeAll_writeAll]
        rfl
      · exact Int.lt_of_le_of_lt (Int.ofNat_le.2 hgrants.lastId) hnew

/-- **Loading** either fails and leaves the workflow as it is, or takes over a submission as the tables
are now, with a lock on it if the query says so. -/
theorem load_ends {q : Query .submission} {r : Except Failure Submission} (hl : l.Hosts s)
    (h : (load q).Ends (w, l, s) r y) :
    y.2.2 = s.refresh l ∧ ((∃ e, r = .error e) ∧ Service.Untouched w l s y ∨
      ∃ c, r = .ok c ∧ y.1 = { w with data := some c } ∧
        (l.tables.apply s.changes).submissions.get? c.id = some c ∧
        (q.locked = true → y.2.1.locks ⟨.submission, c.id⟩ = some s.id)) := by
  unfold load at h
  obtain ⟨l', hledger, -, -, ⟨herror, rfl, -⟩ | ⟨hlocks, h⟩⟩ := h.find_bind hl
  · exact ⟨rfl, .inl ⟨herror, rfl, .inr rfl, hledger⟩⟩
  have hkeyed := hl.shown_keyed.submissions
  have listed : ∀ c : Submission, c ∈ Root.submission.inOrder (q.select (l.tables.apply s.changes)) →
      c ∈ q.select (l.tables.apply s.changes) :=
    fun c => (Root.inOrder_perm .submission _).mem_iff.1
  generalize Root.submission.inOrder (q.select (l.tables.apply s.changes)) = found at h listed
  cases found with
  | nil =>
    obtain ⟨hr, rfl⟩ := Service.Ends.refuse h
    exact ⟨rfl, .inl ⟨⟨_, hr⟩, rfl, .inr rfl, hledger⟩⟩
  | cons c rest =>
    obtain ⟨rfl, rfl⟩ := Service.Ends.pure (Service.modify_bind (f := fun _ => pure c) h)
    have hc := listed c List.mem_cons_self
    refine ⟨rfl, .inr ⟨c, rfl, rfl, ?_, fun hlocked => hlocks hlocked c hc⟩⟩
    have hvalue : c ∈ (Root.submission.rows _).values := Query.mem_values_of_mem_select hc
    exact hkeyed.mem_values_iff.1 hvalue

end Workflow

end TeamLedger
