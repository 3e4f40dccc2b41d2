/-
The log of a submission explains its status.

The entries about a submission come in the order of their ids. The first one has
to be that of its creation, and the last one has to say the status that the row
has now, and who completed it. Of what is committed this holds at any time
(`Tables.Audited`). Of a session it holds of what its commit would leave, with
the entry that is still due put at the end (`Ledger.Trail`), and only as long as
the commit would go through.

The ids of entries are handed out while they are pending, so sessions may commit
them in another order. But entries of two sessions about one submission are never
both committed without the second session having seen the row that the first one
left: each has written the row before its entries, and of two that wrote it only
one can commit (`Trail.after_commit`).
-/
import TeamLedger.Proofs.Bookkeeping

set_option autoImplicit false

namespace TeamLedger

/-! ## The log of a submission -/

/-- What a log entry says: a status, and by whom. -/
abbrev Submission.Step := Submission.Status × Ident

namespace Tables

/-- The log entries about a submission, by their ids. -/
def logOf (t : Tables) (id : Ident) : List LogEntry :=
  t.logs.values.filter fun e => e.submissionId = id

/-- They come in the order of their ids. -/
theorem sorted_logOf {t : Tables} (h : t.logs.KeyedBy LogEntry.id) (id : Ident) :
    (t.logOf id).Pairwise (·.id < ·.id) := by
  refine List.Pairwise.filter _ (List.pairwise_map.2 ?_)
  refine t.logs.sorted.imp_of_mem fun {a b} ha hb hlt => ?_
  rwa [h a.1 a.2 (Rows.get?_eq_some_iff.2 ha), h b.1 b.2 (Rows.get?_eq_some_iff.2 hb)]

/-- What the log says of a submission. -/
def steps (t : Tables) (id : Ident) : List Submission.Step :=
  (t.logOf id).map fun e => (e.status, e.byUser)

/-- The log says the same of a submission in both tables. -/
def SameLog (t u : Tables) (id : Ident) : Prop :=
  ∀ k, (t.logs.get? k).filter (fun e => e.submissionId = id) =
    (u.logs.get? k).filter fun e => e.submissionId = id

variable {t u : Tables} {c : Changes} {id : Ident}

theorem SameLog.logOf_eq (h : t.SameLog u id) : t.logOf id = u.logOf id := by
  unfold logOf
  rw [← Rows.values_filter, ← Rows.values_filter]
  refine congrArg Rows.values (Rows.ext_get? fun k => ?_)
  rw [Rows.get?_filter, Rows.get?_filter]
  exact h k

theorem SameLog.steps_eq (h : t.SameLog u id) : t.steps id = u.steps id :=
  congrArg (List.map _) h.logOf_eq

/-- Where two logs say the same, they do so under the same changes. -/
theorem SameLog.apply (h : t.SameLog u id) (c : Changes) : (t.apply c).SameLog (u.apply c) id := by
  intro k
  show ((t.logs.overlay c.logs).get? k).filter _ = ((u.logs.overlay c.logs).get? k).filter _
  rw [Rows.get?_overlay, Rows.get?_overlay]
  cases c.logs.get? k with
  | none => exact h k
  | some e => rfl

/-- New entries about other submissions do not matter. -/
theorem sameLog_apply (hnew : ∀ k, (c.logs.get? k).isSome → t.logs.get? k = none)
    (hother : ∀ k e, c.logs.get? k = some e → e.submissionId ≠ id) : (t.apply c).SameLog t id := by
  intro k
  show ((t.logs.overlay c.logs).get? k).filter _ = _
  rw [Rows.get?_overlay]
  cases he : c.logs.get? k with
  | none => rfl
  | some e =>
    rw [hnew k (by rw [he]; rfl), Option.some_or, Option.filter_some, if_neg]
    · rfl
    · simpa using hother k e he

/-- An entry under a new greatest id comes last. -/
theorem steps_put {e : LogEntry} (h : ∀ k, (t.logs.get? k).isSome → k < e.id) :
    (t.put (.logEntry e)).steps id =
      t.steps id ++ if e.submissionId = id then [(e.status, e.byUser)] else [] := by
  show List.map _ (((t.logs.insert e.id e).values).filter _) = _
  rw [Rows.values_insert_last h, List.filter_append, List.map_append]
  by_cases hid : e.submissionId = id
  · rw [if_pos hid, List.filter_cons_of_pos (by simpa using hid)]
    rfl
  · rw [if_neg hid, List.filter_cons_of_neg (by simpa using hid)]
    rfl

end Tables

/-- What an entry that is due will say of a submission. -/
def Due.steps (due : Option Due) (id : Ident) : List Submission.Step :=
  (due.filter fun d => d.submission = id).toList.map fun d => (d.status, d.byUser)

theorem Due.steps_some (d : Due) (id : Ident) :
    Due.steps (some d) id = if d.submission = id then [(d.status, d.byUser)] else [] := by
  unfold steps
  rw [Option.filter_some]
  by_cases h : d.submission = id
  · rw [if_pos h, if_pos (by simpa using h)]
    rfl
  · rw [if_neg h, if_neg (by simpa using h)]
    rfl

namespace Submission

/-- The steps begin with the creation of the submission. The last one says its status and, if the
submission has been completed, by whom. -/
structure ExplainedBy (x : Submission) (steps : List Step) : Prop where
  first : steps.head? = some (.submitted, x.createdBy)
  last : ∃ user, steps.getLast? = some (x.status, user) ∧ ∀ u, x.completedBy = some u → user = u

/-- A new submission is explained by its creation. -/
theorem ExplainedBy.created (new : NewSubmission) (id : Ident) :
    (new.withId id).ExplainedBy [(.submitted, new.createdBy)] :=
  ⟨rfl, new.createdBy, rfl, nofun⟩

/-- **One step more** explains the status that it says. -/
theorem ExplainedBy.step {x : Submission} {steps : List Step} (h : x.ExplainedBy steps)
    (status : Status) (user : Ident) :
    ({ x with status, completedBy := some user } : Submission).ExplainedBy
      (steps ++ [(status, user)]) where
  first := by rw [List.head?_append, h.first, Option.some_or]
  last := by
    refine ⟨user, List.getLast?_concat, fun u hu => ?_⟩
    exact Option.some.inj hu

end Submission

/-- The log explains every submission, and it is about nothing else. -/
structure Tables.Audited (t : Tables) : Prop where
  explained : ∀ id x, t.submissions.get? id = some x → x.ExplainedBy (t.steps id)
  concern : ∀ k e, t.logs.get? k = some e → (t.submissions.get? e.submissionId).isSome

/-- Nothing has been submitted. -/
theorem Tables.Audited.empty : ({} : Tables).Audited :=
  ⟨fun _ _ hx => (nomatch hx), fun _ _ he => (nomatch he)⟩

/-- Other tables do not matter. -/
theorem Tables.Audited.of_same {t u : Tables} (h : t.Audited)
    (hsubmissions : u.submissions = t.submissions) (hlogs : u.logs = t.logs) : u.Audited := by
  obtain ⟨explained, concern⟩ := h
  unfold steps logOf at explained
  rw [← hsubmissions] at explained concern
  rw [← hlogs] at explained concern
  exact ⟨explained, concern⟩

/-- A session's log, with the entry that is due at its end, explains the submissions that the session
has written. -/
structure Ledger.Trail (l : Ledger) (s : Session) (due : Option Due) : Prop where
  /-- The session logs only what it has written. -/
  concern : ∀ k e, s.changes.logs.get? k = some e →
    (s.changes.submissions.get? e.submissionId).isSome
  new_logs : ∀ k, (s.changes.logs.get? k).isSome → l.tables.logs.get? k = none
  due_written : ∀ d, due = some d → (s.changes.submissions.get? d.submission).isSome
  explained : l.Admits s → ∀ id x, s.changes.submissions.get? id = some x →
    x.ExplainedBy ((l.tables.apply s.changes).steps id ++ Due.steps due id)

namespace Ledger.Trail

variable {l l' : Ledger} {s s' o : Session} {due : Option Due} {id : Ident}

/-! ## While others go on -/

/-- A session that has written nothing. -/
theorem of_empty (h : s.changes = {}) : l.Trail s none := by
  refine ⟨fun _ _ he => ?_, fun _ he => ?_, nofun, fun _ _ _ hx => ?_⟩
  · rw [h] at he
    cases he
  · rw [h] at he
    cases he
  · rw [h] at hx
    cases hx

/-- What matters is the log, the submissions written, and whether the commit would go through. -/
theorem of_same (h : l.Trail s due) (htables : l'.tables.logs = l.tables.logs)
    (hsubmissions : s'.changes.submissions = s.changes.submissions)
    (hlogs : s'.changes.logs = s.changes.logs) (hadmits : l'.Admits s' → l.Admits s) :
    l'.Trail s' due := by
  have logs_eq : (l'.tables.apply s'.changes).logs = (l.tables.apply s.changes).logs := by
    show l'.tables.logs.overlay s'.changes.logs = l.tables.logs.overlay s.changes.logs
    rw [htables, hlogs]
  refine
    { concern := fun k e he => ?concern
      new_logs := fun k hk => ?new_logs
      due_written := fun d hd => ?due_written
      explained := fun hadmits' id x hx => ?explained }
  case concern =>
    rw [hlogs] at he
    rw [hsubmissions]
    exact h.concern k e he
  case new_logs =>
    rw [hlogs] at hk
    rw [htables]
    exact h.new_logs k hk
  case due_written =>
    rw [hsubmissions]
    exact h.due_written d hd
  case explained =>
    rw [hsubmissions] at hx
    unfold Tables.steps Tables.logOf
    rw [logs_eq]
    exact h.explained (hadmits hadmits') id x hx

/-- The session logs nothing about a submission that it has not written. -/
theorem not_about (h : l.Trail s due) (hid : s.changes.submissions.get? id = none) (k : Ident)
    (e : LogEntry) (he : s.changes.logs.get? k = some e) : e.submissionId ≠ id := by
  rintro rfl
  have := h.concern k e he
  rw [hid] at this
  cases this

/-- **Another session commits.** Either it has written other submissions, or this session can no
longer commit. -/
theorem after_commit {ses : String → Option Session} {n : String} (h : l.Trail s due)
    (ho : l.Trail o none) (sound : l.Sound ses) (hs : ses n = some s)
    (apart : ∀ k, (s.changes.logs.get? k).isSome → o.changes.logs.get? k = none) :
    (l.commit o).2.Trail s due := by
  by_cases hadmits : l.Admits o
  case neg =>
    obtain ⟨e, he⟩ := commit_of_not_admits hadmits
    rw [he]
    exact h.of_same rfl rfl rfl id
  case pos =>
    have tables_eq : (l.commit o).2.tables = l.tables.apply o.changes := by
      rw [commit_of_admits hadmits]
    refine ⟨h.concern, fun k hk => ?_, h.due_written, fun hafter id x hx => ?_⟩
    · rw [tables_eq]
      show (l.tables.logs.overlay o.changes.logs).get? k = none
      rw [Rows.get?_overlay, apart k hk, h.new_logs k hk]
      rfl
    · obtain ⟨hbefore, different⟩ := sound.admits_after hs hadmits hafter
      have unwritten : o.changes.submissions.get? id = none := by
        refine Option.not_isSome_iff_eq_none.1 fun hox => different ⟨.submission, id⟩ ?_ ?_
        · rw [Changes.mem_written_submission, hx]
          rfl
        · exact Changes.mem_written_submission.2 hox
      have same := (Tables.sameLog_apply ho.new_logs (ho.not_about unwritten)).apply s.changes
      rw [tables_eq, same.steps_eq]
      exact h.explained hbefore id x hx

/-- Every entry that the commit would leave is about a submission that it would leave. -/
theorem concern_all (h : l.Trail s due) (ht : l.tables.Audited) {k : Ident} {e : LogEntry}
    (he : (l.tables.apply s.changes).logs.get? k = some e) :
    ((l.tables.apply s.changes).submissions.get? e.submissionId).isSome := by
  replace he : (l.tables.logs.overlay s.changes.logs).get? k = some e := he
  show ((l.tables.submissions.overlay s.changes.submissions).get? e.submissionId).isSome
  rw [Rows.get?_overlay, Option.isSome_or, Bool.or_eq_true]
  rw [Rows.get?_overlay, Option.or_eq_some_iff] at he
  rcases he with he | ⟨-, he⟩
  · exact .inl (h.concern k e he)
  · exact .inr (ht.concern k e he)

/-- **The commit.** When no entry is due, what the session leaves is explained again. -/
theorem audited (h : l.Trail s none) (ht : l.tables.Audited) (hadmits : l.Admits s) :
    (l.tables.apply s.changes).Audited := by
  refine ⟨fun id x hx => ?_, fun k e he => h.concern_all ht he⟩
  replace hx : (l.tables.submissions.overlay s.changes.submissions).get? id = some x := hx
  rw [Rows.get?_overlay] at hx
  cases hown : s.changes.submissions.get? id with
  | some y =>
    rw [hown] at hx
    cases hx
    have explained := h.explained hadmits id x hown
    rwa [show Due.steps none id = [] from rfl, List.append_nil] at explained
  | none =>
    rw [hown] at hx
    rw [(Tables.sameLog_apply h.new_logs (h.not_about hown)).steps_eq]
    exact ht.explained id x hx

end Ledger.Trail

/-! ## What the session itself does -/

/-- The write is one of a submission or of a log entry. -/
def Put.booked : Put → Bool
  | submission _ | logEntry _ => true
  | _ => false

/-- Other writes leave submissions and log as they are. -/
theorem Changes.putAll_of_unbooked (c : Changes) {ps : List Put} (h : ∀ p ∈ ps, p.booked = false) :
    (c.putAll ps).submissions = c.submissions ∧ (c.putAll ps).logs = c.logs := by
  induction ps generalizing c with
  | nil => exact ⟨rfl, rfl⟩
  | cons p ps ih =>
    obtain ⟨hsubmissions, hlogs⟩ := ih (c.put p) fun q hq => h q (List.mem_cons_of_mem _ hq)
    have hp := h p List.mem_cons_self
    rw [putAll_cons, hsubmissions, hlogs]
    cases p with
    | submission x => cases hp
    | logEntry e => cases hp
    | _ => exact ⟨rfl, rfl⟩

theorem Session.booked_of_mem_writes {l : Ledger} {s : Session} {c : StoreCall} {p : Put}
    (hc : c.booked = false) (hp : p ∈ s.writes l c) : p.booked = false := by
  cases c with
  | insertSubmission _ | updateSubmissionStatus _ _ _ | insertLogEntry _ => cases hc
  | insertInvoice _ | insertHistory _ =>
    cases List.mem_singleton.1 hp
    rfl
  | updateInvoiceStatus _ _ | setHasSubmission _ _ | markPaid _ _ | linkInvoices _ _
  | deleteLimits _ _ =>
    obtain ⟨_, -, rfl⟩ := List.mem_map.1 hp
    rfl
  | saveLimit limit =>
    simp only [writes] at hp
    split at hp
    · cases List.mem_singleton.1 hp
      rfl
    · obtain ⟨stored, -, rfl⟩ := Option.map_eq_some_iff.1 (Option.mem_toList.1 hp)
      rfl
  | _ => cases hp

namespace Ledger.Hosts

variable {l : Ledger} {s : Session}

/-- A call that writes neither submissions nor their log leaves them as they are. -/
theorem answer_of_unbooked (h : l.Hosts s) {c : StoreCall} (hc : c.booked = false) :
    (s.answer l c).2.2.changes.submissions = s.changes.submissions ∧
      (s.answer l c).2.2.changes.logs = s.changes.logs := by
  rw [h.answer_changes c]
  exact s.changes.putAll_of_unbooked fun p hp => Session.booked_of_mem_writes hc hp

/-- The next id is greater than those of all entries of the log, committed or not. -/
theorem lt_newId_of_log (h : l.Hosts s) {id : Ident}
    (hid : ((l.tables.apply s.changes).logs.get? id).isSome) : id < l.newId.1 := by
  refine lt_newId ?_
  rcases Tables.uses_apply (.inr (.inr (.inl hid))) with hused | hused
  · exact h.within id hused
  · exact h.fits.changes_within id hused

end Ledger.Hosts

namespace Ledger.Trail

variable {l l' : Ledger} {s : Session} {id : Ident}

/-- **A submission is written**, and the entry that is due from then on explains its status. -/
theorem put (h : l.Trail s none) {x : Submission} {d : Due} (htables : l'.tables = l.tables)
    (hversions : l'.versions = l.versions) (hd : d.submission = x.id)
    (hx : l.Admits (s.putSubmission x) →
      x.ExplainedBy ((l.tables.apply s.changes).steps x.id ++ [(d.status, d.byUser)])) :
    l'.Trail (s.putSubmission x) (some d) := by
  have get?_eq (k : Ident) : (s.putSubmission x).changes.submissions.get? k =
      if k = x.id then some x else s.changes.submissions.get? k :=
    Rows.get?_insert ..
  refine
    { concern := fun k e he => ?concern
      new_logs := fun k hk => ?new_logs
      due_written := fun d' hd' => ?due_written
      explained := fun hadmits id y hy => ?explained }
  case concern =>
    rw [get?_eq]
    split
    · rfl
    · exact h.concern k e he
  case new_logs =>
    rw [htables]
    exact h.new_logs k hk
  case due_written =>
    cases hd'
    rw [get?_eq, if_pos hd]
    rfl
  case explained =>
    have hadmits' : l.Admits (s.putSubmission x) := fun k hk => hversions ▸ hadmits k hk
    rw [get?_eq] at hy
    rw [htables, Due.steps_some, hd]
    split at hy
    next hid =>
      cases hy
      rw [if_pos hid.symm, hid]
      exact hx hadmits'
    next hid =>
      rw [if_neg (Ne.symm hid)]
      refine h.explained (fun k hk => hadmits' k ?_) id y hy
      exact (Changes.mem_written_put (p := .submission x)).2 (.inr hk)

/-- A new submission: nothing can have been logged about an id that is handed out only now. -/
theorem insertSubmission (h : l.Trail s none) (ht : l.tables.Audited) (hosts : l.Hosts s)
    (new : NewSubmission) : l.newId.2.Trail (s.putSubmission (new.withId l.newId.1))
      (some ⟨l.newId.1, .submitted, new.createdBy⟩) := by
  refine h.put rfl rfl rfl fun _ => ?_
  have nothing : (l.tables.apply s.changes).logOf l.newId.1 = [] := by
    refine List.filter_eq_nil_iff.2 fun e he => ?_
    obtain ⟨k, hk⟩ := Rows.mem_values.1 he
    intro habout
    refine hosts.newId_unused (.inr (.inl ?_))
    rw [← of_decide_eq_true habout]
    exact h.concern_all ht hk
  show Submission.ExplainedBy _ (List.map _ ((l.tables.apply s.changes).logOf l.newId.1) ++ _)
  rw [nothing]
  exact .created new l.newId.1

/-- A status: if the commit would go through, the row is the one that the log explains so far. -/
theorem updateStatus (h : l.Trail s none) (ht : l.tables.Audited) (hosts : l.Hosts s)
    {x : Submission} (hx : s.view.submissions.get? id = some x) (status : Submission.Status)
    (user : Ident) : l.Trail (s.putSubmission { x with status, completedBy := some user })
      (some ⟨id, status, user⟩) := by
  obtain rfl : x.id = id := hosts.fits.view_keyed.submissions id x hx
  refine h.put rfl rfl rfl fun hadmits => ?_
  have mem_written {k : RowKey} := Changes.mem_written_put (c := s.changes) (k := k)
    (p := .submission { x with status, completedBy := some user })
  have row_eq := hosts.fits.sameRow_view (k := ⟨.submission, x.id⟩)
    (hadmits _ (mem_written.2 (.inl rfl)))
  have audited := h.audited ht fun k hk => hadmits k (mem_written.2 (.inr hk))
  exact (audited.explained x.id x (Eq.trans row_eq hx)).step status user

/-- The entry that was due is written, and comes last. -/
theorem insertLogEntry {new : NewLogEntry}
    (h : l.Trail s (some ⟨new.submissionId, new.status, new.byUser⟩)) (hosts : l.Hosts s) :
    l.newId.2.Trail (s.putLogEntry (new.withId l.newId.1)) none := by
  have get?_eq (k : Ident) : (s.putLogEntry (new.withId l.newId.1)).changes.logs.get? k =
      if k = l.newId.1 then some (new.withId l.newId.1) else s.changes.logs.get? k :=
    Rows.get?_insert ..
  refine
    { concern := fun k e he => ?concern
      new_logs := fun k hk => ?new_logs
      due_written := nofun
      explained := fun hadmits id x hx => ?explained }
  case concern =>
    rw [get?_eq] at he
    split at he
    · cases he
      exact h.due_written _ rfl
    · exact h.concern k e he
  case new_logs =>
    rw [get?_eq] at hk
    split at hk
    next hid =>
      refine Option.not_isSome_iff_eq_none.1 fun hused => ?_
      rw [hid] at hused
      exact l.not_newId_le (hosts.within _ (.inr (.inr (.inl hused))))
    next => exact h.new_logs k hk
  case explained =>
    have explained := h.explained hadmits id x hx
    rw [Due.steps_some] at explained
    have lands : (Put.logEntry (new.withId l.newId.1)).Lands s.changes :=
      fun _ hl => nomatch hl
    show x.ExplainedBy ((l.tables.apply (s.changes.put (.logEntry (new.withId l.newId.1)))).steps id
      ++ [])
    rw [List.append_nil, Tables.apply_put _ lands,
      Tables.steps_put fun k hk => hosts.lt_newId_of_log hk]
    exact explained

/-- **A call of the session** that is allowed by its books. -/
theorem answer {g : Book} (h : l.Trail s g.due) (ht : l.tables.Audited) (hosts : l.Hosts s)
    {c : StoreCall} (hc : g.Allows (.store c)) : (s.answer l c).2.1.Trail (s.answer l c).2.2
      (g.enter (.store c) (s.answer l c).1).due := by
  cases hbooked : c.booked with
  | false =>
    obtain ⟨hsubmissions, hlogs⟩ := hosts.answer_of_unbooked hbooked
    have grants := s.answer_ledger l c
    rw [Book.enter_of_unbooked (r := .store c) hbooked]
    refine h.of_same (by rw [grants.tables]) hsubmissions hlogs ?_
    exact Session.Onward.admits (.answer hosts c) grants.versions
  | true =>
    cases c with
    | insertSubmission new =>
      have hdue : g.due = none := hc
      rw [hdue] at h
      exact h.insertSubmission ht hosts new
    | updateSubmissionStatus id status user =>
      have hdue : g.due = none := hc
      rw [hdue] at h
      simp only [Session.answer]
      split
      next x hx => exact h.updateStatus ht hosts hx status user
      next =>
        show l.Trail s g.due
        rw [hdue]
        exact h
    | insertLogEntry new =>
      have hdue : g.due = some ⟨new.submissionId, new.status, new.byUser⟩ := hc
      rw [hdue] at h
      exact h.insertLogEntry hosts
    | _ => cases hbooked

/-- **An answer to the session**, of whatever kind. -/
theorem respond {g : Book} (h : l.Trail s g.due) (ht : l.tables.Audited) (hosts : l.Hosts s)
    (around : Surroundings) {r : Request} (hr : g.Allows r) :
    (Session.backend.respond (l, s) around r).2.1.1.Trail
      (Session.backend.respond (l, s) around r).2.1.2
      (g.enter r (Session.backend.respond (l, s) around r).1).due := by
  cases r with
  | store c => exact h.answer ht hosts hr
  | _ => exact h

end Ledger.Trail

/-! ## The entries written -/

/-- The log entry that an answer tells to be written. -/
def Request.written? : (r : Request) → r.Answer → Option LogEntry
  | .store (.insertLogEntry _), .ok e => some e
  | _, _ => none

namespace Ledger.Hosts

variable {l : Ledger} {s : Session}

/-- The session's log changes only if an entry is asked for. -/
theorem logs_respond (h : l.Hosts s) (around : Surroundings) (r : Request) :
    (∃ new, r = .store (.insertLogEntry new)) ∨
      r.written? (Session.backend.respond (l, s) around r).1 = none ∧
        (Session.backend.respond (l, s) around r).2.1.2.changes.logs = s.changes.logs := by
  cases r with
  | store c =>
    show _ ∨ (Request.store c).written? (s.answer l c).1 = none ∧
      (s.answer l c).2.2.changes.logs = s.changes.logs
    cases c with
    | insertLogEntry new => exact .inl ⟨new, rfl⟩
    | insertSubmission new => exact .inr ⟨rfl, rfl⟩
    | updateSubmissionStatus id status user =>
      refine .inr ⟨rfl, ?_⟩
      simp only [Session.answer]
      split <;> rfl
    | _ => exact .inr ⟨rfl, (h.answer_of_unbooked rfl).2⟩
  | _ => exact .inr ⟨rfl, rfl⟩

/-- **The entries of a session** come in the order in which it writes them. -/
theorem log_values_respond (h : l.Hosts s) (around : Surroundings) (r : Request) :
    (Session.backend.respond (l, s) around r).2.1.2.changes.logs.values =
      s.changes.logs.values ++ (r.written? (Session.backend.respond (l, s) around r).1).toList := by
  rcases h.logs_respond around r with ⟨new, rfl⟩ | ⟨hentry, hlogs⟩
  · refine Rows.values_insert_last fun k hk => lt_newId (h.fits.changes_within k ?_)
    exact .inr (.inr (.inl hk))
  · rw [hentry, hlogs]
    exact (List.append_nil _).symm

theorem isSome_logs_respond (h : l.Hosts s) (around : Surroundings) (r : Request) {k : Ident}
    (hk : ((Session.backend.respond (l, s) around r).2.1.2.changes.logs.get? k).isSome) :
    k = l.newId.1 ∨ (s.changes.logs.get? k).isSome := by
  rcases h.logs_respond around r with ⟨new, rfl⟩ | ⟨-, hlogs⟩
  · exact isSome_get?_insert hk
  · rw [hlogs] at hk
    exact .inr hk

end Ledger.Hosts

/-- Whatever is answered, the ledger grants ids and locks. -/
theorem Session.grants_respond (l : Ledger) (s : Session) (around : Surroundings) (r : Request) :
    l.Grants s.id (Session.backend.respond (l, s) around r).2.1.1 := by
  cases r with
  | store c => exact s.answer_ledger l c
  | _ => exact .refl ..

/-- Answers are such as the discipline expects. -/
theorem Session.plausible_respond (l : Ledger) (s : Session) (around : Surroundings) (r : Request) :
    r.Plausible (Session.backend.respond (l, s) around r).1 := by
  cases r with
  | store c => exact s.answer_certain l
  | _ => trivial

/-- The books tell the statuses of the entries written. -/
theorem Book.logged_enter (g : Book) (l : Ledger) (s : Session) (around : Surroundings)
    (r : Request) : (g.enter r (Session.backend.respond (l, s) around r).1).logged =
      g.logged ++ (r.written? (Session.backend.respond (l, s) around r).1).toList.map (·.status) := by
  cases r with
  | store c =>
    show (g.enter (.store c) (s.answer l c).1).logged =
      g.logged ++ ((Request.store c).written? (s.answer l c).1).toList.map (·.status)
    cases c with
    | insertLogEntry new => rfl
    | updateSubmissionStatus id status user =>
      simp only [Session.answer]
      split <;> exact (List.append_nil _).symm
    | _ => exact (List.append_nil _).symm
  | _ => exact (List.append_nil _).symm

end TeamLedger
