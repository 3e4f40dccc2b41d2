/-
What a statement that reads is answered.

A session reads what is committed at that moment, with its own writes on top and
nothing else: its snapshot may have been as old as its beginning, and other
sessions may have any number of writes pending, but neither shows. The tables
that a statement is to read are described row by row, from what is committed and
from the session's writes in the order in which they were made (`Tables.ReadBy`),
and the answer is that of the statement on these tables (`StoreCall.answerOn`).
Both speak of no snapshot and of no changes laid over anything.

That the session's changes come to the same as its writes one after the other is
part of what the log is worth (`Session.Traced.apply_eq`); here it remains to
look up a row after a list of writes.
-/
import TeamLedger.Proofs.Commit

set_option autoImplicit false

namespace TeamLedger

/-! ## The last write -/

namespace Put

/-- The invoice that is written, if one is. -/
def invoice? : Put → Option Invoice
  | invoice i => some i
  | _ => none

/-- The submission that is written, if one is. -/
def submission? : Put → Option Submission
  | submission x => some x
  | _ => none

/-- The log entry that is written, if one is. -/
def logEntry? : Put → Option LogEntry
  | logEntry e => some e
  | _ => none

/-- The payment that is written, if one is. -/
def history? : Put → Option History
  | history h => some h
  | _ => none

/-- What becomes of the limit with an id, if it is written: it is stored, or it is there no more. -/
def limitUnder (id : Ident) : Put → Option (Option Limit)
  | limit l => if l.id = id then some (some l) else none
  | dropLimit k => if k = id then some none else none
  | _ => none

/-- What the last of the writes tells that tells anything. -/
def last? {α : Type} (about : Put → Option α) (ps : List Put) : Option α :=
  ps.reverse.findSome? about

/-- The row that was written last under an id. -/
def lastUnder? {α : Type} (row? : Put → Option α) (idOf : α → Ident) (id : Ident) (ps : List Put) :
    Option α :=
  last? (fun p => (row? p).filter fun a => idOf a = id) ps

theorem last?_concat {α : Type} (about : Put → Option α) (ps : List Put) (p : Put) :
    last? about (ps ++ [p]) = (about p).or (last? about ps) := by
  unfold last?
  rw [List.reverse_concat, List.findSome?_cons]
  cases about p <;> rfl

end Put

/-! ## What is to be read -/

/-- The tables `seen` are the committed ones with a session's own writes on top: under every id the row
that the session wrote last, where it wrote one, and otherwise the committed row. A limit that the
session has deleted is not there, and its links follow the committed ones. -/
structure Tables.ReadBy (committed : Tables) (own : List Put) (seen : Tables) : Prop where
  teams : seen.teams = committed.teams
  invoices : ∀ id, seen.invoices.get? id =
    (Put.lastUnder? Put.invoice? Invoice.id id own).or (committed.invoices.get? id)
  submissions : ∀ id, seen.submissions.get? id =
    (Put.lastUnder? Put.submission? Submission.id id own).or (committed.submissions.get? id)
  links : seen.links = committed.links ++ own.filterMap Put.link?
  logs : ∀ id, seen.logs.get? id =
    (Put.lastUnder? Put.logEntry? LogEntry.id id own).or (committed.logs.get? id)
  histories : ∀ id, seen.histories.get? id =
    (Put.lastUnder? Put.history? History.id id own).or (committed.histories.get? id)
  limits : ∀ id, seen.limits.get? id =
    (Put.last? (Put.limitUnder id) own).getD (committed.limits.get? id)

/-- There is only one way to read. -/
theorem Tables.ReadBy.unique {committed seen seen' : Tables} {own : List Put}
    (h : committed.ReadBy own seen) (h' : committed.ReadBy own seen') : seen = seen' := by
  refine Tables.ext_get? ?_ ?_ ?_ ?_ ?_ ?_ ?_
  · rw [h.teams, h'.teams]
  · intro id
    rw [h.invoices, h'.invoices]
  · intro id
    rw [h.submissions, h'.submissions]
  · rw [h.links, h'.links]
  · intro id
    rw [h.logs, h'.logs]
  · intro id
    rw [h.histories, h'.histories]
  · intro id
    rw [h.limits, h'.limits]

namespace Tables

variable (t : Tables) (ps : List Put)

/-- A row after writes, in a table whose rows are never deleted. -/
theorem get?_putAll {α : Type} {rows : Tables → Rows α} {row? : Put → Option α} {idOf : α → Ident}
    (hput : ∀ t p, rows (t.put p) = (row? p).elim (rows t) fun a => (rows t).insert (idOf a) a)
    (id : Ident) :
    (rows (t.putAll ps)).get? id = (Put.lastUnder? row? idOf id ps).or ((rows t).get? id) := by
  unfold Put.lastUnder?
  induction ps using List.reverseRecOn with
  | nil => rfl
  | append_singleton ps p ih =>
    rw [putAll_append, putAll_cons, putAll_nil, hput, Put.last?_concat]
    cases row? p with
    | none => exact ih
    | some a =>
      rw [Option.elim_some, Rows.get?_insert]
      by_cases hid : id = idOf a
      · rw [if_pos hid, Option.filter_some_pos (by simpa using hid.symm)]
        rfl
      · rw [if_neg hid, Option.filter_some_neg (by simpa using Ne.symm hid)]
        exact ih

theorem get?_limits_putAll (id : Ident) :
    (t.putAll ps).limits.get? id = (Put.last? (Put.limitUnder id) ps).getD (t.limits.get? id) := by
  induction ps using List.reverseRecOn with
  | nil => rfl
  | append_singleton ps p ih =>
    rw [putAll_append, putAll_cons, putAll_nil, Put.last?_concat]
    cases p with
    | limit l =>
      simp only [put, Rows.get?_insert, Put.limitUnder]
      by_cases hid : id = l.id
      · rw [if_pos hid, if_pos hid.symm]
        rfl
      · rw [if_neg hid, if_neg (Ne.symm hid)]
        exact ih
    | dropLimit k =>
      simp only [put, Rows.get?_eraseAll, List.mem_singleton, Put.limitUnder]
      by_cases hid : id = k
      · rw [if_pos hid, if_pos hid.symm]
        rfl
      · rw [if_neg hid, if_neg (Ne.symm hid)]
        exact ih
    | _ => exact ih

/-- **Writes one after the other** leave what is to be read. -/
theorem readBy_putAll : t.ReadBy ps (t.putAll ps) where
  teams := by
    induction ps generalizing t with
    | nil => rfl
    | cons p ps ih =>
      rw [putAll_cons, ih]
      cases p <;> rfl
  invoices := t.get?_putAll ps (by rintro t ⟨⟩ <;> rfl)
  submissions := t.get?_putAll ps (by rintro t ⟨⟩ <;> rfl)
  links := t.putAll_links ps
  logs := t.get?_putAll ps (by rintro t ⟨⟩ <;> rfl)
  histories := t.get?_putAll ps (by rintro t ⟨⟩ <;> rfl)
  limits := t.get?_limits_putAll ps

end Tables

/-! ## Answers on tables -/

/-- What a statement that reads answers on tables. One that locks is refused over the first of its rows
that is taken. Calls that do not read have no answer here. -/
def StoreCall.answerOn (t : Tables) (taken : LockKey → Bool) :
    (c : StoreCall) → Option (Except Failure c.Answer)
  | .find root q =>
    match (q.select t).find? fun row => q.locked && taken ⟨root, root.idOf row⟩ with
    | some row => some (.error (.refused (.lockConflict (.row (root.idOf row) root.table))))
    | none => some (.ok (root.inOrder (q.select t)))
  | .team id => some (.ok (t.teams.get? id))
  | .teams ids => some (.ok (t.teams.values.filter fun team => ids.contains team.id))
  | .unpaidAmount fromTeam toTeam => some (Session.ofMoney (t.unpaidAmount fromTeam toTeam))
  | .applicableLimits teamId forTeam => some (.ok (t.applicableLimits teamId forTeam))
  | .findLimit teamId scope forTeam => some (.ok (t.findLimit teamId scope forTeam))
  | .limitsOf teamId => some (.ok (t.limits.values.filter fun l => l.teamId = teamId))
  | .limitsForCounterpart forTeam teamIds => some (.ok (t.limits.values.filter fun l =>
      l.forTeam = some forTeam && teamIds.contains l.teamId))
  | .debts fromTeam toTeams => some (Session.ofMoney (t.debts fromTeam toTeams))
  | _ => none

/-- The row is locked by another session. -/
def Ledger.taken (l : Ledger) (id : SessionId) (k : LockKey) : Bool := (l.locks k).any (· ≠ id)

/-- Locking is refused over the first row that is taken. -/
theorem Ledger.lock_eq (l : Ledger) (id : SessionId) {root : Root} (rows : List root.Row) :
    (∃ row, rows.find? (fun row => l.taken id ⟨root, root.idOf row⟩) = some row ∧
      l.lock id root (rows.map root.idOf) =
        .error (.lockConflict (.row (root.idOf row) root.table))) ∨
    rows.find? (fun row => l.taken id ⟨root, root.idOf row⟩) = none ∧
      ∃ l', l.lock id root (rows.map root.idOf) = .ok l' := by
  have find_eq : (rows.map root.idOf).find? (fun k => (l.locks ⟨root, k⟩).any (· ≠ id)) =
      (rows.find? fun row => l.taken id ⟨root, root.idOf row⟩).map root.idOf := by
    rw [List.find?_map]
    rfl
  unfold lock
  rw [find_eq]
  cases rows.find? fun row => l.taken id ⟨root, root.idOf row⟩ with
  | some row => exact .inl ⟨row, rfl, rfl⟩
  | none => exact .inr ⟨rfl, _, rfl⟩

/-- **A session answers on the tables that its commit would leave**, and refuses a lock that another one
holds. -/
theorem Session.answerOn_eq (l : Ledger) (s : Session) {c : StoreCall} (hc : c.reads = true) :
    c.answerOn (l.tables.apply s.changes) (l.taken s.id) = some (s.answer l c).1 := by
  cases c with
  | find root q =>
    simp only [StoreCall.answerOn, answer, find, refresh_view, refresh_id]
    cases hlocked : q.locked with
    | false =>
      have none_taken : (q.select (l.tables.apply s.changes)).find?
          (fun row => false && l.taken s.id ⟨root, root.idOf row⟩) = none :=
        List.find?_eq_none.2 fun row _ => Bool.false_ne_true
      rw [none_taken]
      rfl
    | true =>
      simp only [Bool.true_and, if_true]
      rcases l.lock_eq s.id (q.select (l.tables.apply s.changes)) with
        ⟨row, hfind, hlock⟩ | ⟨hfind, l', hlock⟩
      · rw [hfind, hlock]
        rfl
      · rw [hfind, hlock]
        rfl
  | team _ | teams _ | unpaidAmount _ _ | applicableLimits _ _ | findLimit _ _ _ | limitsOf _
  | limitsForCounterpart _ _ | debts _ _ => rfl
  | _ => cases hc

/-! ## Every read -/

namespace World

variable {around : Surroundings} {w : World} {log : List Note}

/-- **Every read is of what is committed, with the session's own writes on top.** In every world that
can be reached, by any events of any number of sessions, a statement that reads is answered on the
tables as they are committed at that moment and as the session itself has written to them; apart from
the locks that others hold, nothing else counts. -/
theorem read_answers_committed_and_own (h : Logged around w log) {name : String} {s : Session}
    (hs : w.open? name = some s) {c : StoreCall} (hc : c.reads = true) :
    ∃ seen, w.ledger.tables.ReadBy (Log.puts log s.id) seen ∧
      ∃ a w', w.run name none (Program.request (.store c)) = some (a, w') ∧
        c.answerOn seen (w.ledger.taken s.id) = some a := by
  have seen_eq := (h.traced.sessions name s hs).apply_eq w.ledger.tables
  obtain ⟨⟨a, w'⟩, hrun⟩ := Option.isSome_iff_exists.1
    ((w.run_isSome name (Program.request (.store c))).trans (by rw [hs]; rfl))
  refine ⟨_, w.ledger.tables.readBy_putAll (Log.puts log s.id), a, w', hrun, ?_⟩
  obtain ⟨s₀, l', s', around', hs₀, hprogram, -, -⟩ := run_eq_some hrun
  cases hs.symm.trans hs₀
  have answer_eq : (s.answer w.ledger c).1 = a := congrArg Prod.fst hprogram
  rw [← seen_eq, ← answer_eq]
  exact s.answerOn_eq w.ledger hc

/-- A session begins and stores an invoice. Another one has committed an invoice since it began, and a
third one has stored one that is not committed: the session finds the first two. -/
theorem read_answers_committed_and_own_mixed : ∃ w log s seen rows,
    Logged { clock := ⟨⟨0, 0, by decide⟩⟩ } w log ∧ w.open? "reader" = some s ∧
      w.ledger.tables.ReadBy (Log.puts log s.id) seen ∧
        StoreCall.answerOn seen (w.ledger.taken s.id) (.find .invoice (.start .invoice true)) =
          some (.ok rows) ∧ rows.map Invoice.id = [1, 3] := by
  have key (w log s) (h : Logged { clock := ⟨⟨0, 0, by decide⟩⟩ } w log)
      (hs : w.open? "reader" = some s)
      (hids : (w.run "reader" none (Program.request
        (.store (.find .invoice (.start .invoice true))))).bind (fun r =>
          r.1.toOption.map (List.map Invoice.id)) = some [1, 3]) :
      ∃ seen rows, w.ledger.tables.ReadBy (Log.puts log s.id) seen ∧
        StoreCall.answerOn seen (w.ledger.taken s.id) (.find .invoice (.start .invoice true)) =
          some (.ok rows) ∧ rows.map Invoice.id = [1, 3] := by
    obtain ⟨seen, hseen, a, w', hrun, ha⟩ := read_answers_committed_and_own h hs
      (c := .find .invoice (.start .invoice true)) rfl
    rw [hrun] at hids
    obtain ⟨rows, hok, hrows⟩ := Option.map_eq_some_iff.1 hids
    cases a with
    | error e => cases hok
    | ok rows' =>
      cases hok
      exact ⟨seen, rows, hseen, ha, hrows⟩
  have committed : Logged { clock := ⟨⟨0, 0, by decide⟩⟩ } _ _ :=
    (((Logged.start.step (.begin "reader")).step (.begin "other")).step
      (.call "other" (.insertInvoice default))).step (.commit "other")
  have pending := (committed.step (.begin "third")).step (.call "third" (.insertInvoice default))
  have h := pending.step (.call "reader" (.insertInvoice default))
  obtain ⟨seen, rows, hread⟩ := key _ _ _ h rfl (by decide)
  exact ⟨_, _, _, seen, rows, h, rfl, hread⟩

end World

end TeamLedger
