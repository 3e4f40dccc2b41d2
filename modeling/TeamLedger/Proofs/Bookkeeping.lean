/-
Every status is written together with its log entry.

A workflow writes the status of a submission in one request and the log entry in
a later one, and between the two other sessions may go on. What it must not do is
to write another status before the entry, or to end without it. This is the
discipline that is kept to here: an entry is due after a status was written, it
is the next thing written about submissions, and it says the same status and the
same user (`Errand.program_keeps`). It holds on every way a workflow can take, for
nothing can fail between the two requests.

What a workflow remembers as its steps are the entries that it has written, one
by one.
-/
import TeamLedger.Workflow
import TeamLedger.Proofs.Offices

set_option autoImplicit false

namespace TeamLedger

/-! ## Services with a state -/

namespace Service

variable {σ α β γ : Type} {D : Discipline γ}

/-- The service, begun in a state, keeps to the discipline, and its result and state then meet `Q`
with what is known by then. -/
def KeepsFrom (D : Discipline γ) (Q : Except Failure α → σ → γ → Prop) (p : Service σ α) (st : σ)
    (g : γ) : Prop :=
  (p st).Keeps D (fun x g => Q x.1 x.2 g) g

variable {Q : Except Failure β → σ → γ → Prop} {st : σ} {g : γ}

theorem KeepsFrom.bind {p : Service σ α} {f : α → Service σ β}
    (h : p.KeepsFrom D (fun r st g => match r with
      | .ok a => (f a).KeepsFrom D Q st g
      | .error e => Q (.error e) st g) st g) : (p >>= f).KeepsFrom D Q st g := by
  unfold KeepsFrom
  rw [bind_apply]
  refine Program.Keeps.bind (Program.Keeps.mono ?_ h)
  rintro ⟨r | r, st'⟩ g' h
  · exact h
  · exact h

theorem KeepsFrom.mono {Q Q' : Except Failure α → σ → γ → Prop}
    (hq : ∀ r st g, Q r st g → Q' r st g) {p : Service σ α} (h : p.KeepsFrom D Q st g) :
    p.KeepsFrom D Q' st g := by
  refine Program.Keeps.mono ?_ h
  rintro ⟨r, st'⟩ g' hr
  exact hq r st' g' hr

theorem KeepsFrom.pure {Q : Except Failure α → σ → γ → Prop} {a : α} (h : Q (.ok a) st g) :
    (Pure.pure a : Service σ α).KeepsFrom D Q st g := h

theorem KeepsFrom.refuse {Q : Except Failure α → σ → γ → Prop} {e : LedgerError}
    (h : Q (.error (.refused e)) st g) : (Service.refuse e : Service σ α).KeepsFrom D Q st g := h

theorem KeepsFrom.get_bind {f : σ → Service σ β} (h : (f st).KeepsFrom D Q st g) :
    ((MonadState.get : Service σ σ) >>= f).KeepsFrom D Q st g :=
  .bind h

theorem KeepsFrom.modify_bind {u : σ → σ} {f : PUnit → Service σ β}
    (h : (f ()).KeepsFrom D Q (u st) g) :
    ((modify u : Service σ PUnit) >>= f).KeepsFrom D Q st g :=
  .bind h

theorem KeepsFrom.ofMoney_bind {r : Except Money.Overflow α} {f : α → Service σ β}
    (hok : ∀ a, r = .ok a → (f a).KeepsFrom D Q st g)
    (herror : ∀ e, Q (.error e) st g) : (Service.ofMoney r >>= f).KeepsFrom D Q st g := by
  cases r with
  | ok a => exact .bind (hok a rfl)
  | error operation => exact .bind (herror (.overflow operation))

theorem KeepsFrom.call_bind {c : StoreCall} {f : c.Answer → Service σ β}
    (hc : D.allows g (.store c))
    (hok : ∀ a g', D.learns g (.store c) (.ok a) g' → (f a).KeepsFrom D Q st g')
    (herror : ∀ e g', D.learns g (.store c) (.error e) g' → Q (.error e) st g') :
    (Service.call c >>= f).KeepsFrom D Q st g := by
  refine KeepsFrom.bind ⟨hc, ?_⟩
  rintro (e | a) g' hg
  · exact herror e g' hg
  · exact hok a g' hg

/-- The last call of a service. -/
theorem KeepsFrom.call {c : StoreCall} {Q : Except Failure c.Answer → σ → γ → Prop}
    (hc : D.allows g (.store c)) (h : ∀ a g', D.learns g (.store c) a g' → Q a st g') :
    (Service.call c : Service σ c.Answer).KeepsFrom D Q st g := by
  refine ⟨hc, ?_⟩
  rintro (e | a) g' hg
  · exact h (.error e) g' hg
  · exact h (.ok a) g' hg

theorem KeepsFrom.now_bind {f : Instant → Service σ β} (hc : D.allows g .now)
    (h : ∀ t g', D.learns g .now t g' → (f t).KeepsFrom D Q st g') :
    (Service.now >>= f).KeepsFrom D Q st g :=
  .bind ⟨hc, fun t g' hg => h t g' hg⟩

theorem KeepsFrom.count_bind {metric : Metric} {label : String} {f : Unit → Service σ β}
    (hc : D.allows g (.count metric label))
    (h : ∀ g', D.learns g (.count metric label) () g' → (f ()).KeepsFrom D Q st g') :
    (Service.count metric label >>= f).KeepsFrom D Q st g :=
  .bind ⟨hc, fun _ g' hg => h g' hg⟩

end Service

/-! ## The books of a session -/

/-- A log entry that is to be written. -/
structure Due where
  submission : Ident
  status : Submission.Status
  byUser : Ident
deriving DecidableEq

/-- What a session has written about submissions: the entry that is due, and the statuses that have
been entered in the log. -/
structure Book where
  due : Option Due := none
  logged : List Submission.Status := []

/-- The call writes a submission or its log. -/
def StoreCall.booked : StoreCall → Bool
  | insertSubmission _ | updateSubmissionStatus .. | insertLogEntry _ => true
  | _ => false

/-- The call never fails. -/
def StoreCall.certain : StoreCall → Bool
  | insertSubmission _ | updateSubmissionStatus .. | insertLogEntry _ | setHasSubmission ..
  | linkInvoices .. => true
  | _ => false

/-- The request writes neither submissions nor their log. -/
def Request.Unbooked : Request → Prop
  | .store c => c.booked = false
  | _ => True

namespace Book

/-- A status may be written if no entry is due, and an entry only if it is. -/
def Allows (g : Book) : Request → Prop
  | .store (.insertSubmission _) => g.due = none
  | .store (.updateSubmissionStatus ..) => g.due = none
  | .store (.insertLogEntry new) => g.due = some ⟨new.submissionId, new.status, new.byUser⟩
  | _ => True

/-- The books after an answer. -/
def enter (g : Book) : (r : Request) → r.Answer → Book
  | .store (.insertSubmission new), .ok x => { g with due := some ⟨x.id, .submitted, new.createdBy⟩ }
  | .store (.updateSubmissionStatus id status user), .ok n =>
    if n = 0 then g else { g with due := some ⟨id, status, user⟩ }
  | .store (.insertLogEntry new), .ok _ => ⟨none, g.logged ++ [new.status]⟩
  | _, _ => g

variable {g : Book} {r : Request}

theorem allows_of_unbooked (h : r.Unbooked) : g.Allows r := by
  cases r with
  | store c => cases c <;> trivial
  | _ => trivial

theorem enter_of_unbooked (h : r.Unbooked) (a : r.Answer) : g.enter r a = g := by
  cases r with
  | store c => cases c <;> first | rfl | cases h
  | _ => rfl

end Book

/-- An answer that a session may give. -/
def Request.Plausible : (r : Request) → r.Answer → Prop
  | .store c, a => c.certain = true → ∃ b, a = .ok b
  | _, _ => True

/-- A call that fails may fail. -/
theorem Request.Plausible.not_certain {c : StoreCall} {e : Failure}
    (h : (Request.store c).Plausible (.error e)) : c.certain = false := by
  by_contra hcertain
  obtain ⟨b, hb⟩ := h (Bool.not_eq_false _ ▸ hcertain)
  cases hb

/-- The discipline: every status is followed by its entry. -/
def bookkeeping : Discipline Book where
  allows := Book.Allows
  learns g r a g' := r.Plausible a ∧ g' = g.enter r a

/-- A call that writes a submission, its log, a flag or links does not fail. -/
theorem Session.answer_certain (l : Ledger) (s : Session) {c : StoreCall} (h : c.certain = true) :
    ∃ b, (s.answer l c).1 = .ok b := by
  cases c with
  | updateSubmissionStatus id status user =>
    simp only [answer]
    split <;> exact ⟨_, rfl⟩
  | insertSubmission _ | insertLogEntry _ | setHasSubmission _ _ | linkInvoices _ _ =>
    exact ⟨_, rfl⟩
  | _ => cases h

namespace Service

variable {σ α β : Type} {Q : Except Failure β → σ → Book → Prop} {st : σ} {g : Book}

/-- Most calls leave the books as they are. -/
theorem KeepsFrom.unbooked_bind {c : StoreCall} {f : c.Answer → Service σ β}
    (hc : c.booked = false) (hok : ∀ a, (f a).KeepsFrom bookkeeping Q st g)
    (herror : c.certain = false → ∀ e, Q (.error e) st g) :
    (Service.call c >>= f).KeepsFrom bookkeeping Q st g := by
  refine .call_bind (Book.allows_of_unbooked hc) ?_ ?_
  · rintro a g' ⟨-, rfl⟩
    rw [Book.enter_of_unbooked (r := .store c) hc]
    exact hok a
  · rintro e g' ⟨hanswer, rfl⟩
    rw [Book.enter_of_unbooked (r := .store c) hc]
    exact herror hanswer.not_certain e

theorem KeepsFrom.unbooked {c : StoreCall} {Q : Except Failure c.Answer → σ → Book → Prop}
    (hc : c.booked = false) (h : ∀ a, Q a st g) :
    (Service.call c : Service σ c.Answer).KeepsFrom bookkeeping Q st g := by
  refine .call (Book.allows_of_unbooked hc) ?_
  rintro a g' ⟨-, rfl⟩
  rw [Book.enter_of_unbooked (r := .store c) hc]
  exact h a

theorem KeepsFrom.booked_now {f : Instant → Service σ β}
    (h : ∀ t, (f t).KeepsFrom bookkeeping Q st g) :
    (Service.now >>= f).KeepsFrom bookkeeping Q st g := by
  refine .now_bind trivial ?_
  rintro t g' ⟨-, rfl⟩
  exact h t

end Service

/-! ## Workflows -/

/-- Adjustments are no matter of submissions. -/
theorem Adjustments.create_keeps {σ : Type} {Q : Except Failure (List Invoice) → σ → Book → Prop}
    {st : σ} {g : Book} (is : List Invoice) (h : ∀ r, Q r st g) :
    (create is : Service σ (List Invoice)).KeepsFrom bookkeeping Q st g := by
  refine .booked_now fun now => ?_
  induction is generalizing Q with
  | nil => exact .pure (h _)
  | cons i rest ih =>
    unfold insertAll
    cases i.adjustment? now with
    | none => exact ih h
    | some new =>
      refine .unbooked_bind rfl (fun stored => ?_) fun _ e => h _
      refine .count_bind trivial ?_
      rintro g' ⟨-, rfl⟩
      refine .bind (ih fun r => ?_)
      cases r with
      | ok others => exact .pure (h _)
      | error e => exact h _

namespace Workflow

open Service (KeepsFrom)

variable {α : Type} {w : Workflow} {g : Book} {Q : Except Failure α → Workflow → Book → Prop}

/-- No entry is due, and the workflow remembers those that have been written. -/
def Balanced (w : Workflow) (g : Book) : Prop := g.due = none ∧ w.transitions = g.logged

section

variable {γ : Type} {D : Discipline γ} {Q : Except Failure α → Workflow → γ → Prop} {g : γ}

theorem loaded_keeps {f : Submission → Flow α} (hok : ∀ c, w.data = some c → (f c).KeepsFrom D Q w g)
    (herror : ∀ e, Q (.error e) w g) : (loaded >>= f).KeepsFrom D Q w g := by
  refine .bind (.get_bind ?_)
  cases hc : w.data with
  | some c => exact hok c hc
  | none => exact herror _

theorem ofSelection_keeps {β : Type} {r : Except Failure β} {f : β → Flow α}
    (hok : ∀ b, r = .ok b → (f b).KeepsFrom D Q w g) (herror : ∀ e, Q (.error e) w g) :
    (ofSelection r >>= f).KeepsFrom D Q w g := by
  cases r with
  | ok b => exact .bind (hok b rfl)
  | error e => exact .bind (herror e)

end

/-- **The entry that is due** is written and remembered. -/
theorem log_keeps {status : Submission.Status} {c : Submission}
    {Q : Except Failure Unit → Workflow → Book → Prop} (hc : w.data = some c)
    (hdue : g.due = some ⟨c.id, status, w.agent.userId⟩)
    (h : Q (.ok ()) { w with transitions := w.transitions ++ [status] } ⟨none, g.logged ++ [status]⟩) :
    (log status).KeepsFrom bookkeeping Q w g := by
  unfold log
  refine .bind (.get_bind ?_)
  rw [hc]
  refine .get_bind (.booked_now fun now => .call_bind hdue ?_ ?_)
  · rintro e g' ⟨-, rfl⟩
    exact h
  · rintro e g' ⟨hanswer, -⟩
    cases hanswer.not_certain

theorem updateStatus_keeps {status : Submission.Status} (h : w.Balanced g) :
    (updateStatus status).KeepsFrom bookkeeping (fun _ w g => w.Balanced g) w g := by
  unfold updateStatus
  refine loaded_keeps (fun c hc => ?_) fun _ => h
  by_cases hopen : c.status.isTerminal
  · rw [if_pos hopen]
    exact .bind (.refuse h)
  rw [if_neg hopen]
  refine .get_bind (.call_bind h.1 ?_ ?_)
  · rintro n g' ⟨-, rfl⟩
    by_cases hn : n = 0
    · rw [if_pos hn, Book.enter, if_pos hn]
      exact .bind (.refuse h)
    · rw [if_neg hn, Book.enter, if_neg hn]
      -- the entry is due now, and it is written next
      refine .modify_bind (log_keeps (c := { c with status, completedBy := some w.agent.userId })
        (by rw [hc]; rfl) rfl ⟨rfl, ?_⟩)
      rw [h.2]
  · rintro e g' ⟨hanswer, -⟩
    cases hanswer.not_certain

theorem load_keeps {q : Query .submission} (h : w.Balanced g) :
    (load q).KeepsFrom bookkeeping (fun _ w g => w.Balanced g) w g := by
  unfold load
  refine .unbooked_bind rfl (fun rows => ?_) fun _ _ => h
  cases rows with
  | nil => exact .refuse h
  | cons c rows => exact .modify_bind (.pure h)

theorem activeAmong_keeps {is : List Invoice} {f : List Ident → Flow α}
    (hok : ∀ ids, (f ids).KeepsFrom bookkeeping Q w g) (herror : ∀ e, Q (.error e) w g) :
    (activeAmong is >>= f).KeepsFrom bookkeeping Q w g := by
  unfold activeAmong
  refine .bind ?_
  by_cases his : is.isEmpty
  · rw [if_pos his]
    exact .pure (hok [])
  · rw [if_neg his]
    exact .unbooked_bind rfl (fun active => .pure (hok _)) fun _ e => herror e

theorem create_keeps {q : Query .invoice} {receipt : String} {amount : Money} (h : w.Balanced g) :
    (create q receipt amount).KeepsFrom bookkeeping (fun _ w g => w.Balanced g) w g := by
  unfold create
  by_cases hneg : amount.isNegative
  · rw [if_pos hneg]
    exact .bind (.refuse h)
  rw [if_neg hneg]
  refine .unbooked_bind rfl (fun invoices => ?_) fun _ _ => h
  refine .ofMoney_bind (fun target _ => ?_) fun _ => h
  refine activeAmong_keeps (fun active => ?_) fun _ => h
  refine ofSelection_keeps (fun selected _ => ?_) fun _ => h
  refine .booked_now fun now => .get_bind (.call_bind h.1 ?_ ?_)
  · rintro x g' ⟨-, rfl⟩
    refine .unbooked_bind rfl (fun _ => ?_) (fun hfails => by cases hfails)
    refine .unbooked_bind rfl (fun _ => ?_) (fun hfails => by cases hfails)
    refine .modify_bind (.bind (log_keeps (c := x) rfl rfl (.pure ⟨rfl, ?_⟩)))
    rw [h.2]
    rfl
  · rintro e g' ⟨hanswer, -⟩
    cases hanswer.not_certain

theorem accept_keeps (h : w.Balanced g) :
    accept.KeepsFrom bookkeeping (fun _ w g => w.Balanced g) w g := by
  unfold accept
  refine loaded_keeps (fun c hc => ?_) fun _ => h
  by_cases hopen : c.status ≠ .submitted
  · rw [if_pos hopen]
    exact .bind (.refuse h)
  rw [if_neg hopen]
  refine .unbooked_bind rfl (fun linked => ?_) fun _ _ => h
  refine ofSelection_keeps (fun settling _ => ?_) fun _ => h
  by_cases hsum : ¬ settling.total ≈ c.amount
  · rw [if_pos hsum]
    exact .bind (.refuse h)
  rw [if_neg hsum]
  refine .bind (.mono (fun r w' g' h' => ?_) (updateStatus_keeps h))
  cases r with
  | error e => exact h'
  | ok _ =>
    refine .booked_now fun now => .get_bind ?_
    refine .unbooked_bind rfl (fun history => ?_) fun _ _ => h'
    refine .unbooked_bind rfl (fun _ => ?_) fun _ _ => h'
    refine .bind (Adjustments.create_keeps _ fun r => ?_)
    cases r with
    | error e => exact h'
    | ok _ => exact .pure h'

theorem reject_keeps (h : w.Balanced g) :
    reject.KeepsFrom bookkeeping (fun _ w g => w.Balanced g) w g := by
  unfold reject
  refine .bind (.mono (fun r w' g' h' => ?_) (updateStatus_keeps h))
  cases r with
  | error e => exact h'
  | ok _ =>
    refine loaded_keeps (fun c _ => ?_) fun _ => h'
    exact .unbooked_bind rfl (fun linked => .unbooked rfl fun _ => h') fun _ _ => h'

/-! ## What a caller may do with a workflow -/

/-- A call of a workflow. -/
inductive Act
  | load (query : Query .submission)
  | create (query : Query .invoice) (receipt : String) (amount : Money)
  | accept
  | reject
  | updateStatus (status : Submission.Status)

/-- What a call returns. -/
abbrev Act.Answer : Act → Type
  | load _ | create .. => Submission
  | accept => AcceptOutcome
  | reject => Nat
  | updateStatus _ => Unit

/-- What a call runs. -/
def Act.flow : (a : Act) → Flow a.Answer
  | load query => Workflow.load query
  | create query receipt amount => Workflow.create query receipt amount
  | accept => Workflow.accept
  | reject => Workflow.reject
  | updateStatus status => Workflow.updateStatus status

/-- **Whatever is called**, and however it ends, no entry is left due. -/
theorem Act.flow_keeps (a : Act) (h : w.Balanced g) :
    a.flow.KeepsFrom bookkeeping (fun _ w g => w.Balanced g) w g := by
  cases a with
  | load query => exact load_keeps h
  | create query receipt amount => exact create_keeps h
  | accept => exact accept_keeps h
  | reject => exact reject_keeps h
  | updateStatus status => exact updateStatus_keeps h

end Workflow

/-- A caller of a workflow: it calls one thing after another, and what comes next may depend on what
was returned, a failure or not, and on the state of the workflow. -/
inductive Errand
  | stop
  | act (a : Workflow.Act) (next : Except Failure a.Answer → Workflow → Errand)

/-- The caller and its workflow as one program. -/
def Errand.program : Errand → Workflow → Program (Option Workflow)
  | stop, w => .done (some w)
  | act a next, w => (a.flow w).bind fun x => (next x.1 x.2).program x.2

/-- At the end no entry is due, and the workflow, if there was one, remembers what was written. -/
def Settled : Option Workflow → Book → Prop
  | some w, g => w.Balanced g
  | none, g => g = {}

theorem Errand.program_keeps (e : Errand) {w : Workflow} {g : Book} (h : w.Balanced g) :
    (e.program w).Keeps bookkeeping Settled g := by
  induction e generalizing w g with
  | stop => exact h
  | act a next ih => exact .bind (.mono (fun x g hx => ih x.1 x.2 hx) (a.flow_keeps h))

/-- A program that writes neither submissions nor their log leaves the books alone. -/
theorem Program.Asks.leaves_book {α : Type} {p : Program α} (h : p.Asks Request.Unbooked)
    (g : Book) : p.Keeps bookkeeping (fun _ g' => g' = g) g := by
  induction p with
  | done a => rfl
  | ask request next ih =>
    refine ⟨Book.allows_of_unbooked h.1, ?_⟩
    rintro answer g' ⟨-, rfl⟩
    rw [Book.enter_of_unbooked h.1]
    exact ih answer (h.2 answer)

/-- If the program writes submissions or their log, it is a workflow that does so. The workflow begins
without a submission, or with any copy of one. -/
inductive Program.Work : Program (Option Workflow) → Prop
  | workflow (agent : Agent) (copy : Option Submission) (e : Errand) :
    Work (e.program { agent, data := copy })
  | other {β : Type} {p : Program β} (h : p.Asks Request.Unbooked) :
    Work (p.bind fun _ => .done none)

/-- **Programs of this kind keep the books**, which are empty when they begin. -/
theorem Program.Work.keeps {p : Program (Option Workflow)} (h : p.Work) :
    p.Keeps bookkeeping Settled {} := by
  cases h with
  | workflow agent copy e => exact e.program_keeps ⟨rfl, rfl⟩
  | other h => exact .bind (.mono (fun _ g hg => hg) (h.leaves_book {}))

end TeamLedger
