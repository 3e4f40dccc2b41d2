/-
A workflow that fails has written nothing.

In a session this is read off how each call of a workflow ends: a failure leaves
the session's changes and the workflow as they were, and the most that a lock or
a read leaves behind is a lock and a new snapshot.

Over other stores there is no such reading, for nothing is known of what they do
with a call. What can be said is what they are asked. The exchanges of a program
are the calls it makes, each with its answer, and two things hold of those of a
workflow whatever the answers are: a call that writes comes after all that is
checked (`Service.Careful`), and nothing comes after a call that failed. Both are
one discipline of the program, whose knowledge is the list of exchanges so far.
-/
import TeamLedger.Proofs.Bookkeeping
import TeamLedger.Proofs.Creating
import TeamLedger.Proofs.Locks
import TeamLedger.Proofs.Paying
import TeamLedger.Proofs.Rejecting

set_option autoImplicit false

namespace TeamLedger

variable {α β σ τ : Type}

/-! ## What a store is asked -/

/-- A call that a program has made, and the answer to it. -/
structure Exchange where
  call : StoreCall
  answer : Except Failure call.Answer

/-- The call was answered without a failure. -/
def Exchange.Answered (x : Exchange) : Prop := ∃ a, x.answer = .ok a

/-- A request as an exchange with the store, if it is one. -/
def Request.exchanged : (r : Request) → r.Answer → List Exchange
  | .store call, answer => [⟨call, answer⟩]
  | _, _ => []

/-- The exchanges of a program with a store, in order. -/
def Program.exchanges (b : Backend τ) : Program α → τ → Surroundings → List Exchange
  | done _, _, _ => []
  | ask request next, st, s =>
    let (answer, st, s) := b.respond st s request
    request.exchanged answer ++ exchanges b (next answer) st s

/-- **A careful service.** Whatever store it is run over, it makes no call that writes unless its
exchanges began with the checks, passed; and a call that failed is its last one, and is what it fails
with. -/
def Service.Careful (checks : List Exchange → Prop) (p : Service σ α) (st : σ) : Prop :=
  ∀ {τ : Type} (b : Backend τ) (t : τ) (around : Surroundings) (before after : List Exchange)
    (x : Exchange), (p st).exchanges b t around = before ++ x :: after →
      (x.call.reads = false → ∃ checked, checked <+: before ∧ checks checked) ∧
      ∀ e, x.answer = .error e → after = [] ∧ (p.run b st t around).1 = .error e

/-! ## The discipline -/

/-- No call comes after a failure, and none that writes comes before the checks. -/
def careful (checks : List Exchange → Prop) : Discipline (List Exchange) where
  allows log
    | .store c => (∀ x ∈ log, x.Answered) ∧
        (c.reads = false → ∃ checked, checked <+: log ∧ checks checked)
    | _ => True
  learns log r a log' := log' = log ++ r.exchanged a

variable {checks : List Exchange → Prop} {log : List Exchange}

/-- **What the discipline says of a run.** -/
theorem Program.Keeps.exchanges {Q : α → List Exchange → Prop} {p : Program α}
    (h : p.Keeps (careful checks) Q log) (b : Backend τ) (st : τ) (s : Surroundings) :
    Q (p.run b st s).1 (log ++ p.exchanges b st s) ∧
      ∀ before x after, p.exchanges b st s = before ++ x :: after →
        (careful checks).allows (log ++ before) (.store x.call) := by
  -- along the program; every exchange goes on the log, which is therefore general
  induction p generalizing log st s with
  | done a =>
    refine ⟨?_, fun before x after heq => ?_⟩
    · rw [Program.exchanges, List.append_nil]
      exact h
    · exact absurd heq (by simp [Program.exchanges])
  | ask request next ih =>
    obtain ⟨hresult, hcalls⟩ := ih (b.respond st s request).1
      (h.2 (b.respond st s request).1 _ rfl) (b.respond st s request).2.1 (b.respond st s request).2.2
    refine ⟨?_, fun before x after heq => ?_⟩
    · rw [List.append_assoc] at hresult
      exact hresult
    · cases request with
      | store c =>
        -- the exchange in question is this one, or it comes later
        cases before with
        | nil =>
          cases (List.cons.inj heq).1
          rw [List.append_nil]
          exact h.1
        | cons y before =>
          obtain ⟨rfl, hrest⟩ := List.cons.inj heq
          have := hcalls before x after hrest
          rwa [List.append_assoc] at this
      | now | count _ _ | cacheGet _ | cachePut _ _ _ =>
        simpa only [Request.exchanged, List.append_nil] using hcalls before x after heq

/-- If a call failed, this is the failure that is reported. -/
def Reports (r : Except Failure α) (log : List Exchange) : Prop :=
  ∀ x ∈ log, ∀ e, x.answer = .error e → r = .error e

theorem Reports.of_answered {r : Except Failure α} (h : ∀ x ∈ log, x.Answered) : Reports r log := by
  intro x hx e he
  obtain ⟨a, ha⟩ := h x hx
  cases ha.symm.trans he

/-- What a call answered goes on the log. -/
theorem Reports.snoc {c : StoreCall} {e : Failure} (h : ∀ x ∈ log, x.Answered) :
    Reports (.error e : Except Failure α) (log ++ (Request.store c).exchanged (.error e)) := by
  intro x hx e' he
  rcases List.mem_append.1 hx with hx | hx
  · exact Reports.of_answered h x hx e' he
  · cases List.mem_singleton.1 hx
    cases he
    rfl

theorem answered_snoc {c : StoreCall} {a : c.Answer} (h : ∀ x ∈ log, x.Answered) :
    ∀ x ∈ log ++ [(⟨c, .ok a⟩ : Exchange)], x.Answered := by
  intro x hx
  rcases List.mem_append.1 hx with hx | hx
  · exact h x hx
  · cases List.mem_singleton.1 hx
    exact ⟨a, rfl⟩

namespace Service

/-- **A service that keeps to the discipline is careful.** -/
theorem KeepsFrom.careful {p : Service σ α} {st : σ}
    (h : p.KeepsFrom (careful checks) (fun r _ log => Reports r log) st []) : p.Careful checks st := by
  intro τ b t around before after x heq
  obtain ⟨hreports, hcalls⟩ := Program.Keeps.exchanges h b t around
  have hx := hcalls before x after heq
  refine ⟨hx.2, fun e he => ⟨?_, ?_⟩⟩
  · -- a further call would be made after a failure
    cases after with
    | nil => rfl
    | cons y after =>
      have hy := hcalls (before ++ [x]) y after (by rw [heq]; simp)
      obtain ⟨a, ha⟩ := hy.1 x (by simp)
      cases he.symm.trans ha
  · exact hreports x (by rw [heq]; simp) e he

/-! ## Services that have passed the checks -/

/-- Nothing has failed, and the checks are passed. -/
def Ready (checks : List Exchange → Prop) (log : List Exchange) : Prop :=
  (∀ x ∈ log, x.Answered) ∧ ∃ checked, checked <+: log ∧ checks checked

/-- A part of a service that needs no more checks. -/
def Proceeds (checks : List Exchange → Prop) (p : Service σ α) : Prop :=
  ∀ st log, Ready checks log → p.KeepsFrom (TeamLedger.careful checks)
    (fun r _ log => Reports r log ∧ ((∃ a, r = .ok a) → Ready checks log)) st log

/-- A request that is no call goes unnoticed. -/
theorem Ready.quiet {r : Request} {answer : r.Answer} {result : Except Failure α}
    (h : Ready checks log) (hquiet : r.exchanged answer = []) :
    Reports result (log ++ r.exchanged answer) ∧
      ((∃ a, result = .ok a) → Ready checks (log ++ r.exchanged answer)) := by
  rw [hquiet, List.append_nil]
  exact ⟨.of_answered h.1, fun _ => h⟩

namespace Proceeds

theorem pure (a : α) : (Pure.pure a : Service σ α).Proceeds checks :=
  fun _ _ h => ⟨.of_answered h.1, fun _ => h⟩

theorem throw (e : Failure) : (MonadExcept.throw e : Service σ α).Proceeds checks :=
  fun _ _ h => ⟨.of_answered h.1, fun hok => nomatch hok⟩

theorem get : (MonadState.get : Service σ σ).Proceeds checks :=
  fun _ _ h => ⟨.of_answered h.1, fun _ => h⟩

theorem modify (f : σ → σ) : (modify f : Service σ PUnit).Proceeds checks :=
  fun _ _ h => ⟨.of_answered h.1, fun _ => h⟩

theorem now : (Service.now : Service σ Instant).Proceeds checks := by
  refine fun st log h => ⟨trivial, ?_⟩
  rintro t log' rfl
  exact h.quiet rfl

theorem count (metric : Metric) (label : String) :
    (Service.count metric label : Service σ Unit).Proceeds checks := by
  refine fun st log h => ⟨trivial, ?_⟩
  rintro t log' rfl
  exact h.quiet rfl

theorem call (c : StoreCall) : (Service.call c : Service σ c.Answer).Proceeds checks := by
  refine fun st log h => .call ⟨h.1, fun _ => h.2⟩ ?_
  rintro (e | a) log' rfl
  · exact ⟨.snoc h.1, fun hok => nomatch hok⟩
  · have answered := answered_snoc (a := a) h.1
    obtain ⟨checked, hprefix, hchecked⟩ := h.2
    exact ⟨.of_answered answered, fun _ =>
      ⟨answered, checked, hprefix.trans (List.prefix_append ..), hchecked⟩⟩

theorem bind {p : Service σ α} {f : α → Service σ β} (hp : p.Proceeds checks)
    (hf : ∀ a, (f a).Proceeds checks) : (p >>= f).Proceeds checks := by
  refine fun st log h => .bind (.mono (fun r st' log' hr => ?_) (hp st log h))
  cases r with
  | ok a => exact hf a st' log' (hr.2 ⟨a, rfl⟩)
  | error e =>
    -- what follows is not run, and the failure is passed on
    refine ⟨fun x hx e' he => ?_, fun hok => nomatch hok⟩
    cases hr.1 x hx e' he
    rfl

theorem refuse_if {c : Prop} [Decidable c] {e : LedgerError} {f : PUnit → Service σ β}
    (hf : ¬ c → (f ⟨⟩).Proceeds checks) :
    (if c then (Service.refuse e : Service σ PUnit) >>= f else f ⟨⟩).Proceeds checks := by
  by_cases hc : c
  · rw [if_pos hc]
    exact fun st log h => .bind ⟨.of_answered h.1, fun hok => nomatch hok⟩
  · rw [if_neg hc]
    exact hf hc

end Proceeds

/-- A call that reads may be made while the checks are going on. -/
theorem KeepsFrom.read_bind {c : StoreCall} {f : c.Answer → Service σ β}
    {Q : Except Failure β → σ → List Exchange → Prop} {st : σ} (hlog : ∀ x ∈ log, x.Answered)
    (hc : c.reads = true) (hok : ∀ a, (∀ x ∈ log ++ [⟨c, .ok a⟩], x.Answered) →
      (f a).KeepsFrom (TeamLedger.careful checks) Q st (log ++ [⟨c, .ok a⟩]))
    (herror : ∀ e, Reports (.error e : Except Failure β) (log ++ [⟨c, .error e⟩]) →
      Q (.error e) st (log ++ [⟨c, .error e⟩])) :
    (Service.call c >>= f).KeepsFrom (TeamLedger.careful checks) Q st log := by
  refine .call_bind ⟨hlog, fun hwrites => ?_⟩ ?_ ?_
  · rw [hc] at hwrites
    cases hwrites
  · rintro a log' rfl
    exact hok a (answered_snoc hlog)
  · rintro e log' rfl
    exact herror e (.snoc hlog)

end Service

/-! ## Workflows over any store -/

namespace Adjustments

open Service (Proceeds)

theorem proceeds (is : List Invoice) : (create is : Service σ (List Invoice)).Proceeds checks := by
  refine .bind .now fun now => ?_
  induction is with
  | nil => exact .pure []
  | cons i rest ih =>
    unfold insertAll
    cases i.adjustment? now with
    | none => exact ih
    | some new => exact .bind (.call _) fun _ => .bind (.count _ _) fun _ => .bind ih fun _ => .pure _

end Adjustments

namespace Workflow

open Service (KeepsFrom Proceeds)

theorem loaded_proceeds : loaded.Proceeds checks := by
  refine .bind .get fun w => ?_
  cases w.data with
  | none => exact .throw _
  | some c => exact .pure c

theorem log_proceeds (status : Submission.Status) : (Workflow.log status).Proceeds checks :=
  .bind loaded_proceeds fun _ => .bind .get fun _ => .bind .now fun _ => .bind (.call _) fun _ =>
    .modify _

theorem updateStatus_proceeds (status : Submission.Status) :
    (updateStatus status).Proceeds checks := by
  refine .bind loaded_proceeds fun c => .refuse_if fun _ => ?_
  refine .bind .get fun w => .bind (.call _) fun n => ?_
  exact .refuse_if fun _ => .bind (.modify _) fun _ => log_proceeds status

/-- What is asked about batches under way: nothing about no invoices, otherwise one question. -/
inductive AsksActive (invoices : List Invoice) : List Ident → List Exchange → Prop
  | none (h : invoices = []) : AsksActive invoices [] []
  | some (h : invoices ≠ []) (rows : List Invoice) : AsksActive invoices (rows.map (·.id))
      [⟨.find .invoice (Query.activeInvoices (invoices.map (·.id))), .ok rows⟩]

/-- **The checks of creating**, passed with these exchanges. -/
inductive CreateChecks (query : Query .invoice) (amount : Money) : List Exchange → Prop
  | passed {invoices : List Invoice} {target : Money} {active selected : List Ident}
      {asked : List Exchange} (not_negative : amount.isNegative = false)
      (target_eq : targetOf invoices amount = .ok target) (asks : AsksActive invoices active asked)
      (selects : Selection.select invoices active target = .ok selected) :
      CreateChecks query amount (⟨.find .invoice query, .ok invoices⟩ :: asked)

/-- **The checks of accepting**, passed with these exchanges. -/
inductive AcceptChecks (data : Option Submission) : List Exchange → Prop
  | passed {c : Submission} {linked : List Invoice} {settling : Settling} (loaded : data = some c)
      (submitted : c.status = .submitted) (settles : linked.foldlM Settling.add {} = .ok settling)
      (amount_eq : settling.total ≈ c.amount) :
      AcceptChecks data [⟨.find .invoice (Query.invoicesOf c.id true), .ok linked⟩]

/-- Looking for invoices that are part of a submission under way is one of the checks. -/
theorem activeAmong_asks {w : Workflow} {invoices : List Invoice} {f : List Ident → Flow α}
    {Q : Except Failure α → Workflow → List Exchange → Prop} (hlog : ∀ x ∈ log, x.Answered)
    (hok : ∀ active asked, AsksActive invoices active asked → (∀ x ∈ log ++ asked, x.Answered) →
      (f active).KeepsFrom (careful checks) Q w (log ++ asked))
    (herror : ∀ e log', Reports (.error e : Except Failure α) log' → Q (.error e) w log') :
    (activeAmong invoices >>= f).KeepsFrom (careful checks) Q w log := by
  unfold activeAmong
  refine .bind ?_
  by_cases hnone : invoices.isEmpty
  · rw [if_pos hnone]
    have f_keeps := hok [] [] (.none (by simpa using hnone)) (by rwa [List.append_nil])
    rw [List.append_nil] at f_keeps
    exact .pure f_keeps
  · rw [if_neg hnone]
    refine .read_bind hlog rfl (fun rows answered => ?_) fun e h => herror e _ fun x hx e' he => ?_
    · exact .pure (hok _ _ (.some (by simpa using hnone) rows) answered)
    · cases h x hx e' he
      rfl

theorem create_careful (query : Query .invoice) (receipt : String) (amount : Money) (w : Workflow) :
    (create query receipt amount).Careful (CreateChecks query amount) w := by
  refine KeepsFrom.careful ?_
  unfold create
  by_cases hneg : amount.isNegative
  · rw [if_pos hneg]
    exact .bind (.of_answered fun x hx => nomatch hx)
  rw [if_neg hneg]
  refine .read_bind (fun x hx => nomatch hx) rfl (fun invoices answered => ?_) fun _ h => h
  refine .ofMoney_bind (fun target htarget => ?_) fun _ => .of_answered answered
  refine activeAmong_asks answered (fun active asked hasked answered => ?_) fun _ _ h => h
  refine ofSelection_keeps (fun selected hselect => ?_) fun _ => .of_answered answered
  -- everything is known now, and the rest needs no more checks
  have ready : Service.Ready (CreateChecks query amount) _ :=
    ⟨answered, _, List.prefix_refl _, .passed (by simpa using hneg) htarget hasked hselect⟩
  refine .mono (fun r _ log h => h.1) ((?_ : Proceeds _ _) w _ ready)
  exact .bind .now fun now => .bind .get fun w' => .bind (.call _) fun submission =>
    .bind (.call _) fun _ => .bind (.call _) fun _ => .bind (.modify _) fun _ =>
    .bind (log_proceeds _) fun _ => .pure submission

theorem accept_careful (w : Workflow) : accept.Careful (AcceptChecks w.data) w := by
  refine KeepsFrom.careful ?_
  have nothing : ∀ x ∈ ([] : List Exchange), x.Answered := fun x hx => nomatch hx
  unfold accept
  refine loaded_keeps (fun c hc => ?_) fun _ => .of_answered nothing
  by_cases hopen : c.status ≠ .submitted
  · rw [if_pos hopen]
    exact .bind (.of_answered nothing)
  rw [if_neg hopen]
  refine .read_bind nothing rfl (fun linked answered => ?_) fun _ h => h
  refine ofSelection_keeps (fun settling hsettle => ?_) fun _ => .of_answered answered
  by_cases hsum : ¬ settling.total ≈ c.amount
  · rw [if_pos hsum]
    exact .bind (.of_answered answered)
  rw [if_neg hsum]
  have ready : Service.Ready (AcceptChecks w.data) _ :=
    ⟨answered, _, List.prefix_refl _, .passed hc (not_not.1 hopen) hsettle (not_not.1 hsum)⟩
  refine .mono (fun r _ log h => h.1) ((?_ : Proceeds _ _) w _ ready)
  exact .bind (updateStatus_proceeds _) fun _ => .bind .now fun now => .bind .get fun w' =>
    .bind (.call _) fun history => .bind (.call _) fun _ => .bind (Adjustments.proceeds _) fun _ => .pure _

/-! ## Workflows in a session -/

variable {w : Workflow} {l : Ledger} {s : Session} {y : Workflow × Ledger × Session}

/-- **A call of a workflow that fails** leaves everything as it was. -/
theorem Act.untouched {a : Act} {e : Failure} (hl : l.Hosts s)
    (h : a.flow.Ends (w, l, s) (.error e) y) : Service.Untouched w l s y := by
  cases a with
  | load query =>
    obtain ⟨-, ⟨-, huntouched⟩ | ⟨c, hok, -⟩⟩ := load_ends hl h
    · exact huntouched
    · cases hok
  | create query receipt amount =>
    rcases create_ends True hl h with ⟨-, huntouched⟩ | ⟨x, qs, hok, -⟩
    · exact huntouched
    · cases hok
  | accept =>
    rcases accept_ends False hl False.elim h with ⟨-, huntouched⟩ | ⟨⟨a, hok⟩, -⟩
    · exact huntouched
    · cases hok
  | reject =>
    rcases reject_ends True hl h with ⟨-, huntouched⟩ | ⟨⟨a, hok⟩, -⟩
    · exact huntouched
    · cases hok
  | updateStatus status =>
    rcases updateStatus_ends hl h with ⟨-, rfl, -⟩ | ⟨c, x, e, -, -, -, hok, -⟩
    · exact .refl w l s
    · cases hok

/-- **A workflow that fails has written nothing.** In a session every call that fails leaves the
workflow as it was, its submission and its steps, and the session with its changes as they were; at
most the session has a new snapshot and new locks. Over any other store, whatever it answers, creating
and accepting write nothing before they have passed all their checks, and ask nothing after a
failure, which they report. To create from all that is found is to create with the amount zero. -/
theorem failure_writes_nothing :
    (∀ {w w' : World} {name : String} {wf wf' : Workflow} {a : Act} {e : Failure}, w.Sound →
      w.run name none (a.flow wf) = some ((.error e, wf'), w') →
      wf' = wf ∧ ∃ s s', w.open? name = some s ∧ w'.open? name = some s' ∧
        s'.changes = s.changes ∧ (s' = s ∨ s' = s.refresh w.ledger) ∧
        w'.ledger = { w.ledger with locks := w'.ledger.locks } ∧
        (∀ k, w'.ledger.locks k = w.ledger.locks k ∨
          w.ledger.locks k = none ∧ w'.ledger.locks k = some s.id) ∧
        ∀ other, other ≠ name → w'.open? other = w.open? other) ∧
    (∀ (query : Query .invoice) (receipt : String) (amount : Money) (wf : Workflow),
      (create query receipt amount).Careful (CreateChecks query amount) wf) ∧
    ∀ wf : Workflow, accept.Careful (AcceptChecks wf.data) wf := by
  refine ⟨fun {w w' name wf wf' a e} hw hrun => ?_, create_careful, accept_careful⟩
  obtain ⟨s, s', hs, hs', -, hends, -, hothers⟩ := hw.served hrun
  have huntouched := a.untouched (hw.hosts hs) hends
  obtain ⟨hgrants, -, -⟩ := hends.leads (hw.hosts hs)
  refine ⟨huntouched.state, s, s', hs, hs', huntouched.changes, huntouched.session, huntouched.ledger,
    fun k => ?_, hothers⟩
  rcases hgrants.locks k with hk | ⟨hk, hfree⟩
  · exact .inl hk
  · -- a lock that has been taken was free, or the session had it already
    cases hfree' : w.ledger.locks k with
    | none => exact .inr ⟨rfl, hk⟩
    | some other =>
      have own : other = s.id := hfree other hfree'
      exact .inl (by rw [hk, own])

/-- An invoice over 70 is linked to a submission over 100. -/
def shortBatch : List LedgerEvent :=
  let invoice : NewInvoice :=
    { fromTeam := 1, toTeam := 2, kind := .product, amount := (Money.ofParts? 70 0).getD .zero,
      created := .ofSecond 0 }
  let submission : NewSubmission :=
    { createdBy := 7, amount := (Money.ofParts? 100 0).getD .zero, receipt := "",
      createdAt := .ofSecond 0 }
  [.begin "first", .call "first" (.insertInvoice invoice),
    .call "first" (.insertSubmission submission), .call "first" (.linkInvoices 2 [1])]

/-- The submission cannot be accepted, and nothing is written over that. -/
theorem failure_writes_nothing_short : ∃ (w w' : World) (s s' : Session) (wf wf' : Workflow),
    w.Sound ∧ w.run "first" none (Act.accept.flow wf) = some ((.error (.refused (.amount
      (.declaredMismatch 2 ⟨100, 0, by decide, by decide⟩ ⟨70, 0, by decide, by decide⟩))), wf'), w') ∧
    wf' = wf ∧ w.open? "first" = some s ∧ w'.open? "first" = some s' ∧ s'.changes = s.changes := by
  have key (w : World) (wf : Workflow) (e : Failure) (hw : w.Sound)
      (hresult : (w.run "first" none (Act.accept.flow wf)).map (·.1.1) = some (.error e)) :
      ∃ (w' : World) (s s' : Session) (wf' : Workflow),
        w.run "first" none (Act.accept.flow wf) = some ((.error e, wf'), w') ∧ wf' = wf ∧
        w.open? "first" = some s ∧ w'.open? "first" = some s' ∧ s'.changes = s.changes := by
    obtain ⟨⟨⟨r, wf'⟩, w'⟩, hrun, rfl⟩ := Option.map_eq_some_iff.1 hresult
    obtain ⟨wf_eq, s, s', hs, hs', changes_eq, -⟩ := failure_writes_nothing.1 hw hrun
    exact ⟨w', s, s', wf', hrun, wf_eq, hs, hs', changes_eq⟩
  have hw := (World.Sound.start { clock := ⟨.ofSecond 5⟩ }).happenAll shortBatch
  let c : Submission := ⟨2, 7, none, .submitted, ⟨100, 0, by decide, by decide⟩, "", .ofSecond 0⟩
  let e : AmountError :=
    .declaredMismatch 2 ⟨100, 0, by decide, by decide⟩ ⟨70, 0, by decide, by decide⟩
  obtain ⟨w', s, s', wf', h⟩ := key _ { agent := .system, data := some c } (.refused (.amount e)) hw
    (by decide +kernel)
  exact ⟨_, w', s, s', _, wf', hw, h⟩

end Workflow

end TeamLedger
