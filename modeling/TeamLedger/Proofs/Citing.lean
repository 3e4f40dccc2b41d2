/-
Services refer only to rows that they have come across.

A link, a log entry, a payment on an invoice and the teams of a limit are written
by services, and nobody checks them when they are written. So a service must not
make them up. That it does not is a discipline (`citingKnown`): what a statement
cites has been shown by the answer to an earlier statement. The invoices that are
linked have been found, the submission that is logged has been stored or updated,
the payment has been stored, and the teams have been looked up.

A workflow is given its submission by the caller, who may have made it up. What
saves it is that the status is updated before the log entry is written: a
submission that is not there is not updated, and the workflow ends.
-/
import TeamLedger.CreditLimit
import TeamLedger.Readjustment
import TeamLedger.Proofs.Bookkeeping
import TeamLedger.Proofs.References
import TeamLedger.Proofs.Taking

set_option autoImplicit false

namespace TeamLedger

/-- Statements cite only what is known, and what they show is known from then on. -/
def citingKnown : Discipline (List Referent) where
  allows known
    | .store c => c.cites ⊆ known
    | _ => True
  learns known
    | .store c, answer, known' => known' = known ++ answer.toOption.elim [] c.shows
    | _, _, known' => known' = known

namespace Service

variable {σ α β : Type} {st : σ} {known : List Referent}

/-- The service, begun in a state with something known, cites only what is known. -/
def Cites (p : Service σ α) (st : σ) (known : List Referent) : Prop :=
  p.KeepsFrom citingKnown (fun _ _ _ => True) st known

/-- A part from which nothing has to be known. -/
theorem Cites.bind {p : Service σ α} {f : α → Service σ β} (h : p.Cites st known)
    (hf : ∀ a st known, (f a).Cites st known) : (p >>= f).Cites st known := by
  refine KeepsFrom.bind (KeepsFrom.mono (fun r st known _ => ?_) h)
  cases r with
  | ok a => exact hf a st known
  | error e => trivial

theorem Cites.pure {a : α} : (Pure.pure a : Service σ α).Cites st known := trivial

theorem Cites.refuse {e : LedgerError} : (Service.refuse e : Service σ α).Cites st known := trivial

/-- A refusal ends the service. -/
theorem Cites.refuse_bind {e : LedgerError} {f : α → Service σ β} :
    (Service.refuse e >>= f).Cites st known :=
  KeepsFrom.bind (KeepsFrom.refuse trivial)

theorem Cites.get_bind {f : σ → Service σ β} (hf : (f st).Cites st known) :
    ((MonadState.get : Service σ σ) >>= f).Cites st known :=
  KeepsFrom.get_bind hf

theorem Cites.modify_bind {u : σ → σ} {f : PUnit → Service σ β} (hf : (f ()).Cites (u st) known) :
    ((modify u : Service σ PUnit) >>= f).Cites st known :=
  KeepsFrom.modify_bind hf

theorem Cites.set_bind {st' : σ} {f : PUnit → Service σ β} (hf : (f ()).Cites st' known) :
    ((MonadStateOf.set st' : Service σ PUnit) >>= f).Cites st known :=
  KeepsFrom.bind hf

theorem Cites.ofMoney_bind {r : Except Money.Overflow α} {f : α → Service σ β}
    (hf : ∀ a, (f a).Cites st known) : (Service.ofMoney r >>= f).Cites st known :=
  KeepsFrom.ofMoney_bind (fun a _ => hf a) fun _ => trivial

theorem Cites.now_bind {f : Instant → Service σ β} (hf : ∀ t, (f t).Cites st known) :
    (Service.now >>= f).Cites st known :=
  KeepsFrom.now_bind trivial fun t _ hknown => by
    cases hknown
    exact hf t

theorem Cites.count_bind {metric : Metric} {label : String} {f : Unit → Service σ β}
    (hf : (f ()).Cites st known) : (Service.count metric label >>= f).Cites st known :=
  KeepsFrom.count_bind trivial fun _ hknown => by
    cases hknown
    exact hf

/-- **A statement** cites what is known, and shows what is known afterwards. -/
theorem Cites.call_bind {c : StoreCall} {f : c.Answer → Service σ β} (hc : c.cites ⊆ known)
    (hf : ∀ a, (f a).Cites st (known ++ c.shows a)) : (Service.call c >>= f).Cites st known :=
  KeepsFrom.call_bind hc
    (fun a _ hknown => by
      cases hknown
      exact hf a)
    fun _ _ _ => trivial

theorem Cites.call {c : StoreCall} (hc : c.cites ⊆ known) :
    (Service.call c : Service σ c.Answer).Cites st known :=
  KeepsFrom.call hc fun _ _ _ => trivial

end Service

open Service (Cites)

/-! ## Adjustments and readjustments -/

theorem Adjustments.create_cites {σ : Type} {st : σ} {known : List Referent} (is : List Invoice) :
    (create is : Service σ (List Invoice)).Cites st known := by
  refine .now_bind fun now => ?_
  induction is generalizing known with
  | nil => exact .pure
  | cons i rest ih =>
    unfold insertAll
    cases i.adjustment? now with
    | none => exact ih
    | some new =>
      refine .call_bind (List.nil_subset _) fun stored => .count_bind ?_
      exact .bind ih fun _ _ _ => .pure

namespace Readjustment

variable {known : List Referent} {set : WorkingSet}

theorem walk_cites (r : Readjustment) (passed rest : List Invoice) (p : Progress) :
    (r.walk passed rest p).Cites set known := by
  induction rest generalizing passed p set known with
  | nil => exact .pure
  | cons i rest ih =>
    unfold walk
    dsimp only
    split
    · exact .refuse_bind
    split
    · exact .refuse_bind
    split
    next => exact .ofMoney_bind fun _ => .ofMoney_bind fun _ => ih ..
    next => exact .call_bind (List.nil_subset _) fun _ => .set_bind (ih ..)
    next => exact .call_bind (List.nil_subset _) fun _ => .set_bind (ih ..)
    next => exact ih ..

/-- A readjustment refers to nothing, whatever set it works on. -/
theorem apply_cites (r : Readjustment) : r.apply.Cites set known := by
  unfold apply
  split
  · exact .refuse_bind
  refine .get_bind (.bind (walk_cites r [] set _) fun p st known => ?_)
  split
  · exact .pure
  refine .now_bind fun now => .call_bind (List.nil_subset _) fun i => .count_bind ?_
  exact .modify_bind .pure

end Readjustment

/-! ## Workflows -/

namespace Workflow

variable {α : Type} {w : Workflow} {known : List Referent}

theorem loaded_cites {f : Submission → Flow α} (hf : ∀ c, w.data = some c → (f c).Cites w known) :
    (loaded >>= f).Cites w known := by
  refine Service.KeepsFrom.bind (Service.KeepsFrom.get_bind ?_)
  cases hc : w.data with
  | some c => exact hf c hc
  | none => trivial

theorem ofSelection_cites {β : Type} {r : Except Failure β} {f : β → Flow α}
    (hf : ∀ b, r = .ok b → (f b).Cites w known) : (ofSelection r >>= f).Cites w known := by
  cases r with
  | ok b => exact Service.KeepsFrom.bind (hf b rfl)
  | error e => exact Service.KeepsFrom.bind trivial

/-- Looking for active invoices, nothing is forgotten. -/
theorem activeAmong_cites {is : List Invoice} {f : List Ident → Flow α}
    (hf : ∀ ids known', known ⊆ known' → (f ids).Cites w known') :
    (activeAmong is >>= f).Cites w known := by
  unfold activeAmong
  refine Service.KeepsFrom.bind ?_
  by_cases his : is.isEmpty
  · rw [if_pos his]
    exact hf [] known (List.Subset.refl _)
  · rw [if_neg his]
    refine Service.KeepsFrom.call_bind (List.nil_subset _) (fun active known' hknown => ?_)
      fun _ _ _ => trivial
    cases hknown
    exact hf _ _ (List.subset_append_left ..)

/-- **A log entry** about a submission that is known. -/
theorem log_cites {status : Submission.Status} {c : Submission} (hc : w.data = some c)
    (hknown : .submission c.id ∈ known) : (log status).Cites w known := by
  unfold log
  refine loaded_cites fun c' hc' => .get_bind (.now_bind fun now => .call_bind ?_ fun _ => trivial)
  rw [hc] at hc'
  cases hc'
  exact List.cons_subset.2 ⟨hknown, List.nil_subset _⟩

/-- **A status** is written first, and the log entry only if there is such a submission. -/
theorem updateStatus_cites (status : Submission.Status) : (updateStatus status).Cites w known := by
  unfold updateStatus
  refine loaded_cites fun c hc => ?_
  by_cases hended : c.status.isTerminal
  · rw [if_pos hended]
    exact .refuse_bind
  rw [if_neg hended]
  refine .get_bind (.call_bind (List.nil_subset _) fun n => ?_)
  by_cases hn : n = 0
  · rw [if_pos hn]
    exact .refuse_bind
  rw [if_neg hn]
  refine .modify_bind (log_cites (c := { c with status, completedBy := some w.agent.userId })
    (by rw [hc]; rfl) ?_)
  refine List.mem_append_right _ ?_
  rw [StoreCall.shows, if_neg hn]
  exact List.mem_singleton.2 rfl

/-- **Creating** links invoices that have been found to the submission that has been stored. -/
theorem create_cites (q : Query .invoice) (receipt : String) (amount : Money) :
    (create q receipt amount).Cites w known := by
  unfold create
  by_cases hneg : amount.isNegative
  · rw [if_pos hneg]
    exact .refuse_bind
  rw [if_neg hneg]
  refine .call_bind (List.nil_subset _) fun invoices => .ofMoney_bind fun target => ?_
  refine activeAmong_cites fun active known' hfound => ofSelection_cites fun selected hselected => ?_
  refine .now_bind fun now => .get_bind (.call_bind (List.nil_subset _) fun x => ?_)
  refine .call_bind (List.nil_subset _) fun _ => .call_bind ?_ fun _ => ?_
  · obtain ⟨taken, hsub, rfl, -⟩ := Selection.select_eq_ok hselected
    intro y hy
    obtain ⟨id, hid, hy⟩ := List.mem_flatMap.1 hy
    obtain ⟨i, hi, rfl⟩ := List.mem_map.1 hid
    rcases List.mem_cons.1 hy with rfl | hy
    · have found : Referent.invoice i.id ∈ known' :=
        hfound (List.mem_append_right _ (List.mem_map.2 ⟨i, hsub.subset hi, rfl⟩))
      exact List.mem_append_left _ (List.mem_append_left _ found)
    · rw [List.mem_singleton.1 hy]
      exact List.mem_append_left _ (List.mem_append_right _ (List.mem_singleton.2 rfl))
  · refine .modify_bind (.bind (log_cites (c := x) rfl ?_) fun _ _ _ => .pure)
    exact List.mem_append_left _ (List.mem_append_left _
      (List.mem_append_right _ (List.mem_singleton.2 rfl)))

/-- **Accepting** names the payment that has been stored. -/
theorem accept_cites : accept.Cites w known := by
  unfold accept
  refine loaded_cites fun c _ => ?_
  by_cases hopen : c.status ≠ .submitted
  · rw [if_pos hopen]
    exact .refuse_bind
  rw [if_neg hopen]
  refine .call_bind (List.nil_subset _) fun linked => ofSelection_cites fun settling _ => ?_
  by_cases hsum : ¬ settling.total ≈ c.amount
  · rw [if_pos hsum]
    exact .refuse_bind
  rw [if_neg hsum]
  refine .bind (updateStatus_cites _) fun _ w known => .now_bind fun now => .get_bind ?_
  refine .call_bind (List.nil_subset _) fun history => .call_bind ?_ fun _ => ?_
  · exact List.subset_append_right ..
  · exact .bind (Adjustments.create_cites _) fun _ _ _ => .pure

theorem reject_cites : reject.Cites w known := by
  unfold reject
  refine .bind (updateStatus_cites _) fun _ w known => loaded_cites fun c _ => ?_
  exact .call_bind (List.nil_subset _) fun linked => .call (List.nil_subset _)

/-- **Whatever is called**, and whatever submission the workflow was given. -/
theorem Act.flow_cites (a : Act) : a.flow.Cites w known := by
  cases a with
  | load query =>
    refine .call_bind (List.nil_subset _) fun rows => ?_
    cases rows with
    | nil => exact .refuse
    | cons c rows => exact .modify_bind .pure
  | create query receipt amount => exact create_cites query receipt amount
  | accept => exact accept_cites
  | reject => exact reject_cites
  | updateStatus status => exact updateStatus_cites status

end Workflow

/-! ## Limits -/

namespace CreditLimit

variable {σ α : Type} {st : σ} {known : List Referent}

theorem requireTeam_cites {teamId : Ident} {f : Unit → Service σ α} (hf : (f ()).Cites st known) :
    (requireTeam teamId >>= f).Cites st known := by
  unfold requireTeam
  split
  · exact .refuse_bind
  · exact Service.KeepsFrom.bind hf

/-- A team that has been looked up is known. -/
theorem requireStored_cites {teamId : Ident} {f : Unit → Service σ α}
    (hf : (f ()).Cites st (known ++ [.team teamId])) : (requireStored teamId >>= f).Cites st known := by
  unfold requireStored
  refine Service.KeepsFrom.bind (Service.KeepsFrom.call_bind (List.nil_subset _)
    (fun team known' hknown => ?_) fun _ _ _ => trivial)
  cases hknown
  cases team with
  | none => trivial
  | some team => exact hf

/-- **Setting a limit**: its teams have been looked up, or it has been found. -/
theorem set_cites (wish : SetLimit) : (CreditLimit.set wish : Service σ Limit).Cites st known := by
  -- the last two requests
  have look_and_save (forTeam : Option Ident) {known : List Referent}
      (hteam : .team wish.teamId ∈ known) (hfor : ∀ f ∈ forTeam, .team f ∈ known) :
      (do
        let scope : Limit.Scope := if forTeam.isSome then .team else .default
        let found ← Service.call (.findLimit wish.teamId scope forTeam)
        let limit : Limit :=
          found.getD { id := 0, teamId := wish.teamId, scope, forTeam, threshold := .zero }
        Service.call (.saveLimit { limit with threshold := wish.threshold }) :
          Service σ Limit).Cites st known := by
    refine .call_bind (List.nil_subset _) fun found => .call fun x hx => ?_
    replace hx := StoreCall.cites_saveLimit _ hx
    cases found with
    | none =>
      rcases List.mem_cons.1 hx with rfl | hx
      · exact List.mem_append_left _ hteam
      · obtain ⟨f, hf, rfl⟩ := List.mem_map.1 hx
        exact List.mem_append_left _ (hfor f (Option.mem_toList.1 hf))
    | some limit =>
      exact List.mem_append_right _ (List.mem_flatMap.2 ⟨limit, List.mem_singleton.2 rfl, hx⟩)
  unfold CreditLimit.set
  refine requireTeam_cites ?_
  dsimp only
  split
  · exact .refuse_bind
  refine requireStored_cites ?_
  split
  next id hfor =>
    refine requireStored_cites (look_and_save _ ?_ fun f hf => ?_)
    · exact List.mem_append_left _ (List.mem_append_right _ (List.mem_singleton.2 rfl))
    · rw [hfor] at hf
      cases hf
      exact List.mem_append_right _ (List.mem_singleton.2 rfl)
  next hfor =>
    refine look_and_save _ (List.mem_append_right _ (List.mem_singleton.2 rfl)) fun f hf => ?_
    rw [hfor] at hf
    cases hf

theorem delete_cites (teamId : Ident) (forTeam : Option Ident) :
    (CreditLimit.delete teamId forTeam : Service σ Nat).Cites st known :=
  requireTeam_cites (.call (List.nil_subset _))

end CreditLimit

end TeamLedger
