/-
What holds on every floor that can be reached.

What is to be proved of a run is said of the committed tables and of every session
by itself, with its desk and its endings (`Holds`). Most events leave a session
alone except for what is around it, and what that does to it is the same for all
of them: other sessions take and give back locks, teams are added, and sometimes
someone else commits. A statement that survives this is stable. For a stable
statement it remains to look at the session that acts.
-/
import TeamLedger.Proofs.Floor
import TeamLedger.Proofs.Isolation

set_option autoImplicit false

namespace TeamLedger

/-! ## Deeds -/

/-- A service that was run to its end. -/
theorem Service.conclude_run {σ α β : Type} {p : Service σ α} {st : σ} {f : Except Failure α → σ → β}
    {b : β} {l l' : Ledger} {s s' : Session} {around around' : Surroundings}
    (h : (p.conclude st f).run Session.backend (l, s) around = (b, (l', s'), around')) :
    ∃ r y, p.Ends (st, l, s) r y ∧ b = f r y.1 ∧ l' = y.2.1 ∧ s' = y.2.2 := by
  unfold conclude at h
  rw [Program.run_bind] at h
  generalize hz : (p st).run Session.backend (l, s) around = z at h
  obtain ⟨⟨r, st'⟩, mid, around₁⟩ := z
  cases h
  exact ⟨r, (st', l', s'), ⟨around, _, hz⟩, rfl, rfl, rfl⟩

/-- **What a deed can do** to the desk, to the ledger and to the session, and the submission that it has
ended, if it has ended one. -/
inductive Deed.Ran (l : Ledger) (s : Session) : Deed → Desk → Desk →
    Option (Submission × Submission.Status) → Ledger → Session → Prop
  | call (c : StoreCall) (desk : Desk) :
    Ran l s (.call c) desk .free none (s.answer l c).2.1 (s.answer l c).2.2
  | openWorkflow (agent : Agent) (copy : Option Submission) (desk : Desk) :
    Ran l s (.openWorkflow agent copy) desk (.workflow { agent, data := copy } []) none l s
  | load {q : Query .submission} {w : Workflow} {held : List Ident} {r : Except Failure Submission}
      {y : Workflow × Ledger × Session} (h : (Workflow.load q).Ends (w, l, s) r y) :
    Ran l s (.load q) (.workflow w held) (.loaded q held r y.1) none y.2.1 y.2.2
  | create {q : Query .invoice} {receipt : String} {amount : Money} {w : Workflow} {held : List Ident}
      {r : Except Failure Submission} {y : Workflow × Ledger × Session}
      (h : (Workflow.create q receipt amount).Ends (w, l, s) r y) :
    Ran l s (.create q receipt amount) (.workflow w held) (.created held r y.1) none y.2.1 y.2.2
  | accept {w : Workflow} {held : List Ident} {r : Except Failure AcceptOutcome}
      {y : Workflow × Ledger × Session} (h : Workflow.accept.Ends (w, l, s) r y) :
    Ran l s .accept (.workflow w held) (.workflow y.1 held) (w.ended .accepted r) y.2.1 y.2.2
  | reject {w : Workflow} {held : List Ident} {r : Except Failure Nat}
      {y : Workflow × Ledger × Session} (h : Workflow.reject.Ends (w, l, s) r y) :
    Ran l s .reject (.workflow w held) (.workflow y.1 held) (w.ended .rejected r) y.2.1 y.2.2
  | openManager (set : Readjustment.WorkingSet) (desk : Desk) :
    Ran l s (.openManager set) desk (.manager set .given) none l s
  | gather {q : Query .invoice} {set : Readjustment.WorkingSet} {origin : Origin}
      {r : Except Failure (List Invoice)} {y : Readjustment.WorkingSet × Ledger × Session}
      (h : (Readjustment.load q).Ends (set, l, s) r y) :
    Ran l s (.gather q) (.manager set origin) (.gathered q origin r y.1) none y.2.1 y.2.2
  | readjust {a : Readjustment} {set : Readjustment.WorkingSet} {origin : Origin}
      {r : Except Failure Readjustment.Outcome} {y : Readjustment.WorkingSet × Ledger × Session}
      (h : a.apply.Ends (set, l, s) r y) :
    Ran l s (.readjust a) (.manager set origin) (.manager y.1 origin) none y.2.1 y.2.2
  /-- The service that is called is not open. -/
  | nothing (d : Deed) (desk : Desk) : Ran l s d desk desk none l s

theorem Deed.ran {d : Deed} {desk desk' : Desk} {ended : Option (Submission × Submission.Status)}
    {l l' : Ledger} {s s' : Session} {around around' : Surroundings}
    (h : (d.program desk).run Session.backend (l, s) around = ((desk', ended), (l', s'), around')) :
    d.Ran l s desk desk' ended l' s' := by
  cases d with
  | call c =>
    cases h
    exact .call c desk
  | openWorkflow agent copy =>
    cases h
    exact .openWorkflow agent copy desk
  | openManager set =>
    cases h
    exact .openManager set desk
  | load q =>
    cases desk with
    | workflow w held =>
      dsimp only [Deed.program] at h
      obtain ⟨r, y, hends, hdesk, rfl, rfl⟩ := Service.conclude_run h
      cases hdesk
      exact .load hends
    | _ =>
      cases h
      exact .nothing _ _
  | create q receipt amount =>
    cases desk with
    | workflow w held =>
      dsimp only [Deed.program] at h
      obtain ⟨r, y, hends, hdesk, rfl, rfl⟩ := Service.conclude_run h
      cases hdesk
      exact .create hends
    | _ =>
      cases h
      exact .nothing _ _
  | accept =>
    cases desk with
    | workflow w held =>
      dsimp only [Deed.program] at h
      obtain ⟨r, y, hends, hdesk, rfl, rfl⟩ := Service.conclude_run h
      cases hdesk
      exact .accept hends
    | _ =>
      cases h
      exact .nothing _ _
  | reject =>
    cases desk with
    | workflow w held =>
      dsimp only [Deed.program] at h
      obtain ⟨r, y, hends, hdesk, rfl, rfl⟩ := Service.conclude_run h
      cases hdesk
      exact .reject hends
    | _ =>
      cases h
      exact .nothing _ _
  | gather q =>
    cases desk with
    | manager set origin =>
      dsimp only [Deed.program] at h
      obtain ⟨r, y, hends, hdesk, rfl, rfl⟩ := Service.conclude_run h
      cases hdesk
      exact .gather hends
    | _ =>
      cases h
      exact .nothing _ _
  | readjust a =>
    cases desk with
    | manager set origin =>
      dsimp only [Deed.program] at h
      obtain ⟨r, y, hends, hdesk, rfl, rfl⟩ := Service.conclude_run h
      cases hdesk
      exact .readjust hends
    | _ =>
      cases h
      exact .nothing _ _

namespace Floor

theorem prospect_eq {f : Floor} {name : String} {s : Session} (hs : f.world.open? name = some s) :
    f.prospect name = f.world.ledger.tables.apply s.changes := by
  unfold prospect
  rw [hs]
  rfl

/-- A deed is done in an open session, or nothing happens. -/
theorem act_cases (f : Floor) (name : String) (d : Deed) : f.happen (.act name d) = f ∨
    ∃ s desk' ended l' s' around' w, f.world.open? name = some s ∧
      (d.program (f.desk name)).run Session.backend (f.world.ledger, s) f.world.around =
        ((desk', ended), (l', s'), around') ∧
      f.world.run name none (d.program (f.desk name)) = some ((desk', ended), w) ∧
      w.ledger = l' ∧ (∀ k, w.open? k = if k = name then some s' else f.world.open? k) ∧
      f.happen (.act name d) = {
        world := w
        desk := Function.update f.desk name desk'
        endings := Function.update f.endings name
          ((ended.map fun e => f.ending name e.1 e.2).toList ++ f.endings name) } := by
  cases hrun : f.world.run name none (d.program (f.desk name)) with
  | none =>
    refine .inl ?_
    simp only [happen, hrun]
  | some result =>
    obtain ⟨⟨desk', ended⟩, w⟩ := result
    obtain ⟨s, l', s', around', hs, hprogram, hledger, hopen⟩ := World.run_eq_some hrun
    refine .inr ⟨s, desk', ended, l', s', around', w, hs, hprogram, rfl, hledger, hopen, ?_⟩
    simp only [happen, hrun]

/-- A deed commits nothing. -/
theorem tables_act (f : Floor) (name : String) (d : Deed) :
    (f.happen (.act name d)).tables = f.tables := by
  rcases f.act_cases name d with heq | ⟨s, desk', ended, l', s', around', w, -, hprogram, -, hledger, -, heq⟩
  · rw [heq]
  · have kept := Program.run_preserves (P := fun l _ => l.tables = f.tables)
      (fun l s c hl => (s.answer_ledger l c).tables.trans hl) (d.program (f.desk name)) (s := s)
      f.world.around (show f.world.ledger.tables = f.tables from rfl)
    rw [hprogram] at kept
    rw [heq]
    show w.ledger.tables = f.tables
    rw [hledger]
    exact kept

/-! ## Stable statements -/

variable {B : Tables → Prop} {P : Ledger → Session → Desk → List Ending → Prop}

/-- One statement about what is committed, and one about every open session. -/
structure Holds (B : Tables → Prop) (P : Ledger → Session → Desk → List Ending → Prop)
    (f : Floor) : Prop where
  sound : f.world.Sound
  committed : B f.tables
  sessions : ∀ n s, f.world.open? n = some s → P f.world.ledger s (f.desk n) (f.endings n)
  closed : ∀ n, f.world.open? n = none → f.endings n = []

/-- The statements hold at the beginning, and go on to hold of a session whatever others do. -/
structure Stable (B : Tables → Prop) (P : Ledger → Session → Desk → List Ending → Prop) : Prop where
  empty : B {}
  teams : ∀ t ts, B t → B { t with teams := ts }
  begun : ∀ l id snapshot base, P l { id, snapshot, base } .free []
  /-- The session keeps its locks, and nothing is committed but teams. -/
  spared : ∀ l l' s d es ts, B l.tables → P l s d es → l'.tables = { l.tables with teams := ts } →
    l'.versions = l.versions → (∀ k, l.locks k = some s.id → l'.locks k = some s.id) → P l' s d es
  commits : ∀ l s d es, B l.tables → P l s d es → l.Admits s → B (l.tables.apply s.changes)
  /-- Another session commits. -/
  others : ∀ l ses n m o s d d' es es', l.Sound ses → B l.tables → n ≠ m → ses n = some o →
    ses m = some s → P l o d' es' → P l s d es → l.Admits o → P (l.commit o).2 s d es

namespace Holds

variable {f : Floor} {name : String}

theorem start (hst : Stable B P) (around : Surroundings) :
    Holds B P { world := { around } } where
  sound := World.Sound.start around
  committed := hst.empty
  sessions _ _ hs := nomatch hs
  closed _ _ := rfl

theorem hosts (h : f.Holds B P) {s : Session} (hs : f.world.open? name = some s) :
    f.world.ledger.Hosts s :=
  ⟨h.sound.keyed, h.sound.within, h.sound.fits name s hs⟩

/-- A session that stays open, when another one gives back its locks. -/
theorem of_release (hst : Stable B P) (h : f.Holds B P) {n : String} {s : Session} (hne : n ≠ name)
    (hs : f.world.open? n = some s) {l' : Ledger} (htables : l'.tables = f.tables)
    (hversions : l'.versions = f.world.ledger.versions)
    (hlocks : l'.locks = (f.world.rollback name).ledger.locks) : P l' s (f.desk n) (f.endings n) := by
  refine hst.spared f.world.ledger l' s _ _ _ h.committed (h.sessions n s hs) htables hversions
    fun k hk => ?_
  rw [hlocks, World.ledger_rollback]
  cases ho : f.world.open? name with
  | none => exact hk
  | some o =>
    exact Ledger.release_other (h.sound.id_ne hne hs ho) hk

/-- A session that begins or ends has its place cleared. It remains to look at the sessions that are
open then. -/
theorem renew (h : f.Holds B P) {w : World} (hsound : w.Sound) (hcommitted : B w.ledger.tables)
    (hopen : ∀ n, n ≠ name → w.open? n = f.world.open? n)
    (hnew : ∀ s, w.open? name = some s → P w.ledger s .free [])
    (hold : ∀ n s, n ≠ name → f.world.open? n = some s →
      P w.ledger s (f.desk n) (f.endings n)) : (f.renew name w).Holds B P := by
  refine ⟨hsound, hcommitted, fun n s hs => ?_, fun n hn => ?_⟩
  · show P w.ledger s (Function.update f.desk name .free n) (Function.update f.endings name [] n)
    by_cases hne : n = name
    · subst hne
      rw [Function.update_self, Function.update_self]
      exact hnew s hs
    · rw [Function.update_of_ne hne, Function.update_of_ne hne]
      exact hold n s hne ((hopen n hne).symm.trans hs)
  · show Function.update f.endings name [] n = []
    by_cases hne : n = name
    · rw [hne, Function.update_self]
    · rw [Function.update_of_ne hne]
      exact h.closed n ((hopen n hne).symm.trans hn)

theorem rollback (hst : Stable B P) (h : f.Holds B P) (name : String) :
    (f.happen (.rollback name)).Holds B P := by
  have ledger_eq := f.world.ledger_rollback_eq name
  refine h.renew (h.sound.rollback name) ?_ (fun n hne => ?_) (fun s hs => ?_)
    fun n s hne hs => h.of_release hst hne hs ?_ ?_ rfl
  · rw [ledger_eq]
    exact h.committed
  · rw [World.open?_rollback, if_neg hne]
  · rw [World.open?_rollback, if_pos rfl] at hs
    cases hs
  · rw [ledger_eq]
    rfl
  · rw [ledger_eq]

theorem begin (hst : Stable B P) (h : f.Holds B P) (name : String) :
    (f.happen (.begin name)).Holds B P := by
  have ledger_eq := f.world.ledger_rollback_eq name
  refine h.renew (h.sound.begin name) ?_ (fun n hne => ?_) (fun s hs => ?_)
    fun n s hne hs => h.of_release hst hne hs ?_ ?_ rfl
  · show B (f.world.rollback name).ledger.tables
    rw [ledger_eq]
    exact h.committed
  · rw [World.open?_begin, if_neg hne]
  · rw [World.open?_begin, if_pos rfl] at hs
    cases hs
    exact hst.begun _ _ _ _
  · show (f.world.rollback name).ledger.tables = _
    rw [ledger_eq]
    rfl
  · show (f.world.rollback name).ledger.versions = _
    rw [ledger_eq]

theorem commit (hst : Stable B P) (h : f.Holds B P) (name : String) :
    (f.happen (.commit name)).Holds B P := by
  have renewed := fun hcommitted => h.renew (h.sound.commit name) hcommitted
    (fun n hne => by rw [World.open?_commit, if_neg hne])
    (fun s hs => by
      rw [World.open?_commit, if_pos rfl] at hs
      cases hs)
  cases ho : f.world.open? name with
  | none =>
    have ledger_eq := World.ledger_commit_of_none ho
    rw [ledger_eq] at renewed
    exact renewed h.committed fun n s _ hs => h.sessions n s hs
  | some o =>
    have ledger_eq := (World.commit_of_open? ho).2
    rw [ledger_eq] at renewed
    by_cases hadmits : f.world.ledger.Admits o
    case pos =>
      have hcommits := hst.commits _ o _ _ h.committed (h.sessions name o ho) hadmits
      refine renewed ?_ fun n s hne hs => ?_
      · rw [Ledger.commit_of_admits hadmits]
        exact hcommits
      · exact hst.others _ _ name n o s _ _ _ _ h.sound h.committed hne.symm ho hs
          (h.sessions name o ho) (h.sessions n s hs) hadmits
    case neg =>
      obtain ⟨e, he⟩ := Ledger.commit_of_not_admits hadmits
      rw [he] at renewed
      refine renewed h.committed fun n s hne hs => h.of_release hst hne hs rfl rfl ?_
      rw [World.ledger_rollback, ho]
      rfl

theorem addTeam (hst : Stable B P) (h : f.Holds B P) (name : String) (kind : Team.Kind) :
    (f.happen (.addTeam name kind)).Holds B P := by
  refine ⟨h.sound.addTeam name kind, hst.teams _ _ h.committed, fun n s hs => ?_, h.closed⟩
  exact hst.spared _ _ s _ _ _ h.committed (h.sessions n s hs) rfl rfl fun _ hk => hk

/-- **A deed**, given what it does to the session that acts. -/
theorem act (hst : Stable B P) (h : f.Holds B P) {d : Deed}
    (hacts : ∀ s desk' ended l' s', f.world.open? name = some s →
      d.Ran f.world.ledger s (f.desk name) desk' ended l' s' →
      f.world.ledger.Hosts s → f.world.ledger.Grants s.id l' → s.Onward s' →
      P l' s' desk' ((ended.map fun e => f.ending name e.1 e.2).toList ++ f.endings name)) :
    (f.happen (.act name d)).Holds B P := by
  rcases f.act_cases name d with heq |
    ⟨s, desk', ended, l', s', around', w, hs, hprogram, hrun, hledger, hopen, heq⟩
  · rw [heq]
    exact h
  rw [heq]
  have hhosts := h.hosts hs
  obtain ⟨hgrants, honward, -⟩ := (d.program (f.desk name)).run_leads f.world.around hhosts
  rw [hprogram] at hgrants honward
  dsimp only at hgrants honward
  -- the acting session is as was shown, and the others are spared
  refine ⟨h.sound.run hrun, ?_, fun n t ht => ?_, fun n hn => ?_⟩
  · show B w.ledger.tables
    rw [hledger, hgrants.tables]
    exact h.committed
  · replace ht : w.open? n = some t := ht
    show P w.ledger t (Function.update f.desk name desk' n) (Function.update f.endings name _ n)
    rw [hledger]
    rw [hopen] at ht
    split at ht
    next hn =>
      cases ht
      rw [hn, Function.update_self, Function.update_self]
      exact hacts s desk' ended l' s' hs (Deed.ran hprogram) hhosts hgrants honward
    next hn =>
      rw [Function.update_of_ne hn, Function.update_of_ne hn]
      exact hst.spared _ _ t _ _ _ h.committed (h.sessions n t ht) hgrants.tables hgrants.versions
        fun k hk => (hgrants.locks_other (h.sound.id_ne hn ht hs) k).2 hk
  · replace hn : w.open? n = none := hn
    rw [hopen] at hn
    split at hn
    · cases hn
    next hne =>
      show Function.update f.endings name _ n = []
      rw [Function.update_of_ne hne]
      exact h.closed n hn

end Holds

/-- **A stable statement holds on every floor that can be reached**, if every deed keeps it. -/
theorem Reach.holds {kind : Floor → Event → Prop} {f : Floor} (h : f.Reach kind) (hst : Stable B P)
    (hact : ∀ f name d, kind f (.act name d) → f.Holds B P → (f.happen (.act name d)).Holds B P) :
    f.Holds B P := by
  induction h with
  | start around => exact .start hst around
  | step h e he ih =>
    cases e with
    | begin name => exact ih.begin hst name
    | act name d => exact hact _ name d he ih
    | commit name => exact ih.commit hst name
    | rollback name => exact ih.rollback hst name
    | addTeam name kind => exact ih.addTeam hst name kind

end Floor

end TeamLedger
