/-
Orderly runs, as moves.

Committed tables are built by moves, and every session that can commit has its
seat. With `strict` left false this needs only that a run is orderly; with it,
also exact sums and careful readjustments.
-/
import TeamLedger.Proofs.Runs
import TeamLedger.Proofs.Serial

set_option autoImplicit false

namespace TeamLedger

namespace Floor

variable {strict : Prop}

/-- The session has its seat, if it can commit. -/
def Seated (strict : Prop) (l : Ledger) (s : Session) (desk : Desk) (_ : List Ending) : Prop :=
  l.Admits s → Seat strict l s desk

theorem seated_stable : Stable (Built strict) (Seated strict) where
  empty := .empty
  teams _ ts ht := ht.teams ts
  begun l id snapshot base _ := Seat.begun id snapshot base
  spared l l' s d es ts hl h ht hv hlocks hadmits := by
    refine (h ?_).transfer hl ht hlocks
    unfold Ledger.Admits at hadmits ⊢
    rwa [hv] at hadmits
  commits l s d es hl h hadmits := (h hadmits).built hl
  others l ses n m o s d d' es es' hsound hl hne hn hm ho h hadmits hafter :=
    (h (hsound.admits_after hm hadmits hafter).1).committed hl hsound hne hn hm (ho hadmits) hadmits
      hafter

/-- **Every deed of an orderly run** keeps the invariant. -/
theorem seated_act {f : Floor} {name : String} {d : Deed} (h : f.Holds (Built strict) (Seated strict))
    (horderly : f.Orderly (.act name d))
    (hstrict : strict → f.Exact (.act name d) ∧ f.Careful (.act name d)) :
    (f.happen (.act name d)).Holds (Built strict) (Seated strict) := by
  refine h.act seated_stable fun s desk' ended l' s' hopen hran hh hgrants honward hafter => ?_
  have hseat := h.sessions name s hopen (honward.admits hgrants.versions hafter)
  obtain ⟨hordinary, horder⟩ := horderly
  generalize hdesk : f.desk name = desk at hran hseat
  cases hran with
  | call c =>
    exact hseat.call hh hordinary fun new hc hs => by
      subst hc
      exact (hstrict hs).1
  | openWorkflow agent copy =>
    exact hseat.idle (.refl _ _) rfl rfl ⟨fun _ hid => (nomatch hid), fun _ _ hid => (nomatch hid)⟩
  | openManager set => exact hseat.idle (.refl _ _) rfl rfl trivial
  | load hends => exact hseat.load hh hends
  | create hends =>
    refine hseat.create hh hends fun hs => ?_
    rw [← prospect_eq hopen]
    exact (hstrict hs).1
  | @accept w held r y hends =>
    have hholding : (f.desk name).Holding := horder
    rw [hdesk] at hholding
    refine hseat.accept hh h.committed hholding hends fun hs c hc => ?_
    rw [← prospect_eq hopen]
    exact (hstrict hs).1 w held c hdesk hc
  | reject hends =>
    have hholding : (f.desk name).Holding := horder
    rw [hdesk] at hholding
    exact hseat.reject hh h.committed hholding hends hafter
  | gather hends => exact hseat.gather hh hends
  | readjust hends =>
    have hloaded : (f.desk name).Loaded := horder
    rw [hdesk] at hloaded
    refine hseat.readjust hh hloaded hends hafter fun hs => ?_
    rw [← hdesk]
    exact (hstrict hs).2
  | nothing => exact hseat

/-- **Every floor that orderly events lead to** has tables that are built by moves. -/
theorem Reach.built {kind : Floor → Event → Prop} {f : Floor} (h : f.Reach kind)
    (horderly : ∀ f e, kind f e → f.Orderly e)
    (hstrict : strict → ∀ f e, kind f e → f.Exact e ∧ f.Careful e) : Built strict f.tables :=
  have holds : f.Holds (Built strict) (Seated strict) :=
    h.holds seated_stable fun _ _ _ hd hf =>
      seated_act hf (horderly _ _ hd) fun hs => hstrict hs _ _ hd
  holds.committed

end Floor

end TeamLedger
