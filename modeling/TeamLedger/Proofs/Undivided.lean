/-
Calls that run without a break.

On a floor a whole call is one event, and in an office every request is one. The
two agree on calls that nothing comes between: a program whose requests are
answered one after another always comes to its end, and it ends as it does when
it is run as a whole (`Office.exists_served`). So an event of a floor is a few
events in an office (`Office.Whole`), and a floor goes beside the office in which
every call comes to its end before anything else happens (`Floor.Beside`). The
worlds are the same, and what lies on a desk is what the last call of the session
has ended with.

What is proved of every floor is therefore proved of these runs of an office, and
what is proved of every office holds of floors. Nothing is said here of calls that
do get in between each other.
-/
import TeamLedger.Proofs.Floor
import TeamLedger.Proofs.Offices

set_option autoImplicit false

namespace TeamLedger

variable {α : Type}

/-! ## Sessions by name -/

/-- What is found under a name is all there is under it. -/
theorem map_replace_self {β : Type} {es : List (String × β)} {name : String} {b : β}
    (hdistinct : (es.map (·.1)).Nodup) (h : es.lookup name = some b) :
    (es.map fun e => if e.1 = name then (name, b) else e) = es := by
  induction es with
  | nil => rfl
  | cons e es ih =>
    obtain ⟨key, c⟩ := e
    obtain ⟨hnew, hdistinct⟩ := List.nodup_cons.1 hdistinct
    rw [List.lookup_cons] at h
    rw [List.map_cons]
    by_cases hkey : name = key
    · subst hkey
      rw [beq_self_eq_true] at h
      cases h
      have others : ∀ e ∈ es, (if e.1 = name then (name, b) else e) = e := fun e he =>
        if_neg fun heq => hnew (List.mem_map.2 ⟨e, he, heq⟩)
      rw [if_pos rfl, List.map_congr_left others, List.map_id']
    · rw [beq_eq_false_iff_ne.2 hkey] at h
      rw [if_neg (Ne.symm hkey), ih hdistinct h]

namespace World

variable {w w' : World} {name : String}

/-- No two sessions go by one name. -/
def Distinct (w : World) : Prop := (w.sessions.map (·.1)).Nodup

theorem Distinct.forget (h : w.Distinct) (name : String) : (w.forget name).Distinct :=
  h.sublist (List.filter_sublist.map _)

theorem Distinct.rollback (h : w.Distinct) (name : String) : (w.rollback name).Distinct := by
  unfold World.rollback
  split
  · exact h.forget name
  · exact h

/-- The session that was open under the name has been dropped. -/
theorem Distinct.begin (h : w.Distinct) (name : String) : (w.begin name).Distinct := by
  have dropped : name ∉ (w.rollback name).sessions.map (·.1) := by
    intro hmem
    obtain ⟨e, he, hname⟩ := List.mem_map.1 hmem
    have gone := w.open?_rollback name name
    rw [if_pos rfl, open?, session?, Option.map_eq_none_iff, List.lookup_eq_none_iff] at gone
    exact absurd hname.symm (bne_iff_ne.1 (gone e he))
  unfold Distinct World.begin
  rw [List.map_append]
  refine (h.rollback name).append (List.nodup_singleton name) fun k hk hname => ?_
  cases List.mem_singleton.1 hname
  exact dropped hk

theorem Distinct.commit (h : w.Distinct) (name : String) : (w.commit name).2.Distinct := by
  unfold World.commit
  split
  · exact h.forget name
  · exact h

/-- The world with another ledger and other surroundings, and with another state of a session. -/
def replace (w : World) (name : String) (o : OpenSession) (l : Ledger) (around : Surroundings) : World where
  ledger := l
  sessions := w.sessions.map fun e => if e.1 = name then (name, o) else e
  around := around

/-- The world after a program has been run in an open session. -/
theorem run_of_session {o : OpenSession} (h : w.session? name = some o) (p : Program α) :
    w.run name none p = some ((p.run Session.backend (w.ledger, o.session) w.around).1,
      w.replace name { o with session := (p.run Session.backend (w.ledger, o.session) w.around).2.1.2 }
        (p.run Session.backend (w.ledger, o.session) w.around).2.1.1
        (p.run Session.backend (w.ledger, o.session) w.around).2.2) := by
  simp only [run, h, Option.bind_eq_bind, Option.bind_some, Program.run_failing_none]
  rfl

theorem names_replace (w : World) (name : String) (o : OpenSession) (l : Ledger)
    (around : Surroundings) :
    (w.replace name o l around).sessions.map (·.1) = w.sessions.map (·.1) := by
  unfold replace
  rw [List.map_map]
  refine List.map_congr_left fun e _ => ?_
  rw [Function.comp_apply]
  split
  next hname => exact hname.symm
  next => rfl

/-- What was put in the place of a session is replaced with it. -/
theorem replace_replace (w : World) (name : String) (o o' : OpenSession) (l l' : Ledger)
    (around around' : Surroundings) :
    (w.replace name o l around).replace name o' l' around' = w.replace name o' l' around' := by
  unfold replace
  rw [List.map_map]
  refine congrArg (fun es => (⟨l', es, around'⟩ : World)) (List.map_congr_left fun e _ => ?_)
  rw [Function.comp_apply]
  by_cases hname : e.1 = name
  · rw [if_pos hname, if_pos rfl, if_pos hname]
  · rw [if_neg hname, if_neg hname]

theorem session?_replace {o : OpenSession} (h : w.session? name = some o) (o' : OpenSession)
    (l : Ledger) (around : Surroundings) :
    (w.replace name o' l around).session? name = some o' := by
  unfold session? replace
  rw [lookup_map_replace, if_pos rfl, show w.sessions.lookup name = some o from h]
  rfl

theorem Distinct.run {p : Program α} {a : α} (h : w.Distinct)
    (hrun : w.run name none p = some (a, w')) : w'.Distinct := by
  cases hs : w.session? name with
  | none =>
    unfold World.run at hrun
    rw [hs] at hrun
    cases hrun
  | some o =>
    rw [run_of_session hs] at hrun
    cases hrun
    unfold Distinct
    rw [names_replace]
    exact h

/-- A program that asks for nothing changes nothing. -/
theorem run_done (h : w.Distinct) (hs : (w.open? name).isSome) (a : α) :
    w.run name none (.done a) = some (a, w) := by
  obtain ⟨o, ho⟩ := Option.isSome_iff_exists.1 ((Option.isSome_map ..).symm.trans hs)
  rw [run_of_session ho]
  show some (a, w.replace name o w.ledger w.around) = _
  unfold replace
  rw [map_replace_self h ho]

/-- **A program is run request by request.** -/
theorem run_ask (w : World) (name : String) (request : Request)
    (next : request.Answer → Program α) : w.run name none (.ask request next) =
      (w.run name none (Program.request request)).bind fun x => x.2.run name none (next x.1) := by
  cases hs : w.session? name with
  | none =>
    unfold run
    rw [hs]
    rfl
  | some o =>
    rw [run_of_session hs, run_of_session hs, Option.bind_some,
      run_of_session (session?_replace hs ..), replace_replace]
    rfl

end World

/-! ## Answers without a break -/

namespace Office

variable {o : Office α} {name : String} {p : Program α} {a : α} {w : World}

/-- The office after events. -/
def happenAll (o : Office α) (es : List (Event α)) : Office α := es.foldl happen o

/-- The office after so many requests of one session have been answered, with nothing in between. -/
def serve (o : Office α) (name : String) : Nat → Office α
  | 0 => o
  | n + 1 => (o.happen (.step name)).serve name n

theorem serve_eq_happenAll (o : Office α) (name : String) (n : Nat) :
    o.serve name n = o.happenAll (List.replicate n (.step name)) := by
  induction n generalizing o with
  | zero => rfl
  | succ n ih => exact ih (o.happen (.step name))

/-- Whoever has come to the end of a program asks for nothing. -/
theorem serve_of_done (htask : o.task name = some (.done a)) (n : Nat) : o.serve name n = o := by
  induction n with
  | zero => rfl
  | succ n ih =>
    have step_eq : o.happen (.step name) = o := by simp only [happen, htask]
    unfold serve
    rw [step_eq, ih]

/-- An answer takes the program on, and the world with it. -/
theorem happen_step {request : Request} {next : request.Answer → Program α} {answer : request.Answer}
    (htask : o.task name = some (.ask request next))
    (hrun : o.world.run name none (Program.request request) = some (answer, w)) :
    o.happen (.step name) = o.assign name w (some (next answer)) := by
  simp only [happen, htask, hrun]

theorem assign_assign (o : Office α) (name : String) (w w' : World) (task task' : Option (Program α)) :
    (o.assign name w task).assign name w' task' = o.assign name w' task' := by
  unfold assign
  rw [Function.update_idem]

/-- **Answers without a break.** A program that is run as a whole asks so many times. With fewer answers
it goes on asking, and with these and any more it has ended as it ends when it is run as a whole. -/
theorem exists_served (hd : o.world.Distinct) (htask : o.task name = some p)
    (hrun : o.world.run name none p = some (a, w)) :
    ∃ k, (∀ n < k, ∃ request next, (o.serve name n).task name = some (.ask request next)) ∧
      ∀ n, k ≤ n → o.serve name n = o.assign name w (some (.done a)) := by
  induction p generalizing o with
  | done b =>
    refine ⟨0, fun n hn => absurd hn n.not_lt_zero, fun n _ => ?_⟩
    have hopen := o.world.run_isSome name (.done b)
    rw [hrun] at hopen
    rw [World.run_done hd hopen.symm] at hrun
    cases hrun
    rw [serve_of_done htask, assign, ← htask, Function.update_eq_self]
  | ask request next ih =>
    rw [World.run_ask] at hrun
    obtain ⟨⟨answer, w₁⟩, hrun₁, hrun⟩ := Option.bind_eq_some_iff.1 hrun
    have first : o.happen (.step name) = o.assign name w₁ (some (next answer)) :=
      happen_step htask hrun₁
    obtain ⟨k, asks, ended⟩ := ih answer (o := o.assign name w₁ (some (next answer))) (hd.run hrun₁)
      (by rw [task_assign, if_pos rfl]) hrun
    refine ⟨k + 1, fun n hn => ?_, fun n hn => ?_⟩
    · cases n with
      | zero => exact ⟨request, next, htask⟩
      | succ n =>
        rw [serve, first]
        exact asks n (Nat.lt_of_succ_lt_succ hn)
    · cases n with
      | zero => exact absurd hn (Nat.not_succ_le_zero k)
      | succ n => rw [serve, first, ended n (Nat.le_of_succ_le_succ hn), assign_assign]

theorem distinct_happen (hd : o.world.Distinct) (e : Event α) : (o.happen e).world.Distinct := by
  cases e with
  | begin name => exact hd.begin name
  | commit name => exact hd.commit name
  | rollback name => exact hd.rollback name
  | addTeam name kind => exact hd
  | wait time => exact hd
  | start name p =>
    simp only [happen]
    split <;> exact hd
  | step name =>
    simp only [happen]
    split
    · split
      next hrun => exact hd.run hrun
      next => exact hd
    · exact hd

theorem distinct_happenAll (hd : o.world.Distinct) (es : List (Event α)) :
    (o.happenAll es).world.Distinct := by
  induction es generalizing o with
  | nil => exact hd
  | cons e es ih => exact ih (distinct_happen hd e)

end Office

/-! ## Whole calls in an office -/

/-- What a call on a desk ends with: the desk afterwards, and the submission that was ended. -/
abbrev Work : Type := Desk × Option (Submission × Submission.Status)

namespace Office

/-- What is on the desk of a session that has come to the end of a call. -/
def left : Option (Program Work) → Desk
  | some (.done (desk, _)) => desk
  | some (.ask ..) | none => .free

/-- What the last call of a session has left on the desk. -/
def desk (o : Office Work) (name : String) : Desk := left (o.task name)

theorem desk_assign (o : Office Work) (name : String) (w : World) (task : Option (Program Work))
    (k : String) : (o.assign name w task).desk k = if k = name then left task else o.desk k := by
  unfold desk
  rw [task_assign]
  exact apply_ite left ..

/-- **An event of a floor in an office**, with the office afterwards. A call in an open session is begun,
and its requests are answered until it has come to its end. -/
inductive Whole (o : Office Work) : TeamLedger.Event → Office Work → Prop
  | begin (name : String) : o.Whole (.begin name) (o.happen (.begin name))
  | act (name : String) (d : Deed) (n : Nat) (result : Work) (hopen : (o.world.open? name).isSome)
      (hend : ((o.happen (.start name (d.program (o.desk name)))).serve name n).task name =
        some (.done result)) :
      o.Whole (.act name d) ((o.happen (.start name (d.program (o.desk name)))).serve name n)
  /-- There is no such session. -/
  | idle (name : String) (d : Deed) (hclosed : o.world.open? name = none) : o.Whole (.act name d) o
  | commit (name : String) : o.Whole (.commit name) (o.happen (.commit name))
  | rollback (name : String) : o.Whole (.rollback name) (o.happen (.rollback name))
  | addTeam (name : String) (kind : Team.Kind) :
      o.Whole (.addTeam name kind) (o.happen (.addTeam name kind))

variable {o o' : Office Work} {e : TeamLedger.Event}

/-- It is nothing but events of the office. -/
theorem Whole.happenAll (h : o.Whole e o') : ∃ es, o' = o.happenAll es := by
  cases h with
  | begin name => exact ⟨[.begin name], rfl⟩
  | act name d n result =>
    refine ⟨.start name (d.program (o.desk name)) :: List.replicate n (.step name), ?_⟩
    rw [serve_eq_happenAll]
    rfl
  | idle => exact ⟨[], rfl⟩
  | commit name => exact ⟨[.commit name], rfl⟩
  | rollback name => exact ⟨[.rollback name], rfl⟩
  | addTeam name kind => exact ⟨[.addTeam name kind], rfl⟩

theorem happen_start {name : String} {p : Program Work} (hopen : (o.world.open? name).isSome) :
    o.happen (.start name p) = o.assign name o.world (some p) := if_pos hopen

/-- Every event of a floor can happen in an office. -/
theorem exists_whole (hd : o.world.Distinct) (e : TeamLedger.Event) : ∃ o', o.Whole e o' := by
  cases e with
  | begin name => exact ⟨_, .begin name⟩
  | commit name => exact ⟨_, .commit name⟩
  | rollback name => exact ⟨_, .rollback name⟩
  | addTeam name kind => exact ⟨_, .addTeam name kind⟩
  | act name d =>
    cases hs : o.world.open? name with
    | none => exact ⟨o, .idle name d hs⟩
    | some s =>
      have hopen : (o.world.open? name).isSome := Option.isSome_of_eq_some hs
      obtain ⟨w, hrun, -⟩ := World.run_of_open hs (d.program (o.desk name))
      obtain ⟨n, -, ended⟩ := exists_served (o := o.assign name o.world (some (d.program (o.desk name))))
        hd (by rw [task_assign, if_pos rfl]) hrun
      have served := ended n n.le_refl
      rw [← happen_start hopen] at served
      exact ⟨_, .act name d n _ hopen (by rw [served, task_assign, if_pos rfl])⟩

end Office

/-! ## A floor beside an office -/

namespace Floor

/-- The floor and the office show the same: the same world, and the same on every desk. -/
structure Shares (f : Floor) (o : Office Work) : Prop where
  world : o.world = f.world
  desk : ∀ name, o.desk name = f.desk name

variable {f : Floor} {o o' : Office Work} {e : Event} {kind : Floor → Event → Prop}

/-- After the session under a name has become another one, or none. -/
theorem Shares.renew (h : f.Shares o) (name : String) (w : World) :
    (f.renew name w).Shares (o.assign name w none) where
  world := rfl
  desk k := by
    show _ = Function.update f.desk name .free k
    rw [Office.desk_assign, Function.update_apply, h.desk k]
    rfl

/-- **An event happens on the floor as in the office.** -/
theorem Shares.happen (h : f.Shares o) (hd : o.world.Distinct) (hw : o.Whole e o') :
    (f.happen e).Shares o' := by
  obtain ⟨world_eq, desk_eq⟩ := h
  cases hw with
  | begin name =>
    show (f.renew name (f.world.begin name)).Shares (o.assign name (o.world.begin name) none)
    rw [world_eq]
    exact Shares.renew ⟨world_eq, desk_eq⟩ name _
  | commit name =>
    show (f.renew name (f.world.commit name).2).Shares (o.assign name (o.world.commit name).2 none)
    rw [world_eq]
    exact Shares.renew ⟨world_eq, desk_eq⟩ name _
  | rollback name =>
    show (f.renew name (f.world.rollback name)).Shares (o.assign name (o.world.rollback name) none)
    rw [world_eq]
    exact Shares.renew ⟨world_eq, desk_eq⟩ name _
  | addTeam name kind =>
    refine ⟨?_, desk_eq⟩
    show (o.world.addTeam name kind).2 = (f.world.addTeam name kind).2
    rw [world_eq]
  | idle name d hclosed =>
    have happen_eq : f.happen (.act name d) = f := by
      rw [world_eq] at hclosed
      simp only [Floor.happen, World.run_of_not_open hclosed]
    rw [happen_eq]
    exact ⟨world_eq, desk_eq⟩
  | act name d n result hopen hend =>
    obtain ⟨s, hs⟩ := Option.isSome_iff_exists.1 hopen
    obtain ⟨w, hrun, -⟩ := World.run_of_open hs (d.program (o.desk name))
    generalize (Program.run Session.backend (d.program (o.desk name)) (o.world.ledger, s)
      o.world.around).1 = a at hrun
    rw [Office.happen_start hopen] at hend ⊢
    obtain ⟨k, asks, ended⟩ := Office.exists_served
      (o := o.assign name o.world (some (d.program (o.desk name)))) hd
      (by rw [Office.task_assign, if_pos rfl]) hrun
    -- the call has come to its end, so it has ended as it does on the floor
    have enough : k ≤ n := by
      by_contra hfew
      obtain ⟨request, next, hasks⟩ := asks n (Nat.lt_of_not_le hfew)
      cases hend.symm.trans hasks
    rw [ended n enough, Office.assign_assign]
    obtain ⟨desk, ended⟩ := a
    rw [world_eq, desk_eq] at hrun
    simp only [Floor.happen, hrun]
    refine ⟨rfl, fun k => ?_⟩
    show _ = Function.update f.desk name desk k
    rw [Office.desk_assign, Function.update_apply, desk_eq k]
    rfl

/-- A floor, and the office in which the same has happened, every call without a break. -/
inductive Beside (kind : Floor → Event → Prop) : Floor → Office Work → Prop
  | start (around : Surroundings) : Beside kind { world := { around } } { world := { around } }
  | step {f : Floor} {o o' : Office Work} (h : Beside kind f o) (e : Event) (he : kind f e)
      (hw : o.Whole e o') : Beside kind (f.happen e) o'

/-- **They show the same.** -/
theorem Beside.shares (h : Beside kind f o) : f.Shares o ∧ o.world.Distinct := by
  induction h with
  | start around => exact ⟨⟨rfl, fun _ => rfl⟩, List.nodup_nil⟩
  | step _ e _ hw ih =>
    obtain ⟨hshares, hd⟩ := ih
    refine ⟨hshares.happen hd hw, ?_⟩
    obtain ⟨es, rfl⟩ := hw.happenAll
    exact Office.distinct_happenAll hd es

/-- **The floor can be reached**, by events of the same kind. -/
theorem Beside.reach (h : Beside kind f o) : Reach kind f := by
  induction h with
  | start around => exact .start around
  | step _ e he _ ih => exact ih.step e he

/-- The office is reached request by request. -/
theorem Beside.office (h : Beside kind f o) : ∃ (around : Surroundings) (es : List (Office.Event Work)),
    o = Office.happenAll { world := { around } } es := by
  induction h with
  | start around => exact ⟨around, [], rfl⟩
  | step _ e _ hw ih =>
    obtain ⟨around, es, rfl⟩ := ih
    obtain ⟨more, rfl⟩ := hw.happenAll
    exact ⟨around, es ++ more, (List.foldl_append ..).symm⟩

/-- **Beside every floor there is an office.** -/
theorem Reach.beside (h : Reach kind f) : ∃ o, Beside kind f o := by
  induction h with
  | start around => exact ⟨_, .start around⟩
  | step _ e he ih =>
    obtain ⟨o, hbeside⟩ := ih
    obtain ⟨o', hw⟩ := Office.exists_whole hbeside.shares.2 e
    exact ⟨o', hbeside.step e he hw⟩

variable {P : World → Prop}

/-- What holds on every floor holds in the offices whose calls run without a break. -/
theorem Beside.of_floors (hP : ∀ f, Reach kind f → P f.world) (h : Beside kind f o) : P o.world := by
  rw [h.shares.1.world]
  exact hP f h.reach

/-- What holds in every office holds on every floor. -/
theorem Reach.of_offices (hP : ∀ (around : Surroundings) (es : List (Office.Event Work)),
    P (Office.happenAll { world := { around } } es).world) (h : Reach kind f) : P f.world := by
  obtain ⟨o, hbeside⟩ := h.beside
  obtain ⟨around, es, rfl⟩ := hbeside.office
  rw [← hbeside.shares.1.world]
  exact hP around es

end Floor

end TeamLedger
