/-
Limits after any calls, and what is reported on them.

A clerk is alone with the limits: he sets and deletes some, commits whenever he
likes and goes on in a new session, and teams are added in between. Besides he
keeps a map, which he changes as each call would change it (`Clerk.step`). After
any number of steps the rows that his session sees stand for his map, and they
are what is committed if he stops there.

Whether a counterpart may take on more debt is decided on a filtered list of rows.
For rows that stand for a map it comes down to two keys, the one of the pair and
the default of the team (`LimitMap.inForce`).
-/
import TeamLedger.Proofs.Inquiries
import TeamLedger.Proofs.LimitMaps
import TeamLedger.Proofs.Pairs

set_option autoImplicit false

namespace TeamLedger

/-! ## What is reported -/

namespace LimitMap

/-- The threshold in force for a counterpart, and whether it is meant for it or the default. -/
def inForce (m : LimitMap) (teamId forTeam : Ident) : Option (Limit.Scope × Money) :=
  match m teamId (some forTeam), m teamId none with
  | some threshold, _ => some (.team, threshold)
  | none, some threshold => some (.default, threshold)
  | none, none => none

/-- The report for a counterpart that owes an amount is read off the map. -/
structure Tells (m : LimitMap) (teamId forTeam : Ident) (owed : Money) (r : LimitReport) : Prop where
  about : r.teamId = teamId ∧ r.forTeam = forTeam
  unpaid : r.unpaidAmount = owed
  threshold : r.threshold = (m.inForce teamId forTeam).elim .zero (·.2)
  scope : r.scope = (m.inForce teamId forTeam).map (·.1)
  /-- A threshold of zero restricts nothing, and any other one is too much already. -/
  canCreateOrder : r.canCreateOrder = true ↔ r.threshold.units = 0 ∨ owed < r.threshold

/-- A question that finds nothing in the cache, by a session that sees these limits, is answered from
the map, unless the amounts that are owed overflow. -/
def Reported (m : LimitMap) (limits : Rows Limit) : Prop :=
  ∀ (q : CreditLimit.Question) (ttl : Cache.Nanoseconds) (cache : Cache.Local),
    q.seen.limits = limits → q.teamId ≠ 0 → q.found cache = none →
      match q.seen.unpaidAmount q.forTeam q.teamId with
      | .ok owed => ∃ r, (q.ask ttl cache).1 = .ok r ∧ m.Tells q.teamId q.forTeam owed r
      | .error operation => (q.ask ttl cache).1 = .error (.overflow operation)

end LimitMap

namespace Rows.Represents

variable {t : Tables} {m : LimitMap}

/-- Where no applicable limit meets a condition, no limit of the team does. -/
theorem none_applicable {teamId forTeam : Ident} {p : Limit → Bool}
    (h : (t.applicableLimits teamId forTeam).find? p = none) {i : Ident} {r : Limit}
    (hr : t.limits.get? i = some r) (hteam : r.teamId = teamId)
    (hscope : r.scope = .default ∨ r.scope = .team ∧ r.forTeam = some forTeam) : p r = false := by
  refine Bool.not_eq_true _ ▸ List.find?_eq_none.1 h r (List.mem_filter.2 ⟨mem_values.2 ⟨i, hr⟩, ?_⟩)
  rcases hscope with hdefault | ⟨hspecial, hfor⟩
  · simp [hteam, hdefault]
  · simp [hteam, hspecial, hfor]

/-- A default is a limit without a counterpart. -/
theorem default_iff (h : t.limits.Represents m) {i : Ident} {r : Limit} (hr : t.limits.get? i = some r) :
    r.scope = .default ↔ r.forTeam = none := by
  have fits : r.forTeam.isSome ↔ r.scope = .team := h.fits i r hr
  cases hscope : r.scope <;> cases hfor : r.forTeam <;> simp_all

/-- Where there is no row with a key, the map has nothing for it. -/
theorem eq_none (h : t.limits.Represents m) {teamId : Ident} {forTeam : Option Ident}
    (hnone : ∀ i r, t.limits.get? i = some r → r.teamId = teamId → r.forTeam ≠ forTeam) :
    m teamId forTeam = none := by
  by_contra hne
  obtain ⟨x, hx⟩ := Option.ne_none_iff_exists'.1 hne
  obtain ⟨i, r, hr, hteam, hfor⟩ := h.row teamId forTeam x hx
  exact hnone i r hr hteam hfor

/-- **The limit in force is the one of the map.** A limit meant for the counterpart comes before the
default, and there is at most one of each. -/
theorem effective? (h : t.limits.Represents m) (teamId forTeam : Ident) :
    (Limit.effective? (t.applicableLimits teamId forTeam) forTeam).map (fun r => (r.scope, r.threshold)) =
      m.inForce teamId forTeam := by
  have stored {p : Limit → Bool} {r : Limit}
      (hfound : (t.applicableLimits teamId forTeam).find? p = some r) :
      p r = true ∧ r.teamId = teamId ∧ ∃ i, t.limits.get? i = some r := by
    obtain ⟨hvalue, happlies⟩ := List.mem_filter.1 (List.mem_of_find?_eq_some hfound)
    rw [Bool.and_eq_true, decide_eq_true_eq] at happlies
    exact ⟨List.find?_some hfound, happlies.1, mem_values.1 hvalue⟩
  unfold Limit.effective? LimitMap.inForce
  cases hspecial : (t.applicableLimits teamId forTeam).find? fun l =>
      l.scope = .team ∧ l.forTeam = some forTeam with
  | some r =>
    obtain ⟨hp, hteam, i, hr⟩ := stored hspecial
    obtain ⟨hscope, hfor⟩ : r.scope = .team ∧ r.forTeam = some forTeam := by simpa using hp
    have threshold := h.threshold i r hr
    rw [hteam, hfor] at threshold
    rw [threshold, Option.some_or, Option.map_some, hscope]
  | none =>
    have unset : m teamId (some forTeam) = none := by
      refine h.eq_none fun i r hr hteam hfor => ?_
      have hscope : r.scope = .team := (h.fits i r hr).1 (by rw [Limit.key, hfor]; rfl)
      have := none_applicable hspecial hr hteam (.inr ⟨hscope, hfor⟩)
      simp [hscope, hfor] at this
    rw [unset, Option.none_or]
    cases hdefault : (t.applicableLimits teamId forTeam).find? fun l => l.scope = .default with
    | some r =>
      obtain ⟨hp, hteam, i, hr⟩ := stored hdefault
      have hscope : r.scope = .default := by simpa using hp
      have threshold := h.threshold i r hr
      rw [hteam, (h.default_iff hr).1 hscope] at threshold
      rw [threshold, Option.map_some, hscope]
    | none =>
      have unset' : m teamId none = none := by
        refine h.eq_none fun i r hr hteam hfor => ?_
        have hscope := (h.default_iff hr).2 hfor
        have := none_applicable hdefault hr hteam (.inl hscope)
        simp [hscope] at this
      rw [unset']
      rfl

/-- What follows from rows that stand for a map is told by the map. -/
theorem tells (h : t.limits.Represents m) (teamId forTeam : Ident) (owed : Money) :
    m.Tells teamId forTeam owed
      (LimitReport.evaluate teamId forTeam owed (t.applicableLimits teamId forTeam)) := by
  have effective := h.effective? teamId forTeam
  refine ⟨⟨rfl, rfl⟩, rfl, ?_, ?_, ?_⟩
  · rw [← effective]
    unfold LimitReport.evaluate
    cases Limit.effective? (t.applicableLimits teamId forTeam) forTeam <;> rfl
  · rw [← effective, Option.map_map]
    rfl
  · unfold LimitReport.evaluate
    rw [Bool.or_eq_true, Money.isZero_iff, decide_eq_true_eq]

/-- **What is reported on rows that stand for a map** is read off the map. -/
theorem reported {limits : Rows Limit} (h : limits.Represents m) : m.Reported limits := by
  intro q ttl cache hseen hteam hmissed
  have told := (hseen ▸ h : q.seen.limits.Represents m).tells q.teamId q.forTeam
  rw [CreditLimit.Question.ask_of_missed hteam hmissed, CreditLimit.Question.evaluated]
  cases q.seen.unpaidAmount q.forTeam q.teamId with
  | ok owed => exact ⟨_, rfl, told owed⟩
  | error operation => rfl

end Rows.Represents

/-! ## A clerk -/

/-- What is done next: a call, a commit after which a new session begins, or a new team. -/
inductive ClerkStep
  | call (c : LimitCall)
  | turnover
  | addTeam (name : String) (kind : Team.Kind)

/-- The world that the clerk works in, and the map that he keeps besides. -/
structure Clerk where
  world : World
  map : LimitMap

namespace Clerk

variable {k : Clerk} {name : String} {w : World} {m : LimitMap}

/-- One step, done under the name of the clerk's session. -/
def step (name : String) (k : Clerk) : ClerkStep → Clerk
  | .call c =>
    match k.world.run name none c.program with
    | some (_, w) => { world := w, map := c.apply k.world.ledger.tables.teams k.map }
    | none => k
  | .turnover => { k with world := (k.world.commit name).2.begin name }
  | .addTeam team kind => { k with world := (k.world.addTeam team kind).2 }

/-- After some steps. The first session begins before them. -/
def after (name : String) (w : World) (m : LimitMap) (steps : List ClerkStep) : Clerk :=
  steps.foldl (step name) { world := w.begin name, map := m }

/-- The clerk's session is open and up to date, and the rows that it sees stand for his map. -/
structure Kept (name : String) (k : Clerk) (s : Session) : Prop where
  sound : k.world.Sound
  isOpen : k.world.open? name = some s
  current : s.UpToDate k.world.ledger
  represents : (k.world.ledger.tables.apply s.changes).limits.Represents k.map

theorem Kept.hosts {s : Session} (h : Kept name k s) : k.world.ledger.Hosts s :=
  ⟨h.sound.keyed, h.sound.within, h.sound.fits name s h.isOpen⟩

/-- A session that begins sees what is committed. -/
theorem kept_begin (hw : w.Sound) (hm : w.ledger.tables.limits.Represents m) :
    ∃ s, Kept name { world := w.begin name, map := m } s := by
  refine ⟨_, hw.begin name, by rw [World.open?_begin, if_pos rfl], fun k => rfl, ?_⟩
  show ((w.begin name).ledger.tables.apply {}).limits.Represents m
  rw [Tables.apply_empty, World.tables_begin]
  exact hm

/-- **A commit** goes through, and leaves what the session has seen. -/
theorem Kept.commit {s : Session} (h : Kept name k s) : (k.world.commit name).1 = .ok () ∧
    (k.world.commit name).2.ledger.tables = k.world.ledger.tables.apply s.changes := by
  obtain ⟨answer_eq, ledger_eq⟩ := World.commit_of_open? h.isOpen
  rw [answer_eq, ledger_eq, Ledger.commit_of_admits fun key _ => h.current key]
  exact ⟨rfl, rfl⟩

/-- **A call** does to the rows what it does to the map. -/
theorem Kept.call {s : Session} (h : Kept name k s) (c : LimitCall) : ∃ a w' s',
    k.world.run name none c.program = some (a, w') ∧
      c.Done k.world.ledger s a w'.ledger s' ∧
        Kept name { world := w', map := c.apply k.world.ledger.tables.teams k.map } s' := by
  obtain ⟨w', hrun, hledger, hopen⟩ := World.run_of_open h.isOpen c.program
  have done := c.done h.hosts h.current h.represents k.world.around
  obtain ⟨-, current⟩ := Program.run_preserves (P := fun l s => l.Hosts s ∧ s.UpToDate l)
    (fun l s c hs => ⟨hs.1.answer c, hs.2.answer hs.1 c⟩) c.program k.world.around
    ⟨h.hosts, h.current⟩
  rw [← hledger] at done current
  refine ⟨_, w', _, hrun, done, h.sound.run hrun, by rw [hopen, if_pos rfl], current, ?_⟩
  exact done.does.represents h.represents

theorem Kept.step {s : Session} (h : Kept name k s) (e : ClerkStep) :
    ∃ s', Kept name (k.step name e) s' := by
  cases e with
  | call c =>
    obtain ⟨a, w', s', hrun, -, hkept⟩ := h.call c
    rw [Clerk.step, hrun]
    exact ⟨s', hkept⟩
  | turnover =>
    refine kept_begin (h.sound.commit name) ?_
    rw [h.commit.2]
    exact h.represents
  | addTeam team kind =>
    exact ⟨s, h.sound.addTeam team kind, h.isOpen, h.current, h.represents⟩

theorem kept (name : String) (hw : w.Sound) (hm : w.ledger.tables.limits.Represents m)
    (steps : List ClerkStep) : ∃ s, Kept name (after name w m steps) s := by
  induction steps using List.reverseRecOn with
  | nil => exact kept_begin hw hm
  | append_singleton steps e ih =>
    obtain ⟨s, hs⟩ := ih
    unfold after
    rw [List.foldl_append]
    exact hs.step e

/-- **Limits are a map.** Begin with limits that stand for a map, and make any calls that set and delete
limits, with any ids, in one session or in several, each committed before the next begins, while teams
are added in between. Then the rows that the session sees stand for the map that the calls would make of
the first one; what is reported on them is read off that map; a commit goes through and leaves these
rows. Whatever is called next ends: it is refused, or sets one key under the id that the key had, or
erases keys, and it answers the row or the number of rows that are gone. -/
theorem limits_follow_map (name : String) (hw : w.Sound) (hm : w.ledger.tables.limits.Represents m)
    (steps : List ClerkStep) : ∃ s, (after name w m steps).world.open? name = some s ∧
      ((after name w m steps).world.ledger.tables.apply s.changes).limits.Represents
        (after name w m steps).map ∧
      (after name w m steps).map.Reported
        ((after name w m steps).world.ledger.tables.apply s.changes).limits ∧
      ((after name w m steps).world.commit name).1 = .ok () ∧
      ((after name w m steps).world.commit name).2.ledger.tables =
        (after name w m steps).world.ledger.tables.apply s.changes ∧
      ∀ c : LimitCall, ∃ a w' s', (after name w m steps).world.run name none c.program = some (a, w') ∧
        w'.open? name = some s' ∧ c.Done (after name w m steps).world.ledger s a w'.ledger s' := by
  obtain ⟨s, hs⟩ := kept name hw hm steps
  refine ⟨s, hs.isOpen, hs.represents, hs.represents.reported, hs.commit.1, hs.commit.2, fun c => ?_⟩
  obtain ⟨a, w', s', hrun, done, hkept⟩ := hs.call c
  exact ⟨a, w', s', hrun, hkept.isOpen, done⟩

/-- Limits are set and one is deleted again, with a commit in between. -/
def officeHours : List ClerkStep :=
  [.addTeam "buyers" .selling, .addTeam "sellers" .selling,
    .call (.set ⟨1, none, (Money.ofParts? 50 0).getD .zero⟩),
    .call (.set ⟨1, some 2, (Money.ofParts? 70 0).getD .zero⟩), .turnover,
    .call (.set ⟨1, some 0, (Money.ofParts? 60 0).getD .zero⟩), .call (.delete 1 (some 2))]

/-- The clerk after these, who has begun with nothing. -/
def closingTime : Clerk :=
  after "clerk" { around := { clock := ⟨.ofSecond 0⟩ } } (fun _ _ => none) officeHours

/-- Zero is no counterpart, so the default was set twice, and it still has the id that it got first. -/
theorem limits_follow_map_default : ∃ s, closingTime.world.open? "clerk" = some s ∧
    (closingTime.world.ledger.tables.apply s.changes).limits.Represents closingTime.map ∧
    closingTime.map 1 none = some ⟨60, 0, by decide, by decide⟩ ∧
    (closingTime.world.ledger.tables.apply s.changes).limits.ids = [3] := by
  have ids_eq : (closingTime.world.open? "clerk").map (fun s =>
      (closingTime.world.ledger.tables.apply s.changes).limits.ids) = some [3] := by
    decide +kernel
  obtain ⟨s, hs, represents, -⟩ := limits_follow_map "clerk"
    (World.Sound.start { clock := ⟨⟨0, 0, by decide⟩⟩ }) Rows.Represents.empty officeHours
  change closingTime.world.open? "clerk" = some s at hs
  rw [hs] at ids_eq
  exact ⟨s, hs, represents, by decide +kernel, Option.some.inj ids_eq⟩

end Clerk

end TeamLedger
