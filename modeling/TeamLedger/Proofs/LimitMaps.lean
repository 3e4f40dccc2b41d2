/-
Limits as a map.

Seen from outside, limits are a map: from a team and a counterpart, or none, to a
threshold. To set a limit is to write one key, to delete the limits of a team is
to erase its keys or one of them, and a call that is refused changes nothing
(`LimitCall.apply`). The rows say more than the map does: they have ids, and the
scope of a row repeats whether it names a counterpart. That they stand for a map
nevertheless (`Rows.Represents`) is kept by every call, for a call does one of
three things to the rows that it sees (`LimitCall.Does`).

As long as nobody else commits, a session sees under its changes what is
committed, also where a statement does not look for it again: the versions that
it has noted are the current ones (`Session.UpToDate`). So it does not matter which
of the statements of a call reads, and the commit goes through.
-/
import TeamLedger.CreditLimit
import TeamLedger.Proofs.Crossings
import TeamLedger.Proofs.Runs
import TeamLedger.Proofs.Updates

set_option autoImplicit false

namespace TeamLedger

/-! ## The map -/

/-- Thresholds by team and counterpart; without a counterpart it is the default of the team. -/
abbrev LimitMap := Ident → Option Ident → Option Money

/-- A call that changes limits. -/
inductive LimitCall
  | set (wish : SetLimit)
  | delete (teamId : Ident) (forTeam : Option Ident)

/-- What a call answers: the row as it is stored, or the number of rows that are gone. -/
inductive LimitAnswer
  | row (limit : Limit)
  | count (n : Nat)

open CreditLimit (counterpart)

/-- The key that a wish is about. -/
def SetLimit.key (wish : SetLimit) : LimitKey :=
  ⟨wish.teamId, if (counterpart wish.forTeam).isSome then .team else .default,
    counterpart wish.forTeam⟩

theorem SetLimit.fits_key (wish : SetLimit) : wish.key.Fits := by
  unfold LimitKey.Fits key
  cases counterpart wish.forTeam <;> simp

namespace LimitCall

/-- Why a call is refused, if it is: there is no team, the threshold is below zero, or a team is not
there. -/
def refusal? (teams : Rows Team) : LimitCall → Option LedgerError
  | set wish =>
    if wish.teamId = 0 then some (.validation .noTeam)
    else if wish.threshold.isNegative then some (.validation (.negativeThreshold wish.threshold))
    else if (teams.get? wish.teamId).isNone then some (.notFound (.team wish.teamId))
    else match counterpart wish.forTeam with
      | some id => if (teams.get? id).isNone then some (.notFound (.team id)) else none
      | none => none
  | delete teamId _ => if teamId = 0 then some (.validation .noTeam) else none

/-- The map after a call. -/
def apply (teams : Rows Team) (m : LimitMap) (c : LimitCall) : LimitMap :=
  match c.refusal? teams, c with
  | some _, _ => m
  | none, set wish => fun t f =>
    if t = wish.teamId ∧ f = counterpart wish.forTeam then some wish.threshold else m t f
  | none, delete teamId forTeam => fun t f =>
    if t = teamId ∧ (counterpart forTeam = none ∨ f = counterpart forTeam) then none else m t f

end LimitCall

/-! ## Rows that stand for a map -/

/-- The rows stand for the map: one row for each key, with its threshold. -/
structure Rows.Represents (rows : Rows Limit) (m : LimitMap) : Prop where
  keyed : rows.KeyedBy Limit.id
  numbered : ∀ i r, rows.get? i = some r → i ≠ 0
  /-- A default names no counterpart, and any other limit names one. -/
  fits : ∀ i r, rows.get? i = some r → r.key.Fits
  threshold : ∀ i r, rows.get? i = some r → m r.teamId r.forTeam = some r.threshold
  unique : ∀ i j r r', rows.get? i = some r → rows.get? j = some r' → r.teamId = r'.teamId →
    r.forTeam = r'.forTeam → i = j
  row : ∀ t f x, m t f = some x → ∃ i r, rows.get? i = some r ∧ r.teamId = t ∧ r.forTeam = f

theorem Rows.Represents.empty : (Rows.empty : Rows Limit).Represents fun _ _ => none := by
  refine ⟨.empty, ?_, ?_, ?_, ?_, ?_⟩
  all_goals simp

namespace LimitCall

open StoreCall (dooms)

variable {teams : Rows Team} {rows rows' : Rows Limit} {m : LimitMap} {c : LimitCall}
  {a : Except Failure LimitAnswer}

/-- **What a call does to the rows.** It is refused; or it writes one row, under the id of the row with
its key, or under a new id if there is none; or it takes away the rows that it is about. -/
inductive Does (teams : Rows Team) (rows : Rows Limit) :
    LimitCall → Except Failure LimitAnswer → Rows Limit → Prop
  | refused {c : LimitCall} {e : LedgerError} (h : c.refusal? teams = some e) :
    Does teams rows c (.error (.refused e)) rows
  | set {wish : SetLimit} {saved : Limit} (h : (LimitCall.set wish).refusal? teams = none)
      (key : saved.key = wish.key) (threshold : saved.threshold = wish.threshold)
      (kept : ∀ i r, rows.get? i = some r → r.teamId = wish.teamId →
        r.forTeam = counterpart wish.forTeam → saved.id = i)
      (fresh : (∀ i r, rows.get? i = some r → ¬ (r.teamId = wish.teamId ∧
        r.forTeam = counterpart wish.forTeam)) → saved.id ≠ 0 ∧ rows.get? saved.id = none) :
    Does teams rows (.set wish) (.ok (.row saved)) (rows.insert saved.id saved)
  | delete {teamId : Ident} {forTeam : Option Ident}
      (h : (LimitCall.delete teamId forTeam).refusal? teams = none) :
    Does teams rows (.delete teamId forTeam)
      (.ok (.count (rows.values.countP (dooms teamId (counterpart forTeam)))))
      (rows.filter fun r => !dooms teamId (counterpart forTeam) r)

theorem dooms_iff {teamId : Ident} {forTeam : Option Ident} {r : Limit} :
    dooms teamId forTeam r = true ↔
      r.teamId = teamId ∧ (forTeam = none ∨ r.forTeam = forTeam) := by
  cases forTeam <;> simp [dooms]

/-- The row that is written takes the place of the one with its key, so the keys stay apart. -/
theorem represents_set (h : rows.Represents m) {wish : SetLimit} {saved : Limit}
    (key : saved.key = wish.key) (threshold : saved.threshold = wish.threshold)
    (kept : ∀ i r, rows.get? i = some r → r.teamId = wish.teamId →
      r.forTeam = counterpart wish.forTeam → saved.id = i)
    (fresh : (∀ i r, rows.get? i = some r → ¬ (r.teamId = wish.teamId ∧
      r.forTeam = counterpart wish.forTeam)) → saved.id ≠ 0 ∧ rows.get? saved.id = none) :
    (rows.insert saved.id saved).Represents fun t f =>
      if t = wish.teamId ∧ f = counterpart wish.forTeam then some wish.threshold else m t f := by
  have team_eq : saved.teamId = wish.teamId := congrArg LimitKey.teamId key
  have for_eq : saved.forTeam = counterpart wish.forTeam := congrArg LimitKey.forTeam key
  -- a row under another id has another key
  have other (i : Ident) (r : Limit) (hr : rows.get? i = some r) (hi : i ≠ saved.id) :
      ¬ (r.teamId = wish.teamId ∧ r.forTeam = counterpart wish.forTeam) :=
    fun ⟨hteam, hfor⟩ => hi (kept i r hr hteam hfor).symm
  -- the row under the same id had the same key
  have same (r : Limit) (hr : rows.get? saved.id = some r) :
      r.teamId = wish.teamId ∧ r.forTeam = counterpart wish.forTeam := by
    by_contra hne
    have none_there : rows.get? saved.id = none := by
      refine (fresh fun i r' hr' hkey => ?_).2
      have hi := kept i r' hr' hkey.1 hkey.2
      rw [← hi, hr] at hr'
      cases hr'
      exact hne hkey
    rw [hr] at none_there
    cases none_there
  refine ⟨h.keyed.insert saved, fun i r hr => ?_, fun i r hr => ?_, fun i r hr => ?_,
    fun i j r r' hr hr' hteam hfor => ?_, fun t f x hx => ?_⟩
  · rw [Rows.get?_insert] at hr
    split at hr
    next hi =>
      rw [hi]
      by_cases hkey : ∀ i r, rows.get? i = some r →
          ¬ (r.teamId = wish.teamId ∧ r.forTeam = counterpart wish.forTeam)
      · exact (fresh hkey).1
      · simp only [not_forall, not_not] at hkey
        obtain ⟨j, r', hr', hteam, hfor⟩ := hkey
        rw [kept j r' hr' hteam hfor]
        exact h.numbered j r' hr'
    next => exact h.numbered i r hr
  · rw [Rows.get?_insert] at hr
    split at hr
    next =>
      rw [← Option.some.inj hr, key]
      exact wish.fits_key
    next => exact h.fits i r hr
  · rw [Rows.get?_insert] at hr
    split at hr
    next =>
      rw [← Option.some.inj hr, if_pos ⟨team_eq, for_eq⟩, threshold]
    next hi =>
      rw [if_neg (other i r hr hi)]
      exact h.threshold i r hr
  · rw [Rows.get?_insert] at hr hr'
    split at hr <;> split at hr'
    next hi hj => exact hi.trans hj.symm
    next hi hj =>
      rw [← Option.some.inj hr, team_eq] at hteam
      rw [← Option.some.inj hr, for_eq] at hfor
      exact absurd ⟨hteam.symm, hfor.symm⟩ (other j r' hr' hj)
    next hi hj =>
      rw [← Option.some.inj hr', team_eq] at hteam
      rw [← Option.some.inj hr', for_eq] at hfor
      exact absurd ⟨hteam, hfor⟩ (other i r hr hi)
    next => exact h.unique i j r r' hr hr' hteam hfor
  · by_cases hkey : t = wish.teamId ∧ f = counterpart wish.forTeam
    · exact ⟨saved.id, saved, by rw [Rows.get?_insert, if_pos rfl], team_eq.trans hkey.1.symm,
        for_eq.trans hkey.2.symm⟩
    · rw [if_neg hkey] at hx
      obtain ⟨i, r, hr, rfl, rfl⟩ := h.row t f x hx
      have hi : i ≠ saved.id := fun heq => hkey (same r (heq ▸ hr))
      exact ⟨i, r, by rw [Rows.get?_insert, if_neg hi, hr], rfl, rfl⟩

/-- The rows that are left are those whose keys are left. -/
theorem represents_delete (h : rows.Represents m) (teamId : Ident) (forTeam : Option Ident) :
    (rows.filter fun r => !dooms teamId forTeam r).Represents fun t f =>
      if t = teamId ∧ (forTeam = none ∨ f = forTeam) then none else m t f := by
  have left {i : Ident} {r : Limit} :
      (rows.filter fun r => !dooms teamId forTeam r).get? i = some r ↔
        rows.get? i = some r ∧ ¬ (r.teamId = teamId ∧ (forTeam = none ∨ r.forTeam = forTeam)) := by
    rw [Rows.get?_filter, Option.filter_eq_some_iff, ← dooms_iff, Bool.not_eq_true',
      Bool.not_eq_true]
  refine ⟨fun i r hr => ?_, fun i r hr => ?_, fun i r hr => ?_, fun i r hr => ?_,
    fun i j r r' hr hr' => ?_, fun t f x hx => ?_⟩
  · exact h.keyed i r (left.1 hr).1
  · exact h.numbered i r (left.1 hr).1
  · exact h.fits i r (left.1 hr).1
  · rw [if_neg (left.1 hr).2]
    exact h.threshold i r (left.1 hr).1
  · exact h.unique i j r r' (left.1 hr).1 (left.1 hr').1
  · by_cases hkey : t = teamId ∧ (forTeam = none ∨ f = forTeam)
    · rw [if_pos hkey] at hx
      cases hx
    · rw [if_neg hkey] at hx
      obtain ⟨i, r, hr, rfl, rfl⟩ := h.row t f x hx
      exact ⟨i, r, left.2 ⟨hr, hkey⟩, rfl, rfl⟩

/-- **Rows stand for the map as calls change both.** -/
theorem Does.represents (hdoes : c.Does teams rows a rows') (h : rows.Represents m) :
    rows'.Represents (c.apply teams m) := by
  cases hdoes with
  | refused hrefused =>
    unfold apply
    rw [hrefused]
    exact h
  | set hnone key threshold kept fresh =>
    unfold apply
    rw [hnone]
    exact represents_set h key threshold kept fresh
  | delete hnone =>
    unfold apply
    rw [hnone]
    exact represents_delete h _ _

end LimitCall

/-! ## Sessions that are up to date -/

/-- Every row has the version that the session has noted for it. -/
def Session.UpToDate (s : Session) (l : Ledger) : Prop := ∀ k, l.versions k = s.base k

namespace Session.UpToDate

variable {l : Ledger} {s : Session}

theorem refresh (h : s.UpToDate l) : (s.refresh l).UpToDate l := by
  intro k
  show l.versions k = if k ∈ s.changes.written then s.base k else l.versions k
  rw [← h k, ite_self]

theorem answer (h : s.UpToDate l) (hl : l.Hosts s) (c : StoreCall) :
    (s.answer l c).2.2.UpToDate (s.answer l c).2.1 := by
  intro k
  rw [(s.answer_ledger l c).versions, hl.answer_session c, Session.writeAll_base]
  split
  · exact h.refresh k
  · exact h k

/-- What a session sees of limits, it also sees without looking for them again. -/
theorem limits_view (h : s.UpToDate l) (hl : l.Hosts s) :
    s.view.limits = (l.tables.apply s.changes).limits :=
  Rows.ext_get? fun k => ((hl.fits.sameRow_view (h ⟨.limit, k⟩)) : _ = _).symm

end Session.UpToDate

/-! ## What a call leaves -/

/-- The limits whose ids are listed are gone. -/
theorem Tables.get?_limits_dropAll (t : Tables) (ids : List Ident) (k : Ident) :
    (t.putAll (ids.map .dropLimit)).limits.get? k = if k ∈ ids then none else t.limits.get? k := by
  induction ids generalizing t with
  | nil => simp
  | cons id ids ih =>
    rw [List.map_cons, Tables.putAll_cons, ih]
    simp only [Tables.put, Rows.get?_eraseAll, List.mem_cons, List.not_mem_nil, or_false]
    by_cases hk : k = id
    · simp [hk]
    · simp [hk]

/-- **What a call stores** is there afterwards, on top of what was there. -/
theorem Ledger.Hosts.seen_answer {l : Ledger} {s : Session} (h : l.Hosts s) (c : StoreCall) :
    (s.answer l c).2.1.tables.apply (s.answer l c).2.2.changes =
      (l.tables.apply s.changes).putAll (s.writes l c) := by
  rw [(s.answer_ledger l c).tables, h.answer_changes, h.fits.apply_writes]

/-! ## The services -/

/-- What a call comes to, and what it does to the rows that a session sees. A call that fails leaves
everything as it is. -/
structure LimitCall.Done (c : LimitCall) (l : Ledger) (s : Session) (a : Except Failure LimitAnswer)
    (l' : Ledger) (s' : Session) : Prop where
  does : c.Does l.tables.teams (l.tables.apply s.changes).limits a
    (l'.tables.apply s'.changes).limits
  failed : ∀ e, a = .error e → l' = l ∧ s'.changes = s.changes

theorem LimitCall.Done.refused {c : LimitCall} {l : Ledger} {s s' : Session} {e : LedgerError}
    (h : c.refusal? l.tables.teams = some e) (hs : s'.changes = s.changes) :
    c.Done l s (.error (.refused e)) l s' := by
  refine ⟨?_, fun _ _ => ⟨rfl, hs⟩⟩
  rw [hs]
  exact .refused h

theorem LimitCall.Done.completed {c : LimitCall} {l l' : Ledger} {s s' : Session} {a : LimitAnswer}
    (does : c.Does l.tables.teams (l.tables.apply s.changes).limits (.ok a)
      (l'.tables.apply s'.changes).limits) : c.Done l s (.ok a) l' s' where
  does := does
  failed _ h := by cases h

namespace CreditLimit

variable {σ : Type} {l l' : Ledger} {s s' : Session} {x y : σ × Ledger × Session}

/-- Without a team a service ends there. -/
theorem requireTeam_bind {β : Type} {teamId : Ident} {p : Unit → Service σ β} {r : Except Failure β}
    (h : (requireTeam teamId >>= p).Ends x r y) :
    teamId = 0 ∧ r = .error (.refused (.validation .noTeam)) ∧ y = x ∨
      teamId ≠ 0 ∧ (p ()).Ends x r y := by
  unfold requireTeam at h
  by_cases hteam : teamId = 0
  · rw [if_pos hteam] at h
    obtain ⟨e, rfl, hrefused⟩ | ⟨_, z, hrefused, -⟩ := Service.Ends.bind h
    · obtain ⟨he, rfl⟩ := Service.Ends.refuse hrefused
      cases he
      exact .inl ⟨hteam, rfl, rfl⟩
    · cases (Service.Ends.refuse hrefused).1
  · rw [if_neg hteam] at h
    obtain ⟨e, -, hdone⟩ | ⟨_, z, hdone, hp⟩ := Service.Ends.bind h
    · cases (Service.Ends.pure hdone).1
    · obtain ⟨-, rfl⟩ := Service.Ends.pure hdone
      exact .inr ⟨hteam, hp⟩

/-- The session looks for the team in what is committed now. -/
theorem requireStored_bind {β : Type} {teamId : Ident} {p : Unit → Service σ β} {st : σ}
    {r : Except Failure β} (h : (requireStored teamId >>= p).Ends (st, l, s) r y) :
    (l.tables.teams.get? teamId).isNone = true ∧
        r = .error (.refused (.notFound (.team teamId))) ∧ y = (st, l, s.refresh l) ∨
      (l.tables.teams.get? teamId).isNone = false ∧ (p ()).Ends (st, l, s.refresh l) r y := by
  have looked {r : Except Failure Unit} {z : σ × Ledger × Session}
      (h : (requireStored teamId : Service σ Unit).Ends (st, l, s) r z) :
      z = (st, l, s.refresh l) ∧ r = if (l.tables.teams.get? teamId).isNone
        then .error (.refused (.notFound (.team teamId))) else .ok () := by
    obtain ⟨e, -, h⟩ | ⟨team, z, hcall, h⟩ := Service.Ends.bind h
    · cases (Service.Ends.call h).1
    obtain ⟨hteam, rfl⟩ := Service.Ends.call hcall
    obtain rfl : team = l.tables.teams.get? teamId := Except.ok.inj hteam
    split at h
    next hnone =>
      obtain ⟨hr, hz⟩ := Service.Ends.refuse h
      exact ⟨hz, hr.trans (if_pos hnone).symm⟩
    next hnone =>
      obtain ⟨hr, hz⟩ := Service.Ends.pure h
      exact ⟨hz, hr.trans (if_neg hnone).symm⟩
  cases hnone : (l.tables.teams.get? teamId).isNone with
  | true =>
    simp only [hnone, if_true] at looked
    obtain ⟨e, rfl, hstored⟩ | ⟨_, z, hstored, -⟩ := Service.Ends.bind h
    · obtain ⟨rfl, he⟩ := looked hstored
      cases he
      exact .inl ⟨rfl, rfl, rfl⟩
    · cases (looked hstored).2
  | false =>
    simp only [hnone, Bool.false_eq_true, if_false] at looked
    obtain ⟨e, -, hstored⟩ | ⟨_, z, hstored, hp⟩ := Service.Ends.bind h
    · cases (looked hstored).2
    · obtain ⟨rfl, -⟩ := looked hstored
      exact .inr ⟨rfl, hp⟩

/-- A limit was stored for a wish: the one that was found with its key, or a new one. -/
structure Stored (wish : SetLimit) (l : Ledger) (s : Session) (saved : Limit) (l' : Ledger)
    (s' : Session) : Prop where
  tables : l'.tables = l.tables
  seen : l'.tables.apply s'.changes = (l.tables.apply s.changes).put (.limit saved)
  key : saved.key = wish.key
  threshold : saved.threshold = wish.threshold
  row : (∃ i r, (l.tables.apply s.changes).limits.get? i = some r ∧ r.key = wish.key ∧
      saved.id = i) ∨
    (∀ i r, (l.tables.apply s.changes).limits.get? i = some r → r.key ≠ wish.key) ∧
      saved.id = l.newId.1

/-- What is left of setting a limit once nothing is wrong with the wish. -/
def lookAndStore (wish : SetLimit) : Service σ Limit := do
  let found ← Service.call (.findLimit wish.key.teamId wish.key.scope wish.key.forTeam)
  let limit : Limit := found.getD
    { id := 0, teamId := wish.key.teamId, scope := wish.key.scope,
      forTeam := wish.key.forTeam, threshold := .zero }
  Service.call (.saveLimit { limit with threshold := wish.threshold })

/-- Looking for a limit and storing one. -/
theorem lookAndStore_ends {wish : SetLimit} {st : σ} {r : Except Failure Limit} (hl : l.Hosts s)
    (hids : ∀ i r, (l.tables.apply s.changes).limits.get? i = some r → i ≠ 0)
    (h : (lookAndStore wish : Service σ Limit).Ends (st, l, s) r y) :
    ∃ saved, r = .ok saved ∧ Stored wish l s saved y.2.1 y.2.2 := by
  have hosts : l.Hosts (s.refresh l) := hl.answer (.limitsOf 0)
  have keyed := hosts.fits.view_keyed.limits
  obtain ⟨e, -, h⟩ | ⟨found, z, hfind, h⟩ := Service.Ends.bind h
  · obtain ⟨he, -⟩ := Service.Ends.call h
    cases he
  obtain ⟨hfound, rfl⟩ := Service.Ends.call hfind
  obtain rfl := Except.ok.inj hfound
  obtain ⟨hr, rfl⟩ := Service.Ends.call h
  rw [hr]
  cases hlook : (s.refresh l).view.findLimit wish.key.teamId wish.key.scope wish.key.forTeam with
  | none =>
    have absent := Tables.findLimit_eq_none.1 hlook
    refine ⟨_, rfl, rfl, hosts.seen_answer _, rfl, rfl, .inr ⟨absent, rfl⟩⟩
  | some limit =>
    obtain ⟨i, hi⟩ := Tables.get?_of_findLimit hlook
    have hid : limit.id = i := keyed i limit hi
    have hkey : limit.key = wish.key := by
      have := List.find?_some hlook
      simp only [Bool.and_eq_true, decide_eq_true_eq] at this
      exact LimitKey.mk.injEq .. ▸ ⟨this.1.1, this.1.2, this.2⟩
    have hne : limit.id ≠ 0 := hid ▸ hids i limit hi
    have hget : (s.refresh l).view.limits.get? limit.id = some limit := hid ▸ hi
    have answer_eq : Session.answer l (s.refresh l)
        (.saveLimit { limit with threshold := wish.threshold }) =
          (.ok { limit with threshold := wish.threshold }, l,
            (s.refresh l).putLimit { limit with threshold := wish.threshold }) := by
      simp only [Session.answer, Session.saveLimit, if_neg hne, hget]
      rfl
    have writes_eq : (s.refresh l).writes l (.saveLimit { limit with threshold := wish.threshold }) =
        [.limit { limit with threshold := wish.threshold }] := by
      simp only [Session.writes, if_neg hne, hget]
      rfl
    have seen := hosts.seen_answer (.saveLimit { limit with threshold := wish.threshold })
    rw [writes_eq, answer_eq] at seen
    simp only [Option.getD_some]
    rw [answer_eq]
    exact ⟨_, rfl, rfl, seen, hkey, rfl, .inl ⟨i, limit, hi, hkey, hid⟩⟩

/-- A call that stored a limit wrote one row. -/
theorem Stored.does {wish : SetLimit} {saved : Limit} {m : LimitMap} (hl : l.Hosts s)
    (hm : (l.tables.apply s.changes).limits.Represents m) (h : Stored wish l s saved l' s')
    (hnone : (LimitCall.set wish).refusal? l.tables.teams = none) :
    (LimitCall.set wish).Does l.tables.teams (l.tables.apply s.changes).limits (.ok (.row saved))
      (l'.tables.apply s'.changes).limits := by
  have same_key (i : Ident) (r : Limit) (hr : (l.tables.apply s.changes).limits.get? i = some r)
      (hteam : r.teamId = wish.teamId) (hfor : r.forTeam = counterpart wish.forTeam) :
      r.key = wish.key := by
    -- whether there is a counterpart decides the scope
    have fits : r.forTeam.isSome ↔ r.scope = .team := hm.fits i r hr
    have fits' : (counterpart wish.forTeam).isSome ↔ wish.key.scope = .team := wish.fits_key
    have scope_eq : r.scope = wish.key.scope := by
      rw [hfor, fits'] at fits
      cases hscope : r.scope <;> cases hwish : wish.key.scope <;> simp_all
    exact LimitKey.mk.injEq .. ▸ ⟨hteam, scope_eq, hfor⟩
  rw [h.seen]
  refine .set hnone h.key h.threshold (fun i r hr hteam hfor => ?_) fun habsent => ?_
  · rcases h.row with ⟨j, r', hr', hkey, hid⟩ | ⟨hnever, -⟩
    · rw [hid]
      exact hm.unique j i r' r hr' hr ((congrArg LimitKey.teamId hkey).trans hteam.symm)
        ((congrArg LimitKey.forTeam hkey).trans hfor.symm)
    · exact absurd (same_key i r hr hteam hfor) (hnever i r hr)
  · rcases h.row with ⟨j, r', hr', hkey, -⟩ | ⟨-, hid⟩
    · exact absurd ⟨congrArg LimitKey.teamId hkey, congrArg LimitKey.forTeam hkey⟩ (habsent j r' hr')
    · rw [hid]
      refine ⟨Int.ne_of_gt (Int.natCast_pos.2 (Nat.succ_pos _)), ?_⟩
      refine Option.not_isSome_iff_eq_none.1 fun hused => ?_
      exact hl.newId_unused (.inr (.inr (.inr (.inr hused))))

/-- **Setting a limit** does to the rows what a call may do. -/
theorem set_ends {wish : SetLimit} {st : σ} {r : Except Failure Limit} {m : LimitMap}
    (hl : l.Hosts s) (hm : (l.tables.apply s.changes).limits.Represents m)
    (h : (CreditLimit.set wish : Service σ Limit).Ends (st, l, s) r y) :
    (LimitCall.set wish).Done l s (r.map .row) y.2.1 y.2.2 := by
  have looked (t : Session) : l.Hosts t → l.Hosts (t.refresh l) := fun ht => ht.answer (.limitsOf 0)
  -- the teams have been looked up by a session with the same changes
  have stored {t : Session} (hhosts : l.Hosts t) (ht : t.changes = s.changes)
      (hnone : (LimitCall.set wish).refusal? l.tables.teams = none)
      (h : (lookAndStore wish : Service σ Limit).Ends (st, l, t) r y) :
      (LimitCall.set wish).Done l s (r.map .row) y.2.1 y.2.2 := by
    rw [← ht] at hm
    obtain ⟨saved, rfl, hstored⟩ := lookAndStore_ends hhosts hm.numbered h
    have does := hstored.does hhosts hm hnone
    rw [ht] at does
    exact .completed does
  unfold CreditLimit.set at h
  obtain ⟨hzero, rfl, rfl⟩ | ⟨hteam, h⟩ := requireTeam_bind h
  · refine .refused ?_ rfl
    rw [LimitCall.refusal?, if_pos hzero]
  dsimp only at h
  split at h
  next hnegative =>
    obtain ⟨e, rfl, hrefused⟩ | ⟨_, z, hrefused, -⟩ := Service.Ends.bind h
    · obtain ⟨he, rfl⟩ := Service.Ends.refuse hrefused
      cases he
      refine .refused ?_ rfl
      rw [LimitCall.refusal?, if_neg hteam, if_pos hnegative]
    · cases (Service.Ends.refuse hrefused).1
  next hnegative =>
    obtain ⟨hmissing, rfl, rfl⟩ | ⟨hthere, h⟩ := requireStored_bind h
    · refine .refused ?_ rfl
      rw [LimitCall.refusal?, if_neg hteam, if_neg hnegative, if_pos hmissing]
    have upto : (LimitCall.set wish).refusal? l.tables.teams =
        match counterpart wish.forTeam with
        | some id =>
          if (l.tables.teams.get? id).isNone then some (.notFound (.team id)) else none
        | none => none := by
      rw [LimitCall.refusal?, if_neg hteam, if_neg hnegative, hthere, if_neg Bool.false_ne_true]
    split at h
    next id hfor =>
      rw [hfor] at upto
      obtain ⟨hmissing, rfl, rfl⟩ | ⟨hthere', h⟩ := requireStored_bind h
      · exact .refused (upto.trans (if_pos hmissing)) rfl
      · refine stored (looked _ (looked _ hl)) rfl (upto.trans ?_) h
        exact if_neg (by rw [hthere']; exact Bool.false_ne_true)
    next hfor =>
      rw [hfor] at upto
      exact stored (looked _ hl) rfl upto h

/-- **Deleting limits** does to the rows what a call may do: an up-to-date session finds all of them. -/
theorem delete_ends {teamId : Ident} {forTeam : Option Ident} {st : σ} {r : Except Failure Nat}
    (hl : l.Hosts s) (hs : s.UpToDate l)
    (h : (CreditLimit.delete teamId forTeam : Service σ Nat).Ends (st, l, s) r y) :
    (LimitCall.delete teamId forTeam).Done l s (r.map .count) y.2.1 y.2.2 := by
  unfold CreditLimit.delete at h
  obtain ⟨hzero, rfl, rfl⟩ | ⟨hteam, h⟩ := requireTeam_bind h
  · refine .refused ?_ rfl
    rw [LimitCall.refusal?, if_pos hzero]
  obtain ⟨rfl, rfl⟩ := Service.Ends.call h
  have keyed := hl.fits.view_keyed.limits
  have limits_eq : s.view.limits = (l.tables.apply s.changes).limits := hs.limits_view hl
  -- the rows that are left are those that are not meant
  have rows_eq : ((s.answer l (.deleteLimits teamId (counterpart forTeam))).2.1.tables.apply
      (s.answer l (.deleteLimits teamId (counterpart forTeam))).2.2.changes).limits =
        (l.tables.apply s.changes).limits.filter fun r =>
          !StoreCall.dooms teamId (counterpart forTeam) r := by
    rw [hl.seen_answer, ← limits_eq]
    refine Rows.ext_get? fun k => ?_
    rw [Session.writes, Tables.get?_limits_dropAll, ← limits_eq, Rows.get?_filter]
    cases hrow : s.view.limits.get? k with
    | none => simp
    | some x =>
      have mem_iff : k ∈ (s.view.limits.values.filter fun x => x.teamId = teamId &&
          (counterpart forTeam).all fun f => x.forTeam = some f).map (·.id) ↔
            StoreCall.dooms teamId (counterpart forTeam) x = true := by
        constructor
        · intro hk
          obtain ⟨x', hx', hid⟩ := List.mem_map.1 hk
          obtain ⟨hvalue, hdoomed⟩ := List.mem_filter.1 hx'
          rw [keyed.mem_values_iff, hid, hrow] at hvalue
          cases hvalue
          exact hdoomed
        · intro hdoomed
          exact List.mem_map.2 ⟨x, List.mem_filter.2 ⟨Rows.mem_values.2 ⟨k, hrow⟩, hdoomed⟩,
            keyed k x hrow⟩
      by_cases hdoomed : StoreCall.dooms teamId (counterpart forTeam) x = true
      · rw [if_pos (mem_iff.2 hdoomed), Option.filter_some_neg (by simpa using hdoomed)]
      · rw [if_neg fun hk => hdoomed (mem_iff.1 hk), Option.filter_some_pos (by simpa using hdoomed)]
  have count_eq : (s.answer l (.deleteLimits teamId (counterpart forTeam))).1.map LimitAnswer.count =
      .ok (.count ((l.tables.apply s.changes).limits.values.countP
        (StoreCall.dooms teamId (counterpart forTeam)))) := by
    rw [← limits_eq, List.countP_eq_length_filter]
    simp only [Session.answer, List.length_map]
    rfl
  rw [count_eq]
  refine .completed ?_
  rw [rows_eq]
  exact .delete (by rw [LimitCall.refusal?, if_neg hteam])

end CreditLimit

namespace LimitCall

/-- The program that carries out a call. -/
def program : LimitCall → Program (Except Failure LimitAnswer)
  | set wish => (CreditLimit.set wish).conclude () fun r _ => r.map .row
  | delete teamId forTeam => (CreditLimit.delete teamId forTeam).conclude () fun r _ => r.map .count

/-- **Every call ends**, and what it comes to is one of the three things it may do. -/
theorem done (c : LimitCall) {l : Ledger} {s : Session} (hl : l.Hosts s) (hs : s.UpToDate l)
    {m : LimitMap} (hm : (l.tables.apply s.changes).limits.Represents m) (around : Surroundings) :
    c.Done l s (c.program.run Session.backend (l, s) around).1
      (c.program.run Session.backend (l, s) around).2.1.1
      (c.program.run Session.backend (l, s) around).2.1.2 := by
  generalize hrun : c.program.run Session.backend (l, s) around = x
  obtain ⟨a, ⟨l', s'⟩, around'⟩ := x
  cases c with
  | set wish =>
    unfold program at hrun
    obtain ⟨r, y, hends, rfl, rfl, rfl⟩ := Service.conclude_run hrun
    exact CreditLimit.set_ends hl hm hends
  | delete teamId forTeam =>
    unfold program at hrun
    obtain ⟨r, y, hends, rfl, rfl, rfl⟩ := Service.conclude_run hrun
    exact CreditLimit.delete_ends hl hs hends

end LimitCall

end TeamLedger
