/-
What is noted of sessions that work on limits.

No two limits are meant to have the same key: the same team, the same scope, the
same counterpart. Whoever sets a limit looks first whether there is one with its
key, and adds one only if there is none. What is found out by looking is true of
what is committed at that moment and of the session's own changes, and nothing
looks again when the session commits.

So it matters who committed after the look. The notes say which sessions have
looked in vain, have added limits, and have committed, in this order of events.
Two sessions cross when each has looked before the other one committed
(`Crossed`), and what the notes tell of a ledger and its sessions is put down in
`Ledger.Noted` and `Session.Noted`.
-/
import TeamLedger.Proofs.Isolation

set_option autoImplicit false

namespace TeamLedger

/-! ## Keys -/

/-- What a limit is for: the counterparts of a team, all of them or one. -/
structure LimitKey where
  teamId : Ident
  scope : Limit.Scope
  forTeam : Option Ident
deriving DecidableEq, Repr

/-- What the limit is for. -/
def Limit.key (l : Limit) : LimitKey := ⟨l.teamId, l.scope, l.forTeam⟩

/-- A default names no counterpart, and any other limit names one. -/
def LimitKey.Fits (k : LimitKey) : Prop := k.forTeam.isSome ↔ k.scope = .team

namespace Tables

variable {t : Tables} {k : LimitKey}

theorem findLimit_eq_none : t.findLimit k.teamId k.scope k.forTeam = none ↔
    ∀ i r, t.limits.get? i = some r → r.key ≠ k := by
  obtain ⟨teamId, scope, forTeam⟩ := k
  unfold findLimit
  rw [List.find?_eq_none]
  simp only [Rows.mem_values, Limit.key, ne_eq, LimitKey.mk.injEq, Bool.and_eq_true,
    decide_eq_true_eq]
  constructor
  · exact fun h i r hr ⟨hteam, hscope, hfor⟩ => h r ⟨i, hr⟩ ⟨⟨hteam, hscope⟩, hfor⟩
  · exact fun h r ⟨i, hr⟩ ⟨⟨hteam, hscope⟩, hfor⟩ => h i r hr ⟨hteam, hscope, hfor⟩

theorem get?_of_findLimit {r : Limit} (h : t.findLimit k.teamId k.scope k.forTeam = some r) :
    ∃ i, t.limits.get? i = some r :=
  Rows.mem_values.1 (List.mem_of_find?_eq_some h)

end Tables

/-! ## Notes -/

/-- What is noted of a session that works on limits. -/
inductive LimitNote
  /-- It has looked for a limit, and there was none. -/
  | missed (id : SessionId) (key : LimitKey)
  | added (id : SessionId) (limit : Ident) (key : LimitKey)
  | committed (id : SessionId)
deriving DecidableEq

/-- The session that a note is about. -/
def LimitNote.session : LimitNote → SessionId
  | missed id _ | added id _ _ | committed id => id

namespace Session

/-- The key of the limit that a call has looked for in vain. -/
def missed? (l : Ledger) (s : Session) : StoreCall → Option LimitKey
  | .findLimit teamId scope forTeam =>
    match (s.refresh l).view.findLimit teamId scope forTeam with
    | none => some ⟨teamId, scope, forTeam⟩
    | some _ => none
  | _ => none

/-- The id and the key of the limit that a call adds. -/
def added? (l : Ledger) : StoreCall → Option (Ident × LimitKey)
  | .saveLimit limit => if limit.id = 0 then some (l.newId.1, limit.key) else none
  | _ => none

/-- The notes about a call. -/
def limitNotes (l : Ledger) (s : Session) (c : StoreCall) : List LimitNote :=
  ((s.missed? l c).map (.missed s.id)).toList ++
    ((added? l c).map fun a => .added s.id a.1 a.2).toList

theorem session_of_mem_limitNotes {l : Ledger} {s : Session} {c : StoreCall} {x : LimitNote}
    (hx : x ∈ s.limitNotes l c) : x.session = s.id := by
  rcases List.mem_append.1 hx with hx | hx <;>
  · obtain ⟨_, -, rfl⟩ := Option.map_eq_some_iff.1 (Option.mem_toList.1 hx)
    rfl

/-- A limit is added by storing one without an id. -/
theorem saveLimit_of_added {l : Ledger} {c : StoreCall} {a : Ident × LimitKey}
    (h : added? l c = some a) :
    ∃ limit, c = .saveLimit limit ∧ limit.id = 0 ∧ a = (l.newId.1, limit.key) := by
  cases c with
  | saveLimit limit =>
    replace h : (if limit.id = 0 then some (l.newId.1, limit.key) else none) = some a := h
    split at h
    next h0 => exact ⟨limit, rfl, h0, (Option.some.inj h).symm⟩
    next => cases h
  | _ => cases h

theorem of_added_mem_limitNotes {l : Ledger} {s : Session} {c : StoreCall} {id : SessionId}
    {i : Ident} {key : LimitKey} (hx : .added id i key ∈ s.limitNotes l c) :
    id = s.id ∧ ∃ limit, c = .saveLimit limit ∧ limit.id = 0 ∧ i = l.newId.1 ∧ key = limit.key := by
  rcases List.mem_append.1 hx with hx | hx
  · obtain ⟨_, -, hx⟩ := Option.map_eq_some_iff.1 (Option.mem_toList.1 hx)
    cases hx
  · obtain ⟨a, ha, hx⟩ := Option.map_eq_some_iff.1 (Option.mem_toList.1 hx)
    obtain ⟨limit, hc, h0, rfl⟩ := saveLimit_of_added ha
    cases hx
    exact ⟨rfl, limit, hc, h0, rfl, rfl⟩

theorem committed_not_mem_limitNotes {l : Ledger} {s : Session} {c : StoreCall} (id : SessionId) :
    .committed id ∉ s.limitNotes l c := fun hx => by
  rcases List.mem_append.1 hx with hx | hx <;>
  · obtain ⟨_, -, hx⟩ := Option.map_eq_some_iff.1 (Option.mem_toList.1 hx)
    cases hx

end Session

/-- The session has added the limit. Before that it has looked for one with the key in vain, and this is
what was noted since it looked last. -/
def AddedSince (log : List LimitNote) (id : SessionId) (limit : Ident) (key : LimitKey)
    (since : List LimitNote) : Prop :=
  ∃ before mid after, log = before ++ .missed id key :: since ∧
    since = mid ++ .added id limit key :: after ∧ .missed id key ∉ mid

/-- **Crossing.** Two sessions have added limits with one key. Each of them has looked whether there is
one, and after that, but for all it knows before, the other one has committed. -/
def Crossed (log : List LimitNote) (i j : Ident) (key : LimitKey) : Prop :=
  ∃ a b since since', a ≠ b ∧ AddedSince log a i key since ∧ .committed b ∈ since ∧
    AddedSince log b j key since' ∧ .committed a ∈ since'

theorem AddedSince.append {log since : List LimitNote} {id : SessionId} {limit : Ident}
    {key : LimitKey} (h : AddedSince log id limit key since) (more : List LimitNote) :
    AddedSince (log ++ more) id limit key (since ++ more) := by
  obtain ⟨before, mid, after, rfl, rfl, hlast⟩ := h
  exact ⟨before, mid, after ++ more, by simp, by simp, hlast⟩

namespace Crossed

variable {log : List LimitNote} {i j : Ident} {key : LimitKey}

theorem symm (h : Crossed log i j key) : Crossed log j i key := by
  obtain ⟨a, b, since, since', hne, ha, hb, hb', ha'⟩ := h
  exact ⟨b, a, since', since, hne.symm, hb', ha', ha, hb⟩

theorem append (h : Crossed log i j key) (more : List LimitNote) :
    Crossed (log ++ more) i j key := by
  obtain ⟨a, b, since, since', hne, ha, hb, hb', ha'⟩ := h
  exact ⟨a, b, since ++ more, since' ++ more, hne, ha.append more, List.mem_append_left _ hb,
    hb'.append more, List.mem_append_left _ ha'⟩

end Crossed

/-! ## Limits under changes -/

/-- The changes store the limit under an id, and do not delete it. -/
def Changes.Stores (c : Changes) (i : Ident) (r : Limit) : Prop :=
  c.limits.get? i = some r ∧ i ∉ c.deletedLimits.ids

/-- A limit under changes is one that they store, or one that is there below and that they leave
alone. -/
theorem Tables.get?_limits_apply {t : Tables} {c : Changes} {i : Ident} {r : Limit} :
    (t.apply c).limits.get? i = some r ↔ c.Stores i r ∨
      c.limits.get? i = none ∧ i ∉ c.deletedLimits.ids ∧ t.limits.get? i = some r := by
  unfold Changes.Stores
  by_cases hd : i ∈ c.deletedLimits.ids
  · simp [apply, hd]
  · cases hc : c.limits.get? i <;> simp [apply, hd, hc]

theorem Changes.written_of_limit {c : Changes} {i : Ident} {r : Limit}
    (h : c.limits.get? i = some r) : ⟨.limit, i⟩ ∈ c.written := by
  rw [mem_written]
  exact .inl (by rw [h]; rfl)

/-- Limits stay as they are under writes of other rows. -/
theorem Changes.putAll_limits {c : Changes} {ps : List Put}
    (h : ∀ p ∈ ps, (∀ l, p ≠ .limit l) ∧ ∀ id, p ≠ .dropLimit id) :
    (c.putAll ps).limits = c.limits ∧ (c.putAll ps).deletedLimits = c.deletedLimits := by
  induction ps generalizing c with
  | nil => exact ⟨rfl, rfl⟩
  | cons p ps ih =>
    rw [putAll_cons]
    obtain ⟨hlimits, hdeleted⟩ := ih (c := c.put p) fun q hq => h q (List.mem_cons_of_mem _ hq)
    rw [hlimits, hdeleted]
    obtain ⟨hlimit, hdrop⟩ := h p List.mem_cons_self
    cases p with
    | limit l => exact absurd rfl (hlimit l)
    | dropLimit id => exact absurd rfl (hdrop id)
    | _ => exact ⟨rfl, rfl⟩

/-- Deleting limits leaves the others as they are. -/
theorem Changes.putAll_dropLimit {c : Changes} (ids : List Ident) :
    (∀ i r, (c.putAll (ids.map .dropLimit)).limits.get? i = some r → c.limits.get? i = some r) ∧
      ∀ i ∈ c.deletedLimits.ids, i ∈ (c.putAll (ids.map .dropLimit)).deletedLimits.ids := by
  induction ids generalizing c with
  | nil => exact ⟨fun i r hr => hr, fun i hi => hi⟩
  | cons id ids ih =>
    rw [List.map_cons, putAll_cons]
    obtain ⟨hlimits, hdeleted⟩ := ih (c := c.put (.dropLimit id))
    refine ⟨fun i r hr => ?_, fun i hi => hdeleted i ?_⟩
    · have := hlimits i r hr
      simp only [put, Rows.get?_eraseAll] at this
      split at this
      · cases this
      · exact this
    · exact (mem_ids_insertAll_singleton _ _ _).2 (.inr hi)

namespace Session

variable {l : Ledger} {s : Session} {c : StoreCall}

/-- What the session has looked for in vain it does not see. -/
theorem none_of_missed (s : Session) {key : LimitKey} (h : s.missed? l c = some key) :
    ∀ i r, (l.tables.apply s.changes).limits.get? i = some r → r.key ≠ key := by
  unfold missed? at h
  split at h
  next teamId scope forTeam =>
    split at h
    next hnone =>
      cases h
      exact Tables.findLimit_eq_none (k := ⟨teamId, scope, forTeam⟩).1 hnone
    next => cases h
  next => cases h

/-- The changes store only limits that the session has stored or sees, with their keys, and they delete
what it has deleted. -/
structure RevisesLimits (s : Session) (c : Changes) : Prop where
  kept : ∀ i r, c.limits.get? i = some r → ∃ r', r'.key = r.key ∧
    (s.changes.limits.get? i = some r' ∨ s.view.limits.get? i = some r')
  gone : ∀ i ∈ s.changes.deletedLimits.ids, i ∈ c.deletedLimits.ids

/-- Whoever stores a limit that is there changes its threshold. -/
theorem revisesLimits_saveLimit (hl : l.Hosts s) {limit : Limit} (h0 : limit.id ≠ 0) :
    s.RevisesLimits (s.changes.putAll (s.writes l (.saveLimit limit))) := by
  have writes_eq : s.writes l (.saveLimit limit) =
      ((s.view.limits.get? limit.id).map fun stored =>
        Put.limit { stored with threshold := limit.threshold }).toList := if_neg h0
  rw [writes_eq]
  cases hstored : s.view.limits.get? limit.id with
  | none => exact ⟨fun i r hr => ⟨r, rfl, .inl hr⟩, fun i hi => hi⟩
  | some stored =>
    refine ⟨fun i r hr => ?_, fun i hi => hi⟩
    replace hr : (s.changes.limits.insert stored.id
      { stored with threshold := limit.threshold }).get? i = some r := hr
    rw [Rows.get?_insert] at hr
    split at hr
    next hi =>
      cases hr
      rw [hi, hl.fits.view_keyed.limits _ _ hstored]
      exact ⟨stored, rfl, .inr hstored⟩
    next => exact ⟨r, rfl, .inl hr⟩

/-- **A call that adds no limit** revises those that there are. -/
theorem revisesLimits_of_not_added (hl : l.Hosts s) (hnone : added? l c = none) :
    s.RevisesLimits (s.changes.putAll (s.writes l c)) := by
  have unchanged (hwrites : ∀ p ∈ s.writes l c, (∀ r, p ≠ .limit r) ∧ ∀ id, p ≠ .dropLimit id) :
      s.RevisesLimits (s.changes.putAll (s.writes l c)) := by
    obtain ⟨hlimits, hdeleted⟩ := Changes.putAll_limits (c := s.changes) hwrites
    exact ⟨fun i r hr => ⟨r, rfl, .inl (hlimits ▸ hr)⟩, fun i hi => hdeleted ▸ hi⟩
  cases c with
  | saveLimit limit =>
    refine revisesLimits_saveLimit hl fun h0 => ?_
    replace hnone : (if limit.id = 0 then some (l.newId.1, limit.key) else none) = none := hnone
    rw [if_pos h0] at hnone
    cases hnone
  | deleteLimits teamId forTeam =>
    obtain ⟨hlimits, hdeleted⟩ := Changes.putAll_dropLimit (c := s.changes)
      ((s.view.limits.values.filter fun x =>
        x.teamId = teamId && forTeam.all fun f => x.forTeam = some f).map (·.id))
    exact ⟨fun i r hr => ⟨r, rfl, .inl (hlimits i r hr)⟩, hdeleted⟩
  | insertInvoice new | insertSubmission new | insertLogEntry new | insertHistory new =>
    refine unchanged fun p hp => ?_
    cases List.mem_singleton.1 hp
    exact ⟨nofun, nofun⟩
  | updateInvoiceStatus id status | setHasSubmission ids value | markPaid ids settlement =>
    refine unchanged fun p hp => ?_
    obtain ⟨i, -, rfl⟩ := List.mem_map.1 hp
    exact ⟨nofun, nofun⟩
  | linkInvoices submission ids =>
    refine unchanged fun p hp => ?_
    obtain ⟨link, -, rfl⟩ := List.mem_map.1 hp
    exact ⟨nofun, nofun⟩
  | updateSubmissionStatus id status completedBy =>
    refine unchanged fun p hp => ?_
    obtain ⟨x, -, rfl⟩ := Option.map_eq_some_iff.1 (Option.mem_toList.1 hp)
    exact ⟨nofun, nofun⟩
  -- the other calls read
  | _ => exact unchanged fun p hp => nomatch hp

end Session

/-! ## What the notes tell -/

/-- A limit has been added under the id, with the key. -/
def AddedLimit (log : List LimitNote) (i : Ident) (key : LimitKey) : Prop :=
  ∃ id, .added id i key ∈ log

theorem AddedLimit.append {log : List LimitNote} {i : Ident} {key : LimitKey}
    (h : AddedLimit log i key) (more : List LimitNote) : AddedLimit (log ++ more) i key :=
  h.imp fun _ => List.mem_append_left more

/-- A limit has been added under the id, with the key, and the session that has added it has committed
since. -/
def CommittedLimit (log since : List LimitNote) (i : Ident) (key : LimitKey) : Prop :=
  ∃ id, .added id i key ∈ log ∧ .committed id ∈ since

theorem CommittedLimit.append {log since : List LimitNote} {i : Ident} {key : LimitKey}
    (h : CommittedLimit log since i key) (more : List LimitNote) :
    CommittedLimit (log ++ more) (since ++ more) i key := by
  obtain ⟨id, hadded, hcommitted⟩ := h
  exact ⟨id, List.mem_append_left _ hadded, List.mem_append_left _ hcommitted⟩

/-- Every committed limit with the key that the changes do not delete has been committed since. -/
def Ledger.NewSince (l : Ledger) (log : List LimitNote) (c : Changes) (key : LimitKey)
    (since : List LimitNote) : Prop :=
  ∀ i r, l.tables.limits.get? i = some r → r.key = key → i ∉ c.deletedLimits.ids →
    CommittedLimit log since i key

/-- What the notes tell of a session that may just have looked for a limit in vain. -/
structure Session.Noted (s : Session) (l : Ledger) (log : List LimitNote) (known : Option LimitKey) :
    Prop where
  /-- What it has found has been committed. -/
  found : ∀ i r, s.snapshot.limits.get? i = some r → CommittedLimit log log i r.key
  stored : ∀ i r, s.changes.limits.get? i = some r → AddedLimit log i r.key
  /-- What it stores it has added, or it is there as long as nobody else has written it. -/
  own : ∀ i r, s.changes.limits.get? i = some r → .added s.id i r.key ∈ log ∨
    (l.versions ⟨.limit, i⟩ = s.base ⟨.limit, i⟩ → (l.tables.limits.get? i).isSome)
  /-- Of its own limits no two have the same key. -/
  alone : ∀ i j r r', s.changes.Stores i r → s.changes.Stores j r' → .added s.id i r.key ∈ log →
    .added s.id j r'.key ∈ log → r.key = r'.key → i = j
  /-- When it added a limit, none with the key had been committed, as far as it had looked. -/
  beside : ∀ i r, s.changes.Stores i r → .added s.id i r.key ∈ log →
    ∃ since, AddedSince log s.id i r.key since ∧ l.NewSince log s.changes r.key since
  /-- If it has just looked in vain, there is none as far as it has looked. -/
  looked : ∀ key, known = some key → ∃ before mid, log = before ++ .missed s.id key :: mid ∧
    .missed s.id key ∉ mid ∧ l.NewSince log s.changes key mid ∧
    ∀ i r, s.changes.Stores i r → r.key ≠ key

/-- What the notes tell of a ledger and its sessions. -/
structure Ledger.Noted (l : Ledger) (ses : String → Option Session) (log : List LimitNote)
    (known : String → Option LimitKey) : Prop where
  sound : l.Sound ses
  within : ∀ x ∈ log, x.session ≤ l.lastSession
  /-- Whoever has added a limit has looked for one before, and the key makes sense. -/
  added : ∀ (id : SessionId) (i : Ident) (key : LimitKey), .added id i key ∈ log →
    0 < i ∧ i ≤ l.lastId ∧ key.Fits ∧ ∃ since, AddedSince log id i key since
  unique : ∀ (id id' : SessionId) (i : Ident) (key key' : LimitKey), .added id i key ∈ log →
    .added id' i key' ∈ log → id = id' ∧ key = key'
  stored : ∀ i r, l.tables.limits.get? i = some r → CommittedLimit log log i r.key
  crossed : ∀ i j r r', l.tables.limits.get? i = some r → l.tables.limits.get? j = some r' →
    i ≠ j → r.key = r'.key → Crossed log i j r.key
  /-- A session that is open has not committed. -/
  pending : ∀ n s, ses n = some s → .committed s.id ∉ log
  sessions : ∀ n s, ses n = some s → s.Noted l log (known n)

/-- More notes are no harm, nor is a ledger with the same limits. -/
theorem Ledger.NewSince.append {l l' : Ledger} {log since : List LimitNote} {c : Changes}
    {key : LimitKey} (h : l.NewSince log c key since) (hlimits : l'.tables.limits = l.tables.limits)
    (more : List LimitNote) : l'.NewSince (log ++ more) c key (since ++ more) := by
  intro i r hr hkey hi
  rw [hlimits] at hr
  exact (h i r hr hkey hi).append more

end TeamLedger
