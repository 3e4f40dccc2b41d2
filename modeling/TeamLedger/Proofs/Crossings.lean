/-
Where committed limits come from.

Every call and every end of a session keeps what the notes tell true. The notes
tell everything about limits with equal keys (`Ledger.Noted.crossed`): two of them
are there only if two sessions have looked, each before the other one committed.
-/
import TeamLedger.Proofs.LimitNotes

set_option autoImplicit false

namespace TeamLedger

/-! ## A session among others -/

namespace Ledger.Noted

variable {l : Ledger} {ses : String → Option Session} {log : List LimitNote}
  {known : String → Option LimitKey} {n : String} {s : Session}

theorem hosts (h : l.Noted ses log known) (hs : ses n = some s) : l.Hosts s :=
  ⟨h.sound.keyed, h.sound.within, h.sound.fits n s hs⟩

/-- A limit that the session has added is not in its snapshot. -/
theorem not_found (h : l.Noted ses log known) (hs : ses n = some s) {i : Ident} {r : Limit}
    {key : LimitKey} (hadded : .added s.id i key ∈ log) :
    s.snapshot.limits.get? i ≠ some r := by
  intro hr
  obtain ⟨id, hadded', hcommitted⟩ := (h.sessions n s hs).found i r hr
  obtain ⟨rfl, -⟩ := h.unique _ _ _ _ _ hadded' hadded
  exact h.pending n s hs hcommitted

/-- **Limits after a commit** are those that the session has added, and those that were there and that
it has not deleted. A limit keeps its key. -/
theorem limit_of_commit (h : l.Noted ses log known) (hs : ses n = some s) (hadmits : l.Admits s)
    {i : Ident} {key : LimitKey} :
    (∃ r, (l.tables.apply s.changes).limits.get? i = some r ∧ r.key = key) ↔
      (∃ r, s.changes.Stores i r ∧ .added s.id i key ∈ log ∧ r.key = key) ∨
        i ∉ s.changes.deletedLimits.ids ∧ ∃ r, l.tables.limits.get? i = some r ∧ r.key = key := by
  have hnoted := h.sessions n s hs
  constructor
  · rintro ⟨r, hr, rfl⟩
    rcases Tables.get?_limits_apply.1 hr with hstores | ⟨-, hkept, hr⟩
    · rcases hnoted.own i r hstores.1 with hadded | hthere
      · exact .inl ⟨r, hstores, hadded, rfl⟩
      · obtain ⟨r', hr'⟩ := Option.isSome_iff_exists.1
          (hthere (hadmits _ (Changes.written_of_limit hstores.1)))
        obtain ⟨id, hadded, -⟩ := h.stored i r' hr'
        obtain ⟨id', hadded'⟩ := hnoted.stored i r hstores.1
        exact .inr ⟨hstores.2, r', hr', (h.unique _ _ _ _ _ hadded hadded').2⟩
    · exact .inr ⟨hkept, r, hr, rfl⟩
  · rintro (⟨r, hstores, -, rfl⟩ | ⟨hkept, r, hr, rfl⟩)
    · exact ⟨r, Tables.get?_limits_apply.2 (.inl hstores), rfl⟩
    · cases hc : s.changes.limits.get? i with
      | none => exact ⟨r, Tables.get?_limits_apply.2 (.inr ⟨hc, hkept, hr⟩), rfl⟩
      | some r' =>
        obtain ⟨id, hadded⟩ := hnoted.stored i r' hc
        obtain ⟨id', hadded', -⟩ := h.stored i r hr
        exact ⟨r', Tables.get?_limits_apply.2 (.inl ⟨hc, hkept⟩),
          (h.unique _ _ _ _ _ hadded hadded').2⟩

end Ledger.Noted

namespace Session.Noted

variable {s : Session} {l l' : Ledger} {log : List LimitNote} {known : Option LimitKey}

/-- Nothing that others do matters, except for their commits. -/
theorem others (h : s.Noted l log known) {more : List LimitNote}
    (hlimits : l'.tables.limits = l.tables.limits) (hversions : l'.versions = l.versions)
    (hmore : ∀ x ∈ more, x.session ≠ s.id) : s.Noted l' (log ++ more) known := by
  have old_note {x : LimitNote} (hx : x ∈ log ++ more) (hid : x.session = s.id) : x ∈ log :=
    (List.mem_append.1 hx).resolve_right fun hnew => hmore x hnew hid
  refine
    { found := fun i r hr => (h.found i r hr).append more
      stored := fun i r hr => (h.stored i r hr).append more
      own := fun i r hr => ?own
      alone := fun i j r r' hi hj hadded hadded' =>
        h.alone i j r r' hi hj (old_note hadded rfl) (old_note hadded' rfl)
      beside := fun i r hr hadded => ?beside
      looked := fun key hkey => ?looked }
  case own =>
    rw [hlimits, hversions]
    exact (h.own i r hr).imp_left (List.mem_append_left _)
  case beside =>
    obtain ⟨since, hsince, hnew⟩ := h.beside i r hr (old_note hadded rfl)
    exact ⟨since ++ more, hsince.append more, hnew.append hlimits more⟩
  case looked =>
    obtain ⟨before, mid, rfl, hlast, hnew, hnone⟩ := h.looked key hkey
    refine ⟨before, mid ++ more, by simp, fun hmem => ?_, hnew.append hlimits more, hnone⟩
    rcases List.mem_append.1 hmem with hmem | hmem
    · exact hlast hmem
    · exact hmore _ hmem rfl

/-- A ledger with the same limits tells nothing new. -/
theorem same_limits (h : s.Noted l log known) (hlimits : l'.tables.limits = l.tables.limits)
    (hversions : l'.versions = l.versions) : s.Noted l' log known := by
  have noted : s.Noted l' (log ++ []) known := h.others hlimits hversions fun x hx => nomatch hx
  rwa [List.append_nil] at noted

end Session.Noted

namespace Ledger.Noted

variable {l : Ledger} {ses : String → Option Session} {log : List LimitNote}
  {known : String → Option LimitKey} {n : String} {s : Session}

/-- Looking back after another session has committed, what is committed with a key is still new. -/
theorem newSince_commit (h : l.Noted ses log known) {t : Session} {m : String} (ht : ses m = some t)
    (hadmits : l.Admits t) {c : Changes} {key : LimitKey} {since : List LimitNote}
    (hnew : l.NewSince log c key since) :
    (l.commit t).2.NewSince (log ++ [.committed t.id]) c key (since ++ [.committed t.id]) := by
  rw [Ledger.commit_of_admits hadmits]
  rintro i r hr rfl hi
  rcases (h.limit_of_commit ht hadmits).1 ⟨r, hr, rfl⟩ with ⟨-, -, hadded, -⟩ | ⟨-, r', hr', hkey⟩
  · exact ⟨t.id, List.mem_append_left _ hadded, by simp⟩
  · exact (hnew i r' hr' hkey hi).append _

/-- **Another session commits.** -/
theorem session_commit (h : l.Noted ses log known) {m : String} {t : Session}
    (hs : ses n = some s) (ht : ses m = some t) (hadmits : l.Admits t) :
    s.Noted (l.commit t).2 (log ++ [.committed t.id]) (known n) := by
  have hnoted := h.sessions n s hs
  have old_note {x : LimitNote} (hx : x ∈ log ++ [.committed t.id])
      (hid : ∀ id, x ≠ .committed id) : x ∈ log :=
    (List.mem_append.1 hx).resolve_right fun hnew => hid _ (List.mem_singleton.1 hnew)
  refine
    { found := fun i r hr => (hnoted.found i r hr).append _
      stored := fun i r hr => (hnoted.stored i r hr).append _
      own := fun i r hr => ?own
      alone := fun i j r r' hi hj hadded hadded' =>
        hnoted.alone i j r r' hi hj (old_note hadded nofun) (old_note hadded' nofun)
      beside := fun i r hr hadded => ?beside
      looked := fun key hkey => ?looked }
  case own =>
    refine (hnoted.own i r hr).imp (List.mem_append_left _) fun hthere hversion => ?_
    rw [Ledger.commit_of_admits hadmits] at hversion ⊢
    replace hversion : (if ⟨.limit, i⟩ ∈ t.changes.written then l.commits + 1
      else l.versions ⟨.limit, i⟩) = s.base ⟨.limit, i⟩ := hversion
    -- a row that the other has written has a version now that this session cannot have noted
    split at hversion
    next =>
      have base_le := (h.sound.fits n s hs).base_le ⟨.limit, i⟩
      have versions_le := h.sound.versions_le ⟨.limit, i⟩
      omega
    next hunwritten =>
      have same : (l.tables.apply t.changes).limits.get? i = l.tables.limits.get? i :=
        l.tables.sameRow_apply hunwritten
      exact same ▸ hthere hversion
  case beside =>
    obtain ⟨since, hsince, hnew⟩ := hnoted.beside i r hr (old_note hadded nofun)
    exact ⟨_, hsince.append _, h.newSince_commit ht hadmits hnew⟩
  case looked =>
    obtain ⟨before, mid, hlog, hlast, hnew, hnone⟩ := hnoted.looked key hkey
    refine ⟨before, mid ++ [.committed t.id], by simp [hlog], fun hmem => ?_,
      h.newSince_commit ht hadmits hnew, hnone⟩
    rcases List.mem_append.1 hmem with hmem | hmem
    · exact hlast hmem
    · cases List.mem_singleton.1 hmem

/-! ## What a session does -/

/-- If the session finds no limit with the key, none is committed that it does not delete. -/
theorem none_with_key (h : l.Noted ses log known) (hs : ses n = some s) {key : LimitKey}
    (hnone : ∀ i r, (l.tables.apply s.changes).limits.get? i = some r → r.key ≠ key) {i : Ident}
    {r : Limit} (hr : l.tables.limits.get? i = some r) (hi : i ∉ s.changes.deletedLimits.ids) :
    r.key ≠ key := by
  cases hc : s.changes.limits.get? i with
  | none => exact hnone i r (Tables.get?_limits_apply.2 (.inr ⟨hc, hi, hr⟩))
  | some r' =>
    -- a limit of its own under the same id has the same key
    obtain ⟨id, hadded⟩ := (h.sessions n s hs).stored i r' hc
    obtain ⟨id', hadded', -⟩ := h.stored i r hr
    rw [← (h.unique _ _ _ _ _ hadded hadded').2]
    exact hnone i r' (Tables.get?_limits_apply.2 (.inl ⟨hc, hi⟩))

/-- The session takes a new snapshot, and may look for a limit with it. -/
theorem session_read (h : l.Noted ses log known) (hs : ses n = some s) {l' : Ledger}
    (hgrants : l.Grants s.id l') (c : StoreCall) :
    (s.refresh l).Noted l' (log ++ ((s.missed? l c).map (.missed s.id)).toList) (s.missed? l c) := by
  have hnoted := h.sessions n s hs
  have old_note {x : LimitNote} (hx : x ∈ log ++ ((s.missed? l c).map (.missed s.id)).toList)
      (hid : ∀ key, x ≠ .missed s.id key) : x ∈ log := by
    refine (List.mem_append.1 hx).resolve_right fun hnew => ?_
    obtain ⟨key, -, hx⟩ := Option.map_eq_some_iff.1 (Option.mem_toList.1 hnew)
    exact hid key hx.symm
  refine
    { found := fun i r hr => (h.stored i r hr).append _
      stored := fun i r hr => (hnoted.stored i r hr).append _
      own := fun i r hr => ?own
      alone := fun i j r r' hi hj hadded hadded' =>
        hnoted.alone i j r r' hi hj (old_note hadded nofun) (old_note hadded' nofun)
      beside := fun i r hr hadded => ?beside
      looked := fun key hkey => ?looked }
  case own =>
    refine (hnoted.own i r hr).imp (List.mem_append_left _) fun hthere hversion => ?_
    have base_eq : (s.refresh l).base ⟨.limit, i⟩ = s.base ⟨.limit, i⟩ :=
      if_pos (Changes.written_of_limit hr)
    rw [hgrants.versions, base_eq] at hversion
    rw [hgrants.tables]
    exact hthere hversion
  case beside =>
    obtain ⟨since, hsince, hnew⟩ := hnoted.beside i r hr (old_note hadded nofun)
    exact ⟨_, hsince.append _, hnew.append (congrArg Tables.limits hgrants.tables) _⟩
  case looked =>
    rw [hkey]
    have none_seen := s.none_of_missed hkey
    refine ⟨log, [], rfl, List.not_mem_nil, fun i r hr hrkey hi => ?_, fun i r hstores =>
      none_seen i r (Tables.get?_limits_apply.2 (.inl hstores))⟩
    rw [hgrants.tables] at hr
    exact absurd hrkey (h.none_with_key hs none_seen hr hi)

/-- The session writes without adding a limit: those that it stores it has stored or seen before, with
the same keys. -/
theorem session_revise (h : l.Noted ses log known) (hs : ses n = some s) {l' : Ledger}
    (hgrants : l.Grants s.id l') {c : Changes} (hrevises : s.RevisesLimits c) :
    ({ s with changes := c } : Session).Noted l' log none := by
  have hnoted := h.sessions n s hs
  -- where a stored limit is from
  have from_changes_or_snapshot (i : Ident) (r : Limit) (hr : c.limits.get? i = some r) :
      ∃ r', r'.key = r.key ∧
        (s.changes.limits.get? i = some r' ∨ s.snapshot.limits.get? i = some r') := by
    obtain ⟨r', hkey, hr' | hr'⟩ := hrevises.kept i r hr
    · exact ⟨r', hkey, .inl hr'⟩
    · rcases Tables.get?_limits_apply.1 hr' with ⟨hr', -⟩ | ⟨-, -, hr'⟩
      · exact ⟨r', hkey, .inl hr'⟩
      · exact ⟨r', hkey, .inr hr'⟩
  -- a limit of its own the session has stored before
  have stored_before (i : Ident) (r : Limit) (hr : c.Stores i r)
      (hadded : .added s.id i r.key ∈ log) : ∃ r', r'.key = r.key ∧ s.changes.Stores i r' := by
    obtain ⟨r', hkey, hr' | hr'⟩ := from_changes_or_snapshot i r hr.1
    · exact ⟨r', hkey, hr', fun hi => hr.2 (hrevises.gone i hi)⟩
    · exact absurd hr' (h.not_found hs hadded)
  refine
    { found := hnoted.found
      stored := fun i r hr => ?stored
      own := fun i r hr => ?own
      alone := fun i j r r' hi hj hadded hadded' hkey => ?alone
      beside := fun i r hr hadded => ?beside
      looked := nofun }
  case stored =>
    obtain ⟨r', hkey, hr' | hr'⟩ := from_changes_or_snapshot i r hr
    · exact hkey ▸ hnoted.stored i r' hr'
    · obtain ⟨id, hadded, -⟩ := hnoted.found i r' hr'
      exact ⟨id, hkey ▸ hadded⟩
  case own =>
    rw [hgrants.tables, hgrants.versions]
    obtain ⟨r', hkey, hr' | hr'⟩ := from_changes_or_snapshot i r hr
    · exact hkey ▸ hnoted.own i r' hr'
    · refine .inr fun hversion => ?_
      have same : l.tables.limits.get? i = s.snapshot.limits.get? i :=
        (h.sound.fits n s hs).agree ⟨.limit, i⟩ hversion
      rw [same, hr']
      rfl
  case alone =>
    obtain ⟨q, hq, hstores⟩ := stored_before i r hi hadded
    obtain ⟨q', hq', hstores'⟩ := stored_before j r' hj hadded'
    exact hnoted.alone i j q q' hstores hstores' (hq ▸ hadded) (hq' ▸ hadded')
      (hq.trans (hkey.trans hq'.symm))
  case beside =>
    obtain ⟨q, hq, hstores⟩ := stored_before i r hr hadded
    obtain ⟨since, hsince, hnew⟩ := hnoted.beside i q hstores (hq ▸ hadded)
    rw [hq] at hsince hnew
    refine ⟨since, hsince, fun j r' hr' hkey hj =>
      hnew j r' ?_ hkey fun hj' => hj (hrevises.gone j hj')⟩
    rwa [hgrants.tables] at hr'

/-- The session adds a limit that it has just looked for in vain. -/
theorem session_add (h : l.Noted ses log known) (hs : ses n = some s) {l' : Ledger}
    (hgrants : l.Grants s.id l') {limit : Limit} (hlimit : known n = some limit.key) :
    (s.putLimit { limit with id := l.newId.1 }).Noted l'
      (log ++ [.added s.id l.newId.1 limit.key]) none := by
  have hnoted := h.sessions n s hs
  obtain ⟨before, mid, hlog, hlast, hnew, hnone⟩ := hnoted.looked limit.key hlimit
  have put_cases (i : Ident) (r : Limit)
      (hr : (s.changes.limits.insert l.newId.1 { limit with id := l.newId.1 }).get? i = some r) :
      i = l.newId.1 ∧ r.key = limit.key ∨ i ≠ l.newId.1 ∧ s.changes.limits.get? i = some r := by
    rw [Rows.get?_insert] at hr
    split at hr
    next hi =>
      cases hr
      exact .inl ⟨hi, rfl⟩
    next hi => exact .inr ⟨hi, hr⟩
  have old_note {id : SessionId} {i : Ident} {key : LimitKey} (hi : i ≠ l.newId.1)
      (hx : .added id i key ∈ log ++ [.added s.id l.newId.1 limit.key]) : .added id i key ∈ log := by
    refine (List.mem_append.1 hx).resolve_right fun hnew => hi ?_
    cases List.mem_singleton.1 hnew
    rfl
  have tables_eq : l'.tables.limits = l.tables.limits := congrArg Tables.limits hgrants.tables
  refine
    { found := fun i r hr => (hnoted.found i r hr).append _
      stored := fun i r hr => ?stored
      own := fun i r hr => ?own
      alone := fun i j r r' hi hj hadded hadded' hkey => ?alone
      beside := fun i r hr hadded => ?beside
      looked := nofun }
  case stored =>
    rcases put_cases i r hr with ⟨rfl, hkey⟩ | ⟨-, hr⟩
    · exact ⟨s.id, by rw [hkey]; exact List.mem_append_right _ List.mem_cons_self⟩
    · exact (hnoted.stored i r hr).append _
  case own =>
    rcases put_cases i r hr with ⟨rfl, hkey⟩ | ⟨-, hr⟩
    · rw [hkey]
      exact .inl (List.mem_append_right _ List.mem_cons_self)
    · rw [hgrants.tables, hgrants.versions]
      exact (hnoted.own i r hr).imp_left (List.mem_append_left _)
  case alone =>
    rcases put_cases i r hi.1 with ⟨rfl, hikey⟩ | ⟨hine, hr⟩ <;>
      rcases put_cases j r' hj.1 with ⟨rfl, hjkey⟩ | ⟨hjne, hr'⟩
    · rfl
    · exact absurd (hkey.symm.trans hikey) (hnone j r' ⟨hr', hj.2⟩)
    · exact absurd (hkey.trans hjkey) (hnone i r ⟨hr, hi.2⟩)
    · exact hnoted.alone i j r r' ⟨hr, hi.2⟩ ⟨hr', hj.2⟩ (old_note hine hadded)
        (old_note hjne hadded') hkey
  case beside =>
    rcases put_cases i r hr.1 with ⟨rfl, hkey⟩ | ⟨hne, hr'⟩
    · have log_eq : log ++ [.added s.id l.newId.1 limit.key] =
          before ++ .missed s.id limit.key :: (mid ++ [.added s.id l.newId.1 limit.key]) := by
        simp [hlog]
      rw [hkey]
      exact ⟨_, ⟨before, mid, [], log_eq, rfl, hlast⟩, hnew.append tables_eq _⟩
    · obtain ⟨since, hsince, hnew'⟩ := hnoted.beside i r ⟨hr', hr.2⟩ (old_note hne hadded)
      exact ⟨_, hsince.append _, hnew'.append tables_eq _⟩

/-! ## Every event keeps what the notes tell -/

theorem empty : ({} : Ledger).Noted (fun _ => none) [] (fun _ => none) where
  sound := .empty
  within _ hx := nomatch hx
  added _ _ _ hx := nomatch hx
  unique _ _ _ _ _ hx := nomatch hx
  stored i r hr := by
    have none_stored : (Rows.empty : Rows Limit).get? i = some r := hr
    rw [Rows.get?_empty] at none_stored
    cases none_stored
  crossed i j r r' hr := by
    have none_stored : (Rows.empty : Rows Limit).get? i = some r := hr
    rw [Rows.get?_empty] at none_stored
    cases none_stored
  pending _ _ hs := nomatch hs
  sessions _ _ hs := nomatch hs

/-- A session goes. -/
theorem release (h : l.Noted ses log known) (n : String) (s : Session) :
    (l.release s.id).Noted (Function.update ses n none) log known := by
  exact { h with
    sound := h.sound.rollback n s
    pending := fun m t ht => h.pending m t (there_of_update_none ht).2
    sessions := fun m t ht => (h.sessions m t (there_of_update_none ht).2).same_limits rfl rfl }

/-- A session begins; it has no notes yet. -/
theorem begin (h : l.Noted ses log known) (n : String) :
    l.begin.2.Noted (Function.update ses n (some l.begin.1)) log (Function.update known n none) := by
  have unknown : ∀ x ∈ log, x.session ≠ l.lastSession + 1 := fun x hx heq => by
    have := h.within x hx
    rw [heq] at this
    exact Nat.not_succ_le_self _ this
  have nothing_stored (i : Ident) (r : Limit) : l.begin.1.changes.limits.get? i ≠ some r := by
    show (Rows.empty : Rows Limit).get? i ≠ some r
    rw [Rows.get?_empty]
    nofun
  refine { h with
    sound := h.sound.begin n
    within := fun x hx => Nat.le_succ_of_le (h.within x hx)
    pending := fun m t ht => ?pending
    sessions := fun m t ht => ?sessions }
  case pending =>
    rw [Function.update_apply] at ht
    split at ht
    · cases ht
      exact fun hx => unknown _ hx rfl
    · exact h.pending m t ht
  case sessions =>
    rw [Function.update_apply] at ht
    split at ht
    next hm =>
      cases ht
      rw [hm, Function.update_self]
      exact ⟨h.stored, fun i r hr => absurd hr (nothing_stored i r),
        fun i r hr => absurd hr (nothing_stored i r),
        fun i j r r' hi => absurd hi.1 (nothing_stored i r),
        fun i r hr => absurd hr.1 (nothing_stored i r), nofun⟩
    next hm =>
      rw [Function.update_of_ne hm]
      exact (h.sessions m t ht).same_limits rfl rfl

theorem addTeam (h : l.Noted ses log known) (name : String) (kind : Team.Kind) (now : Instant) :
    (l.addTeam name kind now).2.Noted ses log known := by
  refine { h with
    sound := h.sound.addTeam name kind now
    added := fun id i key hx => ?added
    sessions := fun m t ht => (h.sessions m t ht).same_limits rfl rfl }
  case added =>
    obtain ⟨hpos, hle, rest⟩ := h.added id i key hx
    exact ⟨hpos, Int.le_trans hle (Int.ofNat_le.2 (Nat.le_succ _)), rest⟩

/-- The session after its own call. -/
theorem session_answer (h : l.Noted ses log known) (hs : ses n = some s) {c : StoreCall}
    (hadd : ∀ limit, c = .saveLimit limit → limit.id = 0 → known n = some limit.key) :
    (s.answer l c).2.2.Noted (s.answer l c).2.1 (log ++ s.limitNotes l c) (s.missed? l c) := by
  have hl := h.hosts hs
  have hgrants := s.answer_ledger l c
  have session_eq := hl.answer_session c
  cases hreads : c.reads with
  | true =>
    have none_added : Session.added? l c = none := by
      cases c <;> first | rfl | cases hreads
    rw [hreads, if_pos rfl, s.writes_of_reads l hreads, Session.writeAll_nil] at session_eq
    rw [session_eq, Session.limitNotes, none_added, Option.map_none, Option.toList_none,
      List.append_nil]
    exact h.session_read hs hgrants c
  | false =>
    have none_missed : s.missed? l c = none := by
      cases c <;> first | rfl | cases hreads
    rw [hreads, if_neg Bool.false_ne_true] at session_eq
    rw [session_eq, Session.limitNotes, none_missed, Option.map_none, Option.toList_none,
      List.nil_append]
    cases hadded : Session.added? l c with
    | none =>
      rw [Option.map_none, Option.toList_none, List.append_nil]
      exact h.session_revise hs hgrants (Session.revisesLimits_of_not_added hl hadded)
    | some a =>
      obtain ⟨limit, rfl, h0, rfl⟩ := Session.saveLimit_of_added hadded
      have writes_eq : s.writes l (.saveLimit limit) = [.limit { limit with id := l.newId.1 }] :=
        if_pos h0
      rw [writes_eq]
      exact h.session_add hs hgrants (hadd limit rfl h0)

/-- **A call.** A limit is added only by a session that has just looked for it in vain. -/
theorem answer (h : l.Noted ses log known) (hs : ses n = some s) {c : StoreCall}
    (hadd : ∀ limit, c = .saveLimit limit → limit.id = 0 →
      known n = some limit.key ∧ limit.key.Fits) :
    (s.answer l c).2.1.Noted (Function.update ses n (some (s.answer l c).2.2))
      (log ++ s.limitNotes l c) (Function.update known n (s.missed? l c)) := by
  have hl := h.hosts hs
  have hgrants := s.answer_ledger l c
  have notes_session : ∀ x ∈ s.limitNotes l c, x.session = s.id :=
    fun x hx => Session.session_of_mem_limitNotes hx
  -- a limit that is added now has a new id, and its key is what the session has looked for
  have new_note (id : SessionId) (i : Ident) (key : LimitKey)
      (hx : .added id i key ∈ s.limitNotes l c) : id = s.id ∧ i = l.newId.1 ∧ known n = some key ∧
        key.Fits ∧ (s.answer l c).2.1.lastId = l.lastId + 1 ∧
          s.limitNotes l c = [.added s.id i key] := by
    obtain ⟨rfl, limit, rfl, h0, rfl, rfl⟩ := Session.of_added_mem_limitNotes hx
    obtain ⟨hknown, hfits⟩ := hadd limit rfl h0
    refine ⟨rfl, rfl, hknown, hfits, ?_, ?_⟩
    · simp only [Session.answer, Session.saveLimit, if_pos h0]
      rfl
    · simp [Session.limitNotes, Session.missed?, Session.added?, h0]
  have id_new (id : SessionId) (key : LimitKey) : .added id l.newId.1 key ∉ log :=
    fun hadded => l.not_newId_le (h.added id _ key hadded).2.1
  refine
    { sound := h.sound.answer hs c
      within := fun x hx => ?within
      added := fun id i key hx => ?added
      unique := fun id id' i key key' hx hx' => ?unique
      stored := fun i r hr => (h.stored i r (hgrants.tables ▸ hr)).append _
      crossed := fun i j r r' hr hr' hne hkey =>
        (h.crossed i j r r' (hgrants.tables ▸ hr) (hgrants.tables ▸ hr') hne hkey).append _
      pending := fun m t ht hx => ?pending
      sessions := fun m t ht => ?sessions }
  case within =>
    rw [hgrants.lastSession]
    rcases List.mem_append.1 hx with hx | hx
    · exact h.within x hx
    · rw [notes_session x hx]
      exact hl.fits.known
  case added =>
    rcases List.mem_append.1 hx with hx | hx
    · obtain ⟨hpos, hle, hfits, since, hsince⟩ := h.added id i key hx
      exact ⟨hpos, Int.le_trans hle (Int.ofNat_le.2 hgrants.lastId), hfits, _, hsince.append _⟩
    · obtain ⟨rfl, rfl, hknown, hfits, hlast, hnotes⟩ := new_note id i key hx
      obtain ⟨before, mid, hlog, hlooked, -⟩ := (h.sessions n s hs).looked key hknown
      refine ⟨Int.ofNat_lt.2 (Nat.succ_pos _), ?_, hfits, mid ++ [.added s.id l.newId.1 key], before,
        mid, [], ?_, rfl, hlooked⟩
      · rw [hlast]
        exact Int.le_refl _
      · rw [hnotes]
        simp [hlog]
  case unique =>
    rcases List.mem_append.1 hx with hx | hx <;> rcases List.mem_append.1 hx' with hx' | hx'
    · exact h.unique id id' i key key' hx hx'
    · obtain ⟨-, rfl, -⟩ := new_note id' i key' hx'
      exact absurd hx (id_new id key)
    · obtain ⟨-, rfl, -⟩ := new_note id i key hx
      exact absurd hx' (id_new id' key')
    · obtain ⟨rfl, -, hknown, -⟩ := new_note id i key hx
      obtain ⟨rfl, -, hknown', -⟩ := new_note id' i key' hx'
      exact ⟨rfl, Option.some.inj (hknown.symm.trans hknown')⟩
  case pending =>
    replace hx : .committed t.id ∈ log :=
      (List.mem_append.1 hx).resolve_right (Session.committed_not_mem_limitNotes _)
    rw [Function.update_apply] at ht
    split at ht
    · cases ht
      rw [hl.answer_id c] at hx
      exact h.pending n s hs hx
    · exact h.pending m t ht hx
  case sessions =>
    rw [Function.update_apply] at ht
    split at ht
    next hm =>
      cases ht
      rw [hm, Function.update_self]
      exact h.session_answer hs fun limit hc h0 => (hadd limit hc h0).1
    next hm =>
      rw [Function.update_of_ne hm]
      refine (h.sessions m t ht).others (congrArg Tables.limits hgrants.tables) hgrants.versions
        fun x hx heq => h.sound.id_ne hm ht hs ?_
      rw [← heq, notes_session x hx]

/-- A limit that a session commits, and one that is there before with the same key and that it does not
delete, have crossed. -/
theorem crossed_of_commit (h : l.Noted ses log known) (hs : ses n = some s) {i j : Ident}
    {r r' : Limit} (hr : s.changes.Stores i r) (hadded : .added s.id i r.key ∈ log)
    (hj : j ∉ s.changes.deletedLimits.ids) (hr' : l.tables.limits.get? j = some r')
    (hkey : r'.key = r.key) : Crossed (log ++ [.committed s.id]) i j r.key := by
  obtain ⟨since, hsince, hnew⟩ := (h.sessions n s hs).beside i r hr hadded
  obtain ⟨id, hadded', hcommitted⟩ := hnew j r' hr' hkey hj
  obtain ⟨-, -, -, since', hsince'⟩ := h.added id j r.key hadded'
  have id_ne : s.id ≠ id := by
    rintro rfl
    obtain ⟨before, mid, after, hlog, -⟩ := hsince
    refine h.pending n s hs ?_
    rw [hlog]
    exact List.mem_append_right _ (List.mem_cons_of_mem _ hcommitted)
  exact ⟨s.id, id, _, _, id_ne, hsince.append _, List.mem_append_left _ hcommitted,
    hsince'.append _, by simp⟩

/-- **A commit that goes through.** A limit that the session has added meets another one with its key
only if that one has been committed since the session looked. -/
theorem commit (h : l.Noted ses log known) (hs : ses n = some s) (hadmits : l.Admits s) :
    (l.commit s).2.Noted (Function.update ses n none) (log ++ [.committed s.id]) known := by
  have hnoted := h.sessions n s hs
  have tables_eq : (l.commit s).2.tables = l.tables.apply s.changes := by
    rw [Ledger.commit_of_admits hadmits]
  have old_note {x : LimitNote} (hx : x ∈ log ++ [.committed s.id])
      (hid : ∀ id, x ≠ .committed id) : x ∈ log :=
    (List.mem_append.1 hx).resolve_right fun hnew => hid _ (List.mem_singleton.1 hnew)
  refine
    { sound := h.sound.commit hs
      within := ?within
      added := fun id i key hx => ?added
      unique := fun id id' i key key' hx hx' =>
        h.unique id id' i key key' (old_note hx nofun) (old_note hx' nofun)
      stored := fun i r hr => ?stored
      crossed := fun i j r r' hr hr' hne hkey => ?crossed
      pending := fun m t ht hx => ?pending
      sessions := fun m t ht => ?sessions }
  case within =>
    rw [Ledger.commit_of_admits hadmits]
    intro x hx
    rcases List.mem_append.1 hx with hx | hx
    · exact h.within x hx
    · cases List.mem_singleton.1 hx
      exact (h.sound.fits n s hs).known
  case added =>
    rw [Ledger.commit_of_admits hadmits]
    obtain ⟨hpos, hle, hfits, since, hsince⟩ := h.added id i key (old_note hx nofun)
    exact ⟨hpos, hle, hfits, _, hsince.append _⟩
  case stored =>
    rw [tables_eq] at hr
    rcases (h.limit_of_commit hs hadmits).1 ⟨r, hr, rfl⟩ with ⟨-, -, hadded, -⟩ | ⟨-, r', hr', hkey⟩
    · exact ⟨s.id, List.mem_append_left _ hadded, by simp⟩
    · rw [← hkey]
      exact (h.stored i r' hr').append _
  case crossed =>
    -- each of the two limits is the session's own, or it was there before
    rw [tables_eq] at hr hr'
    rcases (h.limit_of_commit hs hadmits).1 ⟨r, hr, rfl⟩ with
      ⟨q, hq, hadded, hqkey⟩ | ⟨hi, q, hq, hqkey⟩ <;>
      rcases (h.limit_of_commit hs hadmits).1 ⟨r', hr', rfl⟩ with
        ⟨q', hq', hadded', hqkey'⟩ | ⟨hj, q', hq', hqkey'⟩
    · rw [← hqkey] at hadded
      rw [← hqkey'] at hadded'
      exact absurd (hnoted.alone i j q q' hq hq' hadded hadded'
        (hqkey.trans (hkey.trans hqkey'.symm))) hne
    · rw [← hqkey] at hadded ⊢
      exact h.crossed_of_commit hs hq hadded hj hq' (hqkey'.trans (hkey.symm.trans hqkey.symm))
    · rw [← hqkey'] at hadded'
      rw [hkey, ← hqkey']
      exact (h.crossed_of_commit hs hq' hadded' hi hq
        (hqkey.trans (hkey.trans hqkey'.symm))).symm
    · rw [← hqkey]
      exact (h.crossed i j q q' hq hq' hne (hqkey.trans (hkey.trans hqkey'.symm))).append _
  case pending =>
    obtain ⟨hm, ht⟩ := there_of_update_none ht
    rcases List.mem_append.1 hx with hx | hx
    · exact h.pending m t ht hx
    · exact h.sound.id_ne hm ht hs (LimitNote.committed.inj (List.mem_singleton.1 hx))
  case sessions => exact h.session_commit (there_of_update_none ht).2 hs hadmits

end Ledger.Noted

end TeamLedger
