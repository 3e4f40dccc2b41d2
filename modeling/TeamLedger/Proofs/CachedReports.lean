/-
Whose rows an answer about credit was computed from.

An answer of the credit limit service is computed by one session, from what it
sees at two moments: from the unpaid amount when it asks for that, and from the
limits when it asks for those. It sees what is committed at the moment, with its
own changes laid over it. Then the answer goes into the cache, and whoever asks
for the same two teams gets it from there.

The cache knows nothing of sessions. So the session that has computed an answer
may be another one than the session that gets it, and it may have ended by then,
with or without its changes being committed. This is the only way for an answer
to pass from one session to another (`Office.report_of_one_session`), and it
takes everything that the answer was computed from along.
-/
import Mathlib.Data.List.Induction
import TeamLedger.CreditLimit
import TeamLedger.Proofs.Floor
import TeamLedger.Proofs.Offices
import TeamLedger.Proofs.RecordForms

set_option autoImplicit false

namespace TeamLedger

variable {α σ : Type}

/-! ## Keys -/

/-- An integer that fits 64 bits. -/
def FitsId (n : Ident) : Prop := -2 ^ 63 ≤ n ∧ n < 2 ^ 63

instance (n : Ident) : Decidable (FitsId n) := inferInstanceAs (Decidable (_ ∧ _))

/-- An integer is written the same way in a key and in JSON. -/
theorem toList_repr (n : Int) : (Int.repr n).toList = (Json.Number.ofInt n).chars := by
  cases n with
  | ofNat n =>
    show (Nat.repr n).toList = _
    simp [Json.Number.chars, Json.Number.ofInt, Nat.toList_repr]
  | negSucc n =>
    show ("-" ++ Nat.repr (n + 1)).toList = _
    simp [Json.Number.chars, Json.Number.ofInt, Int.negSucc_lt_zero, Nat.toList_repr,
      String.toList_append]

theorem ofInt_injective {m n : Int} (h : Json.Number.ofInt m = Json.Number.ofInt n) : m = n := by
  obtain ⟨hsign, hwhole, -⟩ := Json.Number.mk.inj h
  have magnitude : m.natAbs = n.natAbs := by
    have := congrArg (Nat.ofDigitChars 10 · 0) hwhole
    simpa [Nat.ofDigitChars_toDigits] using this
  have sign : m < 0 ↔ n < 0 := by simpa using hsign
  omega

namespace CreditLimit

/-- **Different pairs have different keys.** -/
theorem cacheKey_injective {t f t' f' : Ident} (h : cacheKey t f = cacheKey t' f') :
    t = t' ∧ f = f' := by
  have chars_eq : (Json.Number.ofInt t).chars ++ '-' :: (Json.Number.ofInt f).chars =
      (Json.Number.ofInt t').chars ++ '-' :: (Json.Number.ofInt f').chars := by
    have := congrArg String.toList h
    unfold cacheKey at this
    simpa [String.toList_append, toList_repr] using this
  -- an integer is read off the front up to the dash
  have stops (rest : List Char) : Json.Stops ('-' :: rest) := by
    rintro c ⟨⟩
    decide
  have first (t f : Ident) := Json.number?_chars (Json.Number.wellFormed_ofInt t)
    (stops (Json.Number.ofInt f).chars)
  have ends : Json.Stops [] := fun _ hc => nomatch hc
  have second (f : Ident) := Json.number?_chars (Json.Number.wellFormed_ofInt f) ends
  have team := first t f
  rw [chars_eq, first t' f'] at team
  obtain ⟨hteam, hrest⟩ := Prod.mk.inj (Option.some.inj team)
  have forTeam := second f
  rw [(List.cons.inj hrest).2.symm, second f'] at forTeam
  obtain ⟨hfor, -⟩ := Prod.mk.inj (Option.some.inj forTeam)
  exact ⟨(ofInt_injective hteam).symm, (ofInt_injective hfor).symm⟩

end CreditLimit

/-! ## Entries of the cache -/

namespace Cache.Local

variable {c : Cache.Local} {now : Cache.Nanoseconds} {key : String}

/-- What is found has been stored under the key. -/
theorem mem_of_get {value : String} (h : (c.get now key).1 = some value) :
    ∃ e ∈ c.entries, e.1 = key ∧ e.2.value = value := by
  unfold get at h
  split at h
  next e hlookup =>
    split at h
    · cases h
      obtain ⟨before, after, hentries, -⟩ := List.lookup_eq_some_iff.1 hlookup
      exact ⟨(key, e), by simp [hentries], rfl, rfl⟩
    · cases h
  next => cases h

/-- Looking something up brings in nothing. -/
theorem mem_entries_get {e : String × Cache.Entry} (h : e ∈ (c.get now key).2.entries) :
    e ∈ c.entries := by
  unfold get at h
  split at h
  · split at h
    · exact h
    · exact (List.mem_filter.1 h).1
  · exact h

/-- Storing brings in what is stored and nothing else. -/
theorem mem_entries_put {e : String × Cache.Entry} {value : String} {ttl : Cache.Nanoseconds}
    (h : e ∈ (c.put now key value ttl).entries) :
    e ∈ c.entries ∨ e.1 = key ∧ e.2.value = value := by
  rcases List.mem_append.1 h with h | h
  · exact .inl (List.mem_filter.1 h).1
  · cases List.mem_singleton.1 h
    exact .inr ⟨rfl, rfl⟩

end Cache.Local

/-- What is found in the cache is one of its entries. -/
theorem Surroundings.mem_of_cacheGet {around : Surroundings} {key text : String}
    (h : (around.cacheGet key).1 = .ok (some text)) :
    ∃ e ∈ around.cache.entries, e.1 = key ∧ e.2.value = text := by
  unfold cacheGet at h
  split at h
  · cases h
  · exact Cache.Local.mem_of_get (Except.ok.inj h)

/-- What is in the cache after a request was there before, or the request has stored it. -/
theorem Session.mem_entries_respond {l : Ledger} {s : Session} {around : Surroundings}
    {request : Request} {e : String × Cache.Entry}
    (h : e ∈ (Session.backend.respond (l, s) around request).2.2.cache.entries) :
    e ∈ around.cache.entries ∨ ∃ ttl, request = .cachePut e.1 e.2.value ttl := by
  cases request with
  | cacheGet key =>
    replace h : e ∈ (around.cacheGet key).2.cache.entries := h
    unfold Surroundings.cacheGet at h
    split at h
    · exact .inl h
    · exact .inl (Cache.Local.mem_entries_get h)
  | cachePut key value ttl =>
    replace h : e ∈ (around.cachePut key value ttl).2.cache.entries := h
    unfold Surroundings.cachePut at h
    split at h
    · exact .inl h
    · rcases Cache.Local.mem_entries_put h with h | ⟨rfl, rfl⟩
      · exact .inl h
      · exact .inr ⟨ttl, rfl⟩
  | _ => exact .inl h

/-! ## Offices in which reports are asked for -/

/-- What the service has answered to a question about two teams. -/
structure Reply where
  teamId : Ident
  forTeam : Ident
  report : LimitReport
deriving DecidableEq

/-- The request has nothing to do with the cache. -/
def Request.LeavesCache : Request → Prop
  | .cacheGet _ | .cachePut .. => False
  | _ => True

/-- Asks the service about two teams. -/
def Program.question (ttl : Cache.Nanoseconds) (teamId forTeam : Ident) : Program (Option Reply) :=
  (CreditLimit.report ttl teamId forTeam).conclude () fun r _ =>
    r.toOption.map fun report => ⟨teamId, forTeam, report⟩

/-- If the program uses the cache, it is the service that answers a question. -/
inductive Program.ReportWork : Program (Option Reply) → Prop
  | question (ttl : Cache.Nanoseconds) {teamId forTeam : Ident} (hteam : FitsId teamId)
    (hfor : FitsId forTeam) : ReportWork (.question ttl teamId forTeam)
  | other {β : Type} {p : Program β} (h : p.Asks Request.LeavesCache) :
    ReportWork (p.bind fun _ => .done none)

namespace Office

/-- The cache is used by the service only. -/
def Event.ReportWork : Event (Option Reply) → Prop
  | .start _ p => p.ReportWork
  | _ => True

/-- The office after events, beginning with an empty ledger and an empty cache. -/
def after (around : Surroundings) (es : List (Event α)) : Office α :=
  es.foldl happen { world := { around := { around with cache := {} } } }

/-- The answer with which the program of a session has ended. -/
def answered (o : Office (Option Reply)) (name : String) : Option Reply :=
  match o.task name with
  | some (.done r) => r
  | _ => none

/-- What the session with a number sees after the first events, with more to come: what is committed,
with its own changes laid over it. -/
def SeenAt (around : Surroundings) (es : List (Event α)) (i : Nat) (id : SessionId) (t : Tables) :
    Prop :=
  i < es.length ∧ ∃ name s, (after around (es.take i)).world.open? name = some s ∧ s.id = id ∧
    t = (after around (es.take i)).world.ledger.tables.apply s.changes

/-- The session has seen an unpaid amount at one moment and limits at a later one that lead to the
answer. -/
def Computed (around : Surroundings) (es : List (Event α)) (id : SessionId) (r : Reply) : Prop :=
  ∃ i j t t' unpaid, i ≤ j ∧ SeenAt around es i id t ∧ SeenAt around es j id t' ∧
    t.unpaidAmount r.forTeam r.teamId = .ok unpaid ∧
    r.report = LimitReport.evaluate r.teamId r.forTeam unpaid
      (t'.applicableLimits r.teamId r.forTeam)

/-- The session has stored the answer in the cache. -/
def Stored (around : Surroundings) (es : List (Event α)) (id : SessionId) (r : Reply) : Prop :=
  ∃ i name s ttl next, es[i]? = some (.step name) ∧
    (after around (es.take i)).world.open? name = some s ∧ s.id = id ∧
    (after around (es.take i)).task name = some (.ask (.cachePut
      (CreditLimit.cacheKey r.teamId r.forTeam) (toJson r.report).toText ttl) next)

/-- The text is that of an answer that a session has computed and stored under the key. -/
def Cached (around : Surroundings) (es : List (Event α)) (key text : String) : Prop :=
  ∃ id, ∃ r : Reply, FitsId r.teamId ∧ FitsId r.forTeam ∧
    key = CreditLimit.cacheKey r.teamId r.forTeam ∧ text = (toJson r.report).toText ∧
    Computed around es id r ∧ Stored around es id r

end Office

/-! ## What a session has been answered -/

/-- What a session knows from the answers to its requests: the last unpaid amount, the last limits
since then, and what it has found in the cache. -/
structure Sight where
  unpaid : Option (Ident × Ident × Money) := none
  limits : Option (Ident × Ident × List Limit) := none
  cached : Option (String × String) := none

namespace Sight

/-- What is known after one more answer. -/
def learn (g : Sight) : (r : Request) → r.Answer → Sight
  | .store (.unpaidAmount fromTeam toTeam), .ok unpaid =>
    { g with unpaid := some (fromTeam, toTeam, unpaid), limits := none }
  | .store (.applicableLimits teamId forTeam), .ok limits =>
    { g with limits := some (teamId, forTeam, limits) }
  | .cacheGet key, .ok (some text) => { g with cached := some (key, text) }
  | _, _ => g

/-- The answer to a question is what follows from the sight of the rows. -/
def Evaluates (g : Sight) (r : Reply) : Prop :=
  ∃ unpaid limits, g.unpaid = some (r.forTeam, r.teamId, unpaid) ∧
    g.limits = some (r.teamId, r.forTeam, limits) ∧
    r.report = LimitReport.evaluate r.teamId r.forTeam unpaid limits

/-- The answer follows from the rows, or it is what the cache holds for the question. -/
def Answers (g : Sight) (r : Reply) : Prop :=
  g.Evaluates r ∨ ∃ text, g.cached = some (CreditLimit.cacheKey r.teamId r.forTeam, text) ∧
    (Json.ofText? text).bind ofJson? = some r.report

end Sight

/-- What is stored in the cache follows from what has been seen. -/
def fromSight : Discipline Sight where
  allows g
    | .cachePut key value _ => ∃ r : Reply, FitsId r.teamId ∧ FitsId r.forTeam ∧ g.Evaluates r ∧
        key = CreditLimit.cacheKey r.teamId r.forTeam ∧ value = (toJson r.report).toText
    | _ => True
  learns g r answer g' := g' = g.learn r answer

/-- **The service answers and stores what follows from its sight.** -/
theorem CreditLimit.report_keeps (ttl : Cache.Nanoseconds) {teamId forTeam : Ident}
    (hteam : FitsId teamId) (hfor : FitsId forTeam) (g : Sight) :
    (CreditLimit.report ttl teamId forTeam : Service σ LimitReport).Keeps fromSight
      (fun x g => ∀ report, x = .ok report → g.Answers ⟨teamId, forTeam, report⟩) g := by
  unfold CreditLimit.report CreditLimit.requireTeam
  refine .bind ?_
  split
  · exact .refuse nofun
  refine .pure ?_
  refine .cacheGet_bind trivial (fun found g' hg => ?_) fun _ _ _ => nofun
  cases hg
  split
  next cached =>
    refine .count_bind trivial fun g' hg => ?_
    cases hg
    split
    next report hreport =>
      refine .pure fun _ h => ?_
      cases h
      exact .inr ⟨cached, rfl, hreport⟩
    next => exact .refuse nofun
  next =>
    refine .count_bind trivial fun g' hg => ?_
    cases hg
    refine .call_bind trivial (fun unpaid g' hg => ?_) fun _ _ _ => nofun
    cases hg
    refine .call_bind trivial (fun limits g' hg => ?_) fun _ _ _ => nofun
    cases hg
    have evaluates (g : Sight) : Sight.Evaluates
        { g with unpaid := some (forTeam, teamId, unpaid), limits := some (teamId, forTeam, limits) }
        ⟨teamId, forTeam, LimitReport.evaluate teamId forTeam unpaid limits⟩ :=
      ⟨unpaid, limits, rfl, rfl, rfl⟩
    refine .cachePut_bind ⟨_, hteam, hfor, evaluates _, rfl, rfl⟩ (fun g' hg => ?_) fun _ _ _ => nofun
    cases hg
    refine .pure fun _ h => ?_
    cases h
    exact .inl (evaluates _)

/-- Programs of this kind end with answers that follow from their sight. -/
theorem Program.ReportWork.keeps {p : Program (Option Reply)} (h : p.ReportWork) :
    p.Keeps fromSight (fun a g => ∀ r, a = some r → g.Answers r) {} := by
  cases h with
  | question ttl hteam hfor =>
    refine .bind (.mono (fun x g hx r hr => ?_) (CreditLimit.report_keeps ttl hteam hfor {} ()))
    obtain ⟨result, st⟩ := x
    cases result with
    | error e => cases hr
    | ok report =>
      cases hr
      exact hx report rfl
  | other h =>
    refine .bind (.mono (fun _ _ _ => nofun) (h.keeps (fun g r hr => ?_) ({} : Sight)))
    cases r with
    | cacheGet key => exact hr.elim
    | cachePut key value ttl => exact hr.elim
    | _ => trivial

/-! ## What is known is true -/

namespace Office

variable {around : Surroundings} {es : List (Event α)} {e : Event α} {id : SessionId}

theorem after_concat (around : Surroundings) (es : List (Event α)) (e : Event α) :
    after around (es ++ [e]) = (after around es).happen e := by
  unfold after
  rw [List.foldl_append]
  rfl

theorem SeenAt.append {i : Nat} {t : Tables} (h : SeenAt around es i id t) (more : List (Event α)) :
    SeenAt around (es ++ more) i id t := by
  obtain ⟨hlt, hseen⟩ := h
  refine ⟨by rw [List.length_append]; omega, ?_⟩
  rwa [List.take_append_of_le_length (Nat.le_of_lt hlt)]

/-- What an open session sees now. -/
theorem seenAt_now {name : String} {s : Session} (hs : (after around es).world.open? name = some s)
    (e : Event α) : SeenAt around (es ++ [e]) es.length s.id
      ((after around es).world.ledger.tables.apply s.changes) := by
  refine ⟨by simp, name, s, ?_, rfl, ?_⟩ <;> rw [List.take_left]
  exact hs

theorem Computed.append {r : Reply} (h : Computed around es id r) (more : List (Event α)) :
    Computed around (es ++ more) id r := by
  obtain ⟨i, j, t, t', unpaid, hij, ht, ht', hresult⟩ := h
  exact ⟨i, j, t, t', unpaid, hij, ht.append more, ht'.append more, hresult⟩

theorem Stored.append {r : Reply} (h : Stored around es id r) (more : List (Event α)) :
    Stored around (es ++ more) id r := by
  obtain ⟨i, name, s, ttl, next, hi, hs, hid, htask⟩ := h
  obtain ⟨hlt, -⟩ := List.getElem?_eq_some_iff.1 hi
  have take_eq : (es ++ more).take i = es.take i := List.take_append_of_le_length (Nat.le_of_lt hlt)
  refine ⟨i, name, s, ttl, next, ?_, by rw [take_eq]; exact hs, hid, by rw [take_eq]; exact htask⟩
  rw [List.getElem?_append_left hlt, hi]

theorem Cached.append {key text : String} (h : Cached around es key text) (more : List (Event α)) :
    Cached around (es ++ more) key text := by
  obtain ⟨id, r, hteam, hfor, hkey, htext, hcomputed, hstored⟩ := h
  exact ⟨id, r, hteam, hfor, hkey, htext, hcomputed.append more, hstored.append more⟩

/-- An answer that was computed is read back from the text that it is stored as. -/
theorem Computed.readBack {r : Reply} (h : Computed around es id r) (hteam : FitsId r.teamId)
    (hfor : FitsId r.forTeam) : ReadBack r.report := by
  obtain ⟨_, _, _, _, unpaid, _, _, _, _, hreport⟩ := h
  rw [hreport]
  exact readBack_limitReport hteam hfor

end Office

open Office

/-- What a session knows has been so. -/
structure Sight.Founded (g : Sight) (around : Surroundings) (es : List (Office.Event α))
    (id : SessionId) : Prop where
  unpaid : ∀ fromTeam toTeam amount, g.unpaid = some (fromTeam, toTeam, amount) →
    ∃ i t, SeenAt around es i id t ∧ t.unpaidAmount fromTeam toTeam = .ok amount
  /-- The limits were seen later than the unpaid amount. -/
  limits : ∀ fromTeam toTeam amount teamId forTeam limits,
    g.unpaid = some (fromTeam, toTeam, amount) → g.limits = some (teamId, forTeam, limits) →
      ∃ i j t t', i ≤ j ∧ SeenAt around es i id t ∧ SeenAt around es j id t' ∧
        t.unpaidAmount fromTeam toTeam = .ok amount ∧
        limits = t'.applicableLimits teamId forTeam
  cached : ∀ key text, g.cached = some (key, text) → Cached around es key text

namespace Sight.Founded

variable {g : Sight} {around : Surroundings} {es : List (Office.Event α)} {id : SessionId}

/-- Knowing nothing. -/
theorem empty : ({} : Sight).Founded around es id := ⟨nofun, nofun, nofun⟩

theorem append (h : g.Founded around es id) (more : List (Office.Event α)) :
    g.Founded around (es ++ more) id := by
  refine
    { unpaid := fun fromTeam toTeam amount hu => ?unpaid
      limits := fun fromTeam toTeam amount teamId forTeam limits hu hl => ?limits
      cached := fun key text hc => (h.cached key text hc).append more }
  case unpaid =>
    obtain ⟨i, t, ht, hamount⟩ := h.unpaid fromTeam toTeam amount hu
    exact ⟨i, t, ht.append more, hamount⟩
  case limits =>
    obtain ⟨i, j, t, t', hij, ht, ht', hresult⟩ := h.limits _ _ _ _ _ _ hu hl
    exact ⟨i, j, t, t', hij, ht.append more, ht'.append more, hresult⟩

theorem computed {r : Reply} (h : g.Founded around es id) (hr : g.Evaluates r) :
    Computed around es id r := by
  obtain ⟨unpaid, limits, hu, hl, hreport⟩ := hr
  obtain ⟨i, j, t, t', hij, ht, ht', hamount, rfl⟩ := h.limits _ _ _ _ _ _ hu hl
  exact ⟨i, j, t, t', unpaid, hij, ht, ht', hamount, hreport⟩

/-- **Whose answer it is.** The session has computed it, or one that has stored it. -/
theorem computed_or_stored {r : Reply} (h : g.Founded around es id) (hr : g.Answers r) :
    ∃ other, Computed around es other r ∧ (other = id ∨ Stored around es other r) := by
  rcases hr with hr | ⟨text, hcached, hread⟩
  · exact ⟨id, h.computed hr, .inl rfl⟩
  · obtain ⟨other, r', hteam, hfor, hkey, rfl, hcomputed, hstored⟩ := h.cached _ _ hcached
    -- the key and the text both tell that it is the same answer
    have report_eq : r'.report = r.report :=
      Option.some.inj ((hcomputed.readBack hteam hfor).ofText?.symm.trans hread)
    have reply_eq : r' = r := by
      obtain ⟨teamId, forTeam, report⟩ := r
      obtain ⟨teamId', forTeam', report'⟩ := r'
      obtain ⟨rfl, rfl⟩ := CreditLimit.cacheKey_injective hkey
      cases report_eq
      rfl
    exact ⟨other, reply_eq ▸ hcomputed, .inr (reply_eq ▸ hstored)⟩

/-- **One more answer** is true of what the session sees at this moment. -/
theorem learns (h : g.Founded around es id) {name : String} {s : Session}
    (hs : (after around es).world.open? name = some s) (hid : s.id = id)
    (hcache : ∀ e ∈ (after around es).world.around.cache.entries, Cached around es e.1 e.2.value)
    (e : Office.Event α) (request : Request) :
    (g.learn request (Session.backend.respond ((after around es).world.ledger, s)
      (after around es).world.around request).1).Founded around (es ++ [e]) id := by
  subst hid
  have old := h.append [e]
  have now := seenAt_now hs e
  cases request with
  | store c =>
    cases c with
    | unpaidAmount fromTeam toTeam =>
      show (g.learn (.store (.unpaidAmount fromTeam toTeam)) (Session.ofMoney
        (((after around es).world.ledger.tables.apply s.changes).unpaidAmount fromTeam
          toTeam))).Founded around (es ++ [e]) s.id
      generalize (after around es).world.ledger.tables.apply s.changes = seen at now ⊢
      cases hamount : seen.unpaidAmount fromTeam toTeam with
      | error operation => exact old
      | ok amount =>
        refine ⟨fun _ _ _ hu => ?_, nofun, old.cached⟩
        cases hu
        exact ⟨_, _, now, hamount⟩
    | applicableLimits teamId forTeam =>
      refine ⟨old.unpaid, fun fromTeam toTeam amount _ _ _ hu hl => ?_, old.cached⟩
      cases hl
      obtain ⟨i, t, ht, hamount⟩ := h.unpaid fromTeam toTeam amount hu
      exact ⟨i, es.length, t, _, Nat.le_of_lt ht.1, ht.append [e], now, hamount, rfl⟩
    | _ => exact old
  | cacheGet key =>
    show (g.learn (.cacheGet key) ((after around es).world.around.cacheGet key).1).Founded
      around (es ++ [e]) s.id
    cases hfound : ((after around es).world.around.cacheGet key).1 with
    | error fault => exact old
    | ok found =>
      cases found with
      | none => exact old
      | some text =>
        refine ⟨old.unpaid, old.limits, fun _ _ hc => ?_⟩
        cases hc
        obtain ⟨entry, hentry, rfl, rfl⟩ := Surroundings.mem_of_cacheGet hfound
        exact (hcache entry hentry).append [e]
  | _ => exact old

end Sight.Founded

/-! ## Every run -/

namespace Office

variable {around : Surroundings} {es : List (Event (Option Reply))}

/-- What is in the cache and what the sessions know is founded on what has been seen. -/
structure Founded (around : Surroundings) (es : List (Event (Option Reply))) : Prop where
  sound : (after around es).world.Sound
  cache : ∀ e ∈ (after around es).world.around.cache.entries, Cached around es e.1 e.2.value
  tasks : ∀ name p, (after around es).task name = some p → ∃ s g,
    (after around es).world.open? name = some s ∧ g.Founded around es s.id ∧
      p.Keeps fromSight (fun a g => ∀ r, a = some r → g.Answers r) g

theorem cache_rollback (w : World) (name : String) :
    (w.rollback name).around.cache = w.around.cache := by
  unfold World.rollback
  split <;> rfl

theorem cache_commit (w : World) (name : String) :
    (w.commit name).2.around.cache = w.around.cache := by
  unfold World.commit
  split <;> rfl

theorem cache_addTeam (w : World) (name : String) (kind : Team.Kind) :
    (w.addTeam name kind).2.around.cache = w.around.cache := by
  unfold World.addTeam Surroundings.now
  rfl

namespace Founded

/-- An event that is nobody's answer changes neither the cache nor the sessions whose programs go on. -/
theorem of_idle (h : Founded around es) {e : Event (Option Reply)}
    (hcache : ((after around es).happen e).world.around.cache = (after around es).world.around.cache)
    (htasks : ∀ name p, ((after around es).happen e).task name = some p →
      (after around es).task name = some p ∧
        ((after around es).happen e).world.open? name = (after around es).world.open? name) :
    Founded around (es ++ [e]) := by
  refine
    { sound := ?sound
      cache := fun entry hentry => ?cache
      tasks := fun name p hp => ?tasks }
  case sound =>
    rw [after_concat]
    exact sound_happen h.sound e
  case cache =>
    rw [after_concat, hcache] at hentry
    exact (h.cache entry hentry).append [e]
  case tasks =>
    rw [after_concat] at hp ⊢
    obtain ⟨hp, hopen⟩ := htasks name p hp
    obtain ⟨s, g, hs, hg, hkeeps⟩ := h.tasks name p hp
    exact ⟨s, g, hopen.trans hs, hg.append [e], hkeeps⟩

/-- The session of a name gets no program, and all others go on. -/
theorem of_ended (h : Founded around es) {e : Event (Option Reply)} {name : String} {w : World}
    (happen_eq : (after around es).happen e = (after around es).assign name w none)
    (hcache : w.around.cache = (after around es).world.around.cache)
    (hopen : ∀ k, k ≠ name → w.open? k = (after around es).world.open? k) :
    Founded around (es ++ [e]) := by
  refine h.of_idle ?_ fun k p hp => ?_
  · rw [happen_eq]
    exact hcache
  · rw [happen_eq] at hp ⊢
    rw [task_assign] at hp
    split at hp
    · cases hp
    next hk => exact ⟨hp, hopen k hk⟩

theorem of_start (h : Founded around es) (name : String) {p : Program (Option Reply)}
    (hp : p.ReportWork) : Founded around (es ++ [.start name p]) := by
  cases hs : (after around es).world.open? name with
  | none =>
    have happen_eq : (after around es).happen (.start name p) = after around es := by
      simp only [happen, hs, Option.isSome_none, Bool.false_eq_true, if_false]
    refine h.of_idle (by rw [happen_eq]) fun k q hq => ?_
    rw [happen_eq] at hq ⊢
    exact ⟨hq, rfl⟩
  | some s =>
    have happen_eq : (after around es).happen (.start name p) =
        (after around es).assign name (after around es).world (some p) := by
      simp only [happen, hs, Option.isSome_some, if_true]
    refine
      { sound := ?sound
        cache := fun entry hentry => ?cache
        tasks := fun k q hq => ?tasks }
    case sound =>
      rw [after_concat]
      exact sound_happen h.sound _
    case cache =>
      rw [after_concat, happen_eq] at hentry
      exact (h.cache entry hentry).append _
    case tasks =>
      rw [after_concat, happen_eq] at hq ⊢
      rw [task_assign] at hq
      split at hq
      next hk =>
        cases hq
        exact ⟨s, {}, hk ▸ hs, .empty, hp.keeps⟩
      next =>
        obtain ⟨t, g, ht, hg, hkeeps⟩ := h.tasks k q hq
        exact ⟨t, g, ht, hg.append _, hkeeps⟩

/-- **One request is answered.** What goes into the cache on the way is founded on what the session
knows. -/
theorem of_step (h : Founded around es) (name : String) : Founded around (es ++ [.step name]) := by
  rcases (after around es).step_cases name with ⟨-, happen_eq⟩ |
    ⟨s, request, next, w, hs, htask, -, haround, hopen, happen_eq⟩
  · refine h.of_idle (by rw [happen_eq]) fun k p hp => ?_
    rw [happen_eq] at hp ⊢
    exact ⟨hp, rfl⟩
  obtain ⟨s', g, hs', hg, hallows, hnext⟩ := h.tasks name _ htask
  cases hs.symm.trans hs'
  refine
    { sound := ?sound
      cache := fun entry hentry => ?cache
      tasks := fun k p hp => ?tasks }
  case sound =>
    rw [after_concat]
    exact sound_happen h.sound _
  case cache =>
    rw [after_concat, happen_eq] at hentry
    replace hentry : entry ∈ w.around.cache.entries := hentry
    rw [haround] at hentry
    rcases Session.mem_entries_respond hentry with hentry | ⟨ttl, rfl⟩
    · exact (h.cache entry hentry).append _
    · obtain ⟨r, hteam, hfor, hr, hkey, hvalue⟩ := hallows
      refine ⟨s.id, r, hteam, hfor, hkey, hvalue, (hg.computed hr).append _,
        es.length, name, s, ttl, next, by simp, ?_, rfl, ?_⟩ <;> rw [List.take_left]
      · exact hs
      · rw [← hkey, ← hvalue]
        exact htask
  case tasks =>
    rw [after_concat, happen_eq] at hp ⊢
    rw [task_assign] at hp
    split at hp
    next hk =>
      cases hp
      have hhosts : (after around es).world.ledger.Hosts s :=
        ⟨h.sound.keyed, h.sound.within, h.sound.fits name s hs⟩
      have id_eq : (Session.backend.respond ((after around es).world.ledger, s)
          (after around es).world.around request).2.1.2.id = s.id := by
        cases request with
        | store c => exact hhosts.answer_id c
        | _ => rfl
      refine ⟨_, _, (hopen k).trans (if_pos hk), ?_, hnext _ _ rfl⟩
      rw [id_eq]
      exact hg.learns hs rfl h.cache _ request
    next hk =>
      obtain ⟨t, g', ht, hg', hkeeps⟩ := h.tasks k p hp
      exact ⟨t, g', (hopen k).trans ((if_neg hk).trans ht), hg'.append _, hkeeps⟩

theorem empty (around : Surroundings) : Founded around [] where
  sound := World.Sound.start _
  cache _ he := nomatch he
  tasks _ _ hp := nomatch hp

end Founded

/-- **Whatever happens**, the cache and the sessions' knowledge stay founded. -/
theorem founded (around : Surroundings) {es : List (Event (Option Reply))}
    (hes : ∀ e ∈ es, e.ReportWork) : Founded around es := by
  induction es using List.reverseRecOn with
  | nil => exact .empty around
  | append_singleton es e ih =>
    replace ih := ih fun e' he' => hes e' (List.mem_append_left _ he')
    have he : e.ReportWork := hes e (List.mem_append_right _ List.mem_cons_self)
    cases e with
    | begin name =>
      exact ih.of_ended rfl (cache_rollback _ name) fun k hk =>
        ((after around es).world.open?_begin name k).trans (if_neg hk)
    | start name p => exact ih.of_start name he
    | step name => exact ih.of_step name
    | commit name =>
      exact ih.of_ended rfl (cache_commit _ name) fun k hk =>
        ((after around es).world.open?_commit name k).trans (if_neg hk)
    | rollback name =>
      exact ih.of_ended rfl (cache_rollback _ name) fun k hk =>
        ((after around es).world.open?_rollback name k).trans (if_neg hk)
    | addTeam name kind =>
      exact ih.of_idle (cache_addTeam (after around es).world name kind) fun k p hp => ⟨hp, rfl⟩
    | wait time => exact ih.of_idle rfl fun k p hp => ⟨hp, rfl⟩

/-- **An answer comes from one session.** In every run of sessions that share one cache, an answer that
a session has been given is what follows from the unpaid amount and from the limits that one session has
seen: what was committed at two moments, each time with this session's own changes laid over it. It is
the session itself, or one that has stored the answer in the cache. -/
theorem report_of_one_session {around : Surroundings} {es : List (Event (Option Reply))}
    (hes : ∀ e ∈ es, e.ReportWork) {name : String} {r : Reply}
    (h : (after around es).answered name = some r) :
    ∃ s id, (after around es).world.open? name = some s ∧ Computed around es id r ∧
      (id = s.id ∨ Stored around es id r) := by
  have htask : (after around es).task name = some (.done (some r)) := by
    unfold answered at h
    split at h
    next hdone => rw [hdone, h]
    next => cases h
  obtain ⟨s, g, hs, hg, hkeeps⟩ := (founded around hes).tasks name _ htask
  obtain ⟨id, hcomputed, hid⟩ := hg.computed_or_stored (hkeeps r rfl)
  exact ⟨s, id, hs, hcomputed, hid⟩

/-- A session has an invoice pending, asks whether a team may take on more debt, and is dropped. Another
session asks the same afterwards. -/
def askedTwice : List (Event (Option Reply)) :=
  [.begin "first",
    .start "first" ((Program.request (.store (.insertInvoice
      { fromTeam := 2, toTeam := 1, kind := .product, amount := (Money.ofParts? 50 0).getD .zero,
        created := .ofSecond 0 }))).bind fun _ => .done none),
    .step "first", .start "first" (.question 60 1 2), .step "first", .step "first", .step "first",
    .step "first", .step "first", .rollback "first", .begin "second", .start "second" (.question 60 1 2),
    .step "second", .step "second"]

/-- The second session sees no invoices, and it is told of the debt. -/
theorem report_of_one_session_leaked : ∃ (r : Reply) (s : Session) (id : SessionId),
    (∀ e ∈ askedTwice, e.ReportWork) ∧
      (after { clock := ⟨⟨0, 0, by decide⟩⟩ } askedTwice).answered "second" = some r ∧
      r.report.unpaidAmount = ⟨50, 0, by decide, by decide⟩ ∧
      (after { clock := ⟨⟨0, 0, by decide⟩⟩ } askedTwice).world.open? "second" = some s ∧
      (((after { clock := ⟨⟨0, 0, by decide⟩⟩ } askedTwice).world.ledger.tables.apply
        s.changes).unpaidAmount 2 1).toOption = some .zero ∧
      Computed { clock := ⟨⟨0, 0, by decide⟩⟩ } askedTwice id r ∧
        (id = s.id ∨ Stored { clock := ⟨⟨0, 0, by decide⟩⟩ } askedTwice id r) := by
  have question : (Program.question 60 1 2).ReportWork := .question 60 (by decide) (by decide)
  have hes : ∀ e ∈ askedTwice, e.ReportWork := by
    unfold askedTwice
    simp only [List.forall_mem_cons]
    exact ⟨trivial, .other ⟨trivial, fun _ => trivial⟩, trivial, question, trivial, trivial, trivial,
      trivial, trivial, trivial, trivial, question, trivial, trivial,
      fun _ he => absurd he List.not_mem_nil⟩
  have hr : (after { clock := ⟨⟨0, 0, by decide⟩⟩ } askedTwice).answered "second" =
      some ⟨1, 2, ⟨1, 2, ⟨50, 0, by decide, by decide⟩, .zero, none, true⟩⟩ := by
    decide +kernel
  have nothing_owed : ((after { clock := ⟨⟨0, 0, by decide⟩⟩ } askedTwice).world.open? "second").bind
      (fun s => (((after { clock := ⟨⟨0, 0, by decide⟩⟩ } askedTwice).world.ledger.tables.apply
        s.changes).unpaidAmount 2 1).toOption) = some .zero := by
    decide +kernel
  obtain ⟨s, id, hs, hcomputed, hid⟩ := report_of_one_session hes hr
  rw [hs] at nothing_owed
  exact ⟨_, s, id, hes, hr, rfl, hs, nothing_owed, hcomputed, hid⟩

end Office

end TeamLedger
