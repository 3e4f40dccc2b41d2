/-
Questions about credit, asked one after the other.

A service that has its cache for itself is asked about pairs of teams, each time
by some session of some ledger, at some time. What it says may be old, for the
cache is not told of changes. What it never does is mix up two pairs, or say
something that was not true of the ledger when it last looked: an answer is what
the latest question about the same pair that found nothing in the cache has led
to (`answer_of_latest_miss`).

What carries this is where the entries of the cache come from (`Accounted`). A
question that finds nothing leaves no entry under its key, so an entry is always
that of the latest question that looked at the ledger.
-/
import TeamLedger.Proofs.CachedReports
import TeamLedger.Proofs.Equations

set_option autoImplicit false

namespace TeamLedger

/-! ## Looking up and storing -/

namespace Cache.Local

variable {c : Cache.Local} {now : Cache.Nanoseconds} {key : String}

/-- Finding something changes nothing. -/
theorem get_of_found {value : String} (h : (c.get now key).1 = some value) : (c.get now key).2 = c := by
  unfold get at h ⊢
  split at h
  · split at h
    next hlive => rw [if_pos hlive]
    · cases h
  · cases h

/-- Where nothing is found, nothing remains. -/
theorem key_ne_of_not_found (h : (c.get now key).1 = none) {e : String × Cache.Entry}
    (he : e ∈ (c.get now key).2.entries) : e.1 ≠ key := by
  unfold get at h he
  cases hlookup : c.entries.lookup key with
  | none =>
    rw [hlookup] at he
    rintro rfl
    simpa using List.lookup_eq_none_iff.1 hlookup e he
  | some found =>
    simp only [hlookup] at h he
    by_cases hlive : found.isLive now = true
    · rw [if_pos hlive] at h
      cases h
    · rw [if_neg hlive] at he
      simpa using (List.mem_filter.1 he).2

end Cache.Local

namespace CreditLimit

/-! ## Questions -/

/-- A question whether a counterpart may take on more debt to a team, with the session that asks and
what is around at the moment. -/
structure Question where
  teamId : Ident
  forTeam : Ident
  ledger : Ledger
  session : Session
  clock : Clock
  uptime : Cache.Nanoseconds := 0
  metrics : Metrics := .zero

namespace Question

variable (ttl : Cache.Nanoseconds) (q : Question) (cache : Cache.Local)

/-- There is a team, and the ids fit 64 bits. -/
def Valid : Prop := q.teamId ≠ 0 ∧ FitsId q.teamId ∧ FitsId q.forTeam

instance : Decidable q.Valid := inferInstanceAs (Decidable (_ ∧ _))

/-- The question is about these two teams. -/
def About (teamId forTeam : Ident) : Prop := q.teamId = teamId ∧ q.forTeam = forTeam

/-- What is around the service when it is asked; its cache has no faults. -/
def around : Surroundings := { clock := q.clock, uptime := q.uptime, metrics := q.metrics, cache }

/-- What the cache has for the question. -/
def found : Option String := (cache.get q.uptime (cacheKey q.teamId q.forTeam)).1

/-- Asks the service. -/
def ask : Except Failure LimitReport × Cache.Local :=
  let (answer, _, _, around) := (report ttl q.teamId q.forTeam).run Session.backend ()
    (q.ledger, q.session) (q.around cache)
  (answer, around.cache)

/-- What the session sees: what is committed, with its own changes laid over it. -/
def seen : Tables := q.ledger.tables.apply q.session.changes

/-- What follows from what the session sees. -/
def evaluated : Except Money.Overflow LimitReport :=
  (q.seen.unpaidAmount q.forTeam q.teamId).map fun unpaid =>
    LimitReport.evaluate q.teamId q.forTeam unpaid (q.seen.applicableLimits q.teamId q.forTeam)

end Question

/-- The cache after questions, in order. Nothing else is ever stored in it. -/
def cacheAfter (ttl : Cache.Nanoseconds) (qs : List Question) : Cache.Local :=
  qs.foldl (fun cache q => (q.ask ttl cache).2) {}

/-- The question with a number has found nothing. -/
def Missed (ttl : Cache.Nanoseconds) (qs : List Question) (i : Nat) : Prop :=
  ∃ q, qs[i]? = some q ∧ q.found (cacheAfter ttl (qs.take i)) = none

/-- The latest of the questions about two teams that has found nothing has led to the answer. -/
def FromLatestMiss (ttl : Cache.Nanoseconds) (qs : List Question) (teamId forTeam : Ident)
    (r : LimitReport) : Prop :=
  ∃ i q, qs[i]? = some q ∧ q.About teamId forTeam ∧ Missed ttl qs i ∧ q.evaluated = .ok r ∧
    ∀ j q', i < j → qs[j]? = some q' → q'.About teamId forTeam → ¬ Missed ttl qs j

/-! ## One question -/

section

variable {σ τ : Type} {ttl : Cache.Nanoseconds} {teamId forTeam : Ident} {around : Surroundings}

/-- **What is found is the answer**, and the store is not asked. -/
theorem run_report_of_found (b : Backend τ) (s : σ) (st : τ) (hteam : teamId ≠ 0) {text : String}
    (h : (around.cacheGet (cacheKey teamId forTeam)).1 = .ok (some text)) :
    (report ttl teamId forTeam).run b s st around =
      (((Json.ofText? text).bind ofJson?).elim (.error (.refused .serialization)) .ok, s, st,
        { (around.cacheGet (cacheKey teamId forTeam)).2 with
          metrics := (around.cacheGet (cacheKey teamId forTeam)).2.metrics.bump .limitCache "hit" }) := by
  unfold report requireTeam
  rw [if_neg hteam, Service.run_bind, Service.run_pure]
  dsimp only
  rw [Service.run_bind, Service.run_cacheGet, h]
  dsimp only
  rw [Service.run_bind, Service.run_count]
  dsimp only
  cases (Json.ofText? text).bind (ofJson? : Json → Option LimitReport) <;> rfl

end

namespace Question

variable {ttl : Cache.Nanoseconds} {q : Question} {cache : Cache.Local}

theorem ask_of_found (hq : q.Valid) {text : String} (h : q.found cache = some text) :
    q.ask ttl cache =
      (((Json.ofText? text).bind ofJson?).elim (.error (.refused .serialization)) .ok, cache) := by
  have hfound : ((q.around cache).cacheGet (cacheKey q.teamId q.forTeam)).1 = .ok (some text) :=
    congrArg Except.ok h
  unfold ask
  rw [run_report_of_found Session.backend () _ hq.1 hfound]
  exact congrArg (Prod.mk _) (Cache.Local.get_of_found h)

theorem ask_of_missed (hteam : q.teamId ≠ 0) (h : q.found cache = none) :
    q.ask ttl cache = match q.evaluated with
      | .ok r => (.ok r, (cache.get q.uptime (cacheKey q.teamId q.forTeam)).2.put (q.uptime + 1)
          (cacheKey q.teamId q.forTeam) (toJson r).toText ttl)
      | .error operation =>
        (.error (.overflow operation), (cache.get q.uptime (cacheKey q.teamId q.forTeam)).2) := by
  have hfound : ((q.around cache).cacheGet (cacheKey q.teamId q.forTeam)).1 = .ok none :=
    congrArg Except.ok h
  unfold ask report requireTeam evaluated
  rw [if_neg hteam, Service.run_bind, Service.run_pure]
  dsimp only
  rw [Service.run_bind, Service.run_cacheGet, hfound]
  dsimp only
  rw [Service.run_bind, Service.run_count]
  dsimp only
  rw [Service.run_bind, Service.run_call]
  -- both amounts and limits are read off a new snapshot of the same ledger
  generalize hamount : q.seen.unpaidAmount q.forTeam q.teamId = m
  unfold seen at hamount
  simp only [Session.backend, Session.answer, Session.view, Session.refresh, hamount]
  cases m with
  | error operation => rfl
  | ok unpaid =>
    dsimp only [Session.ofMoney]
    rw [Service.run_bind, Service.run_call]
    dsimp only
    rw [Service.run_bind, Service.run_cachePut]
    rfl

/-- What is answered is about the two teams. -/
theorem teams_of_evaluated {r : LimitReport} (h : q.evaluated = .ok r) : q.About r.teamId r.forTeam := by
  unfold evaluated at h
  cases hunpaid : q.seen.unpaidAmount q.forTeam q.teamId with
  | error operation =>
    rw [hunpaid] at h
    cases h
  | ok unpaid =>
    rw [hunpaid] at h
    cases h
    exact ⟨rfl, rfl⟩

/-- What is answered is read back from its text. -/
theorem ofText?_of_evaluated (hq : q.Valid) {r : LimitReport} (h : q.evaluated = .ok r) :
    (Json.ofText? (toJson r).toText).bind ofJson? = some r := by
  obtain ⟨hteam, hfor⟩ := teams_of_evaluated h
  exact (readBack_limitReport (hteam ▸ hq.2.1) (hfor ▸ hq.2.2)).ofText?

end Question

/-! ## Where entries come from -/

section

variable {ttl : Cache.Nanoseconds} {qs : List Question} {q : Question} {teamId forTeam : Ident}
  {r : LimitReport}

theorem cacheAfter_concat (ttl : Cache.Nanoseconds) (qs : List Question) (q : Question) :
    cacheAfter ttl (qs ++ [q]) = (q.ask ttl (cacheAfter ttl qs)).2 := by
  unfold cacheAfter
  rw [List.foldl_append]
  rfl

theorem missed_concat_of_lt {i : Nat} (hi : i < qs.length) :
    Missed ttl (qs ++ [q]) i ↔ Missed ttl qs i := by
  unfold Missed
  rw [List.getElem?_append_left hi, List.take_append_of_le_length (Nat.le_of_lt hi)]

theorem missed_concat_length :
    Missed ttl (qs ++ [q]) qs.length ↔ q.found (cacheAfter ttl qs) = none := by
  unfold Missed
  rw [List.take_left]
  simp

/-- A question that finds nothing becomes the latest one. -/
theorem FromLatestMiss.of_missed (h : q.found (cacheAfter ttl qs) = none) (hr : q.evaluated = .ok r) :
    FromLatestMiss ttl (qs ++ [q]) q.teamId q.forTeam r := by
  refine ⟨qs.length, q, by simp, ⟨rfl, rfl⟩, missed_concat_length.2 h, hr, fun j q' hj hq' => ?_⟩
  obtain ⟨hlt, -⟩ := List.getElem?_eq_some_iff.1 hq'
  rw [List.length_append, List.length_singleton] at hlt
  omega

/-- A question about others, and one that is answered from the cache, leave the latest one as it is. -/
theorem FromLatestMiss.concat (h : FromLatestMiss ttl qs teamId forTeam r)
    (hq : q.About teamId forTeam → q.found (cacheAfter ttl qs) ≠ none) :
    FromLatestMiss ttl (qs ++ [q]) teamId forTeam r := by
  obtain ⟨i, asked, hasked, habout, hmissed, hr, hlatest⟩ := h
  obtain ⟨hi, -⟩ := List.getElem?_eq_some_iff.1 hasked
  refine ⟨i, asked, by rw [List.getElem?_append_left hi, hasked], habout,
    (missed_concat_of_lt hi).2 hmissed, hr, fun j q' hij hq' habout' => ?_⟩
  by_cases hj : j < qs.length
  · rw [missed_concat_of_lt hj]
    rw [List.getElem?_append_left hj] at hq'
    exact hlatest j q' hij hq' habout'
  · obtain ⟨hlt, -⟩ := List.getElem?_eq_some_iff.1 hq'
    rw [List.length_append, List.length_singleton] at hlt
    obtain rfl : j = qs.length := by omega
    rw [List.getElem?_concat_length] at hq'
    cases hq'
    rw [missed_concat_length]
    exact hq habout'

/-- The entry holds what the latest question about its two teams that has found nothing has led to. -/
def Accounted (ttl : Cache.Nanoseconds) (qs : List Question) (e : String × Cache.Entry) : Prop :=
  ∃ (q : Question) (r : LimitReport), q.Valid ∧ q.evaluated = .ok r ∧ e.1 = cacheKey q.teamId q.forTeam ∧
    e.2.value = (toJson r).toText ∧ FromLatestMiss ttl qs q.teamId q.forTeam r

theorem Accounted.concat {e : String × Cache.Entry} (h : Accounted ttl qs e)
    (hq : e.1 = cacheKey q.teamId q.forTeam → q.found (cacheAfter ttl qs) ≠ none) :
    Accounted ttl (qs ++ [q]) e := by
  obtain ⟨asked, r, hasked, hr, hkey, hvalue, hlatest⟩ := h
  refine ⟨asked, r, hasked, hr, hkey, hvalue, hlatest.concat fun habout => hq ?_⟩
  rw [hkey, habout.1, habout.2]

/-- **One more question** leaves only entries that are accounted for. -/
theorem accounted_ask (h : ∀ e ∈ (cacheAfter ttl qs).entries, Accounted ttl qs e) (hq : q.Valid) :
    ∀ e ∈ (cacheAfter ttl (qs ++ [q])).entries, Accounted ttl (qs ++ [q]) e := by
  intro e he
  rw [cacheAfter_concat] at he
  cases hfound : q.found (cacheAfter ttl qs) with
  | some text =>
    rw [Question.ask_of_found hq hfound] at he
    exact (h e he).concat fun _ => by rw [hfound]; exact Option.some_ne_none text
  | none =>
    -- what remains in the cache is about others
    have remains {e : String × Cache.Entry} (he : e ∈ ((cacheAfter ttl qs).get q.uptime
        (cacheKey q.teamId q.forTeam)).2.entries) : Accounted ttl (qs ++ [q]) e :=
      (h e (Cache.Local.mem_entries_get he)).concat fun hkey =>
        (Cache.Local.key_ne_of_not_found hfound he hkey).elim
    rw [Question.ask_of_missed hq.1 hfound] at he
    cases hr : q.evaluated with
    | error operation =>
      rw [hr] at he
      exact remains he
    | ok r =>
      rw [hr] at he
      rcases Cache.Local.mem_entries_put he with he | ⟨hkey, hvalue⟩
      · exact remains he
      · exact ⟨q, r, hq, hr, hkey, hvalue, .of_missed hfound hr⟩

theorem accounted (ttl : Cache.Nanoseconds) (hqs : ∀ q ∈ qs, q.Valid) :
    ∀ e ∈ (cacheAfter ttl qs).entries, Accounted ttl qs e := by
  induction qs using List.reverseRecOn with
  | nil => exact fun _ he => nomatch he
  | append_singleton qs q ih =>
    exact accounted_ask (ih fun q' hq' => hqs q' (List.mem_append_left _ hq'))
      (hqs q (List.mem_append_right _ List.mem_cons_self))

/-- What is found is the text of what the latest question that has found nothing has led to. -/
theorem found_of_latest_miss (hqs : ∀ q ∈ qs, q.Valid) {text : String}
    (h : q.found (cacheAfter ttl qs) = some text) :
    ∃ r, (Json.ofText? text).bind ofJson? = some r ∧ FromLatestMiss ttl qs q.teamId q.forTeam r := by
  obtain ⟨e, he, hkey, rfl⟩ := Cache.Local.mem_of_get h
  obtain ⟨asked, r, hasked, hr, hkey', hvalue, hlatest⟩ := accounted ttl hqs e he
  obtain ⟨hteam, hfor⟩ := cacheKey_injective (hkey.symm.trans hkey')
  refine ⟨r, ?_, hteam ▸ hfor ▸ hlatest⟩
  rw [hvalue]
  exact Question.ofText?_of_evaluated hasked hr

/-! ## The answers -/

/-- **Answers come from the latest look at the ledger.** However often the service is asked, by whatever
sessions, about whatever teams and whatever happens to ledgers in between: an answer is, in every part,
what the latest question about the same two teams that found nothing in the cache led to, the present
one included. Nothing but an overflow of amounts keeps the service from answering; in particular what was
cached can be read back. A question that finds something leaves every store alone. And every entry is
found by questions about one pair of teams only, the pair that it is about. -/
theorem answer_of_latest_miss (ttl : Cache.Nanoseconds) (hqs : ∀ q ∈ qs, q.Valid) (hq : q.Valid) :
    (∀ r, (q.ask ttl (cacheAfter ttl qs)).1 = .ok r →
      FromLatestMiss ttl (qs ++ [q]) q.teamId q.forTeam r) ∧
    (∀ e, (q.ask ttl (cacheAfter ttl qs)).1 = .error e → ∃ operation, e = .overflow operation) ∧
    (q.found (cacheAfter ttl qs) ≠ none → ∀ (τ : Type) (b : Backend τ) (st : τ), ∃ around,
      (report ttl q.teamId q.forTeam).run b () st (q.around (cacheAfter ttl qs)) =
        ((q.ask ttl (cacheAfter ttl qs)).1, (), st, around)) ∧
    ∀ e ∈ (cacheAfter ttl qs).entries, ∃ r : LimitReport, e.1 = cacheKey r.teamId r.forTeam ∧
      (Json.ofText? e.2.value).bind ofJson? = some r ∧
      ∀ teamId forTeam, e.1 = cacheKey teamId forTeam → teamId = r.teamId ∧ forTeam = r.forTeam := by
  refine ⟨fun r hr => ?answers, fun e he => ?errors, fun hfound τ b st => ?store, fun e he => ?entries⟩
  case answers =>
    cases hfound : q.found (cacheAfter ttl qs) with
    | some text =>
      obtain ⟨r', hread, hlatest⟩ := found_of_latest_miss hqs hfound
      rw [Question.ask_of_found hq hfound, hread] at hr
      cases hr
      exact hlatest.concat fun _ => by rw [hfound]; exact Option.some_ne_none text
    | none =>
      rw [Question.ask_of_missed hq.1 hfound] at hr
      cases hresult : q.evaluated with
      | error operation =>
        rw [hresult] at hr
        cases hr
      | ok r' =>
        rw [hresult] at hr
        cases hr
        exact .of_missed hfound hresult
  case errors =>
    cases hfound : q.found (cacheAfter ttl qs) with
    | some text =>
      obtain ⟨r', hread, -⟩ := found_of_latest_miss hqs hfound
      rw [Question.ask_of_found hq hfound, hread] at he
      cases he
    | none =>
      rw [Question.ask_of_missed hq.1 hfound] at he
      cases hresult : q.evaluated with
      | error operation =>
        rw [hresult] at he
        cases he
        exact ⟨operation, rfl⟩
      | ok r' =>
        rw [hresult] at he
        cases he
  case store =>
    obtain ⟨text, htext⟩ := Option.ne_none_iff_exists'.1 hfound
    have hget : ((q.around (cacheAfter ttl qs)).cacheGet (cacheKey q.teamId q.forTeam)).1 =
        .ok (some text) := congrArg Except.ok htext
    rw [Question.ask_of_found hq htext, run_report_of_found b () st hq.1 hget]
    exact ⟨_, rfl⟩
  case entries =>
    obtain ⟨asked, r, hasked, hr, hkey, hvalue, -⟩ := accounted ttl hqs e he
    obtain ⟨hteam, hfor⟩ := Question.teams_of_evaluated hr
    rw [hteam, hfor] at hkey
    refine ⟨r, hkey, ?_, fun t f ht => cacheKey_injective (ht.symm.trans hkey)⟩
    rw [hvalue]
    exact Question.ofText?_of_evaluated hasked hr

/-- Team 2 asks team 1 for credit at some time, in a session that has made some changes. -/
def askedAt (uptime : Cache.Nanoseconds) (changes : Changes) : Question :=
  { teamId := 1, forTeam := 2, ledger := {}, session := { Ledger.begin {} |>.1 with changes },
    clock := ⟨.ofSecond 0⟩, uptime }

/-- The first session has an invoice pending, the others have none. The second one is told of the debt
all the same, the third one, for whom the answer has expired, is not. -/
theorem answer_of_latest_miss_expired : ∃ (debt : Changes) (old new : LimitReport),
    (∀ q ∈ [askedAt 0 debt], q.Valid) ∧ (askedAt 30 {}).Valid ∧
    ((askedAt 30 {}).ask 60 (cacheAfter 60 [askedAt 0 debt])).1 = .ok old ∧
    FromLatestMiss 60 [askedAt 0 debt, askedAt 30 {}] 1 2 old ∧
    (askedAt 100 {}).Valid ∧
    ((askedAt 100 {}).ask 60 (cacheAfter 60 [askedAt 0 debt, askedAt 30 {}])).1 = .ok new ∧
    FromLatestMiss 60 [askedAt 0 debt, askedAt 30 {}, askedAt 100 {}] 1 2 new ∧
    old.unpaidAmount = ⟨50, 0, by decide, by decide⟩ ∧ new.unpaidAmount = .zero := by
  let new : NewInvoice :=
    { fromTeam := 2
      toTeam := 1
      kind := .product
      amount := ⟨50, 0, by decide, by decide⟩
      created := .ofSecond 0 }
  let debt : Changes := ((Ledger.begin {}).1.putInvoice (new.withId 1)).changes
  have valid (uptime : Cache.Nanoseconds) (changes : Changes) : (askedAt uptime changes).Valid := by
    show (1 : Ident) ≠ 0 ∧ FitsId 1 ∧ FitsId 2
    decide
  have first : ∀ q ∈ [askedAt 0 debt], q.Valid := List.forall_mem_singleton.2 (valid 0 debt)
  have second : ∀ q ∈ [askedAt 0 debt, askedAt 30 {}], q.Valid :=
    List.forall_mem_cons.2 ⟨valid 0 debt, List.forall_mem_singleton.2 (valid 30 {})⟩
  have hold : ((askedAt 30 {}).ask 60 (cacheAfter 60 [askedAt 0 debt])).1 =
      .ok ⟨1, 2, ⟨50, 0, by decide, by decide⟩, .zero, none, true⟩ := by decide +kernel
  have hnew : ((askedAt 100 {}).ask 60 (cacheAfter 60 [askedAt 0 debt, askedAt 30 {}])).1 =
      .ok ⟨1, 2, .zero, .zero, none, true⟩ := by decide +kernel
  exact ⟨debt, _, _, first, valid 30 {}, hold, (answer_of_latest_miss 60 first (valid 30 {})).1 _ hold,
    valid 100 {}, hnew, (answer_of_latest_miss 60 second (valid 100 {})).1 _ hnew, rfl, rfl⟩

end

end CreditLimit

end TeamLedger
