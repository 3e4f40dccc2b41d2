/-
The cache as a map whose values expire.

What a cache answers can be told from the calls made before, without knowing what
it has dropped in between: it is the value stored last under the key, as long as
that counts (`latest?`, `Deposit.Counts`). Entries go in three ways. One that is
asked for too late is dropped, storing anything drops all that have expired, and
storing under the same key puts another entry in its place. Only the last of these
can be noticed. A cache that drops nothing else would give the same answers, and
so would one that tidies up now and then (`Local.answers_eq_expected`).

What carries this is that a cache follows the calls made so far (`Local.Follows`).
An entry is always the one stored last under its key, so nothing that was
overwritten comes back. And whatever was stored last under its key and still counts
is among the entries. The clock never goes back, so an entry that has been dropped
would not have counted again.
-/
import Mathlib.Data.Finset.Card
import TeamLedger.Proofs.CachedReports

set_option autoImplicit false

namespace TeamLedger

namespace Cache

/-! ## Calls -/

/-- A value stored under a key at some moment, for a length of time. -/
structure Deposit where
  now : Nanoseconds
  key : String
  value : String
  ttl : Nanoseconds
deriving DecidableEq, Repr

/-- What is stored counts at a moment: its time is not over by then, or would not be over before the
clock ends. -/
def Deposit.Counts (d : Deposit) (t : Nanoseconds) : Prop :=
  t < d.now + d.ttl ∨ lastMoment < d.now + d.ttl

instance (d : Deposit) (t : Nanoseconds) : Decidable (d.Counts t) := inferInstanceAs (Decidable (_ ∨ _))

/-- A call to the cache. -/
inductive Call
  | get (now : Nanoseconds) (key : String)
  | put (d : Deposit)
deriving DecidableEq, Repr

/-- The moment of a call. -/
def Call.now : Call → Nanoseconds
  | get now _ => now
  | put d => d.now

/-- What a call stores under a key. -/
def Call.deposit? (key : String) : Call → Option Deposit
  | get .. => none
  | put d => if d.key = key then some d else none

/-- What calls have stored last under a key. -/
def latest? (calls : List Call) (key : String) : Option Deposit :=
  calls.reverse.findSome? (Call.deposit? key)

/-- No call is made before those that stand in front of it. -/
def InOrder (calls : List Call) : Prop := calls.Pairwise fun a b => a.now ≤ b.now

instance (calls : List Call) : Decidable (InOrder calls) :=
  inferInstanceAs (Decidable (calls.Pairwise _))

/-- The keys under which something was stored that counts, unless something else was stored there
later. -/
def liveKeys (calls : List Call) (t : Nanoseconds) : Finset String :=
  (calls.filterMap fun
    | .get .. => none
    | .put d => some d.key).toFinset.filter fun key => ∃ d ∈ latest? calls key, d.Counts t

/-- What is to be answered to a call after others: what they have stored last, if it counts. A call
that stores something has no answer. -/
def Call.expected (past : List Call) : Call → Option String
  | get now key => ((latest? past key).filter (·.Counts now)).map Deposit.value
  | put _ => none

/-- What is to be answered to calls, one after the other. -/
def expectedAll (past : List Call) : List Call → List (Option String)
  | [] => []
  | c :: calls => c.expected past :: expectedAll (past ++ [c]) calls

/-! ## Caches that tidy up, and caches that do not -/

/-- The entry that is made for what is stored. -/
def Deposit.entry (d : Deposit) : Entry :=
  ⟨d.value, if d.now + d.ttl ≤ lastMoment then some (d.now + d.ttl) else none⟩

namespace Local

/-- Answers a call. -/
def perform (c : Local) : Call → Option String × Local
  | .get now key => c.get now key
  | .put d => (none, c.put d.now d.key d.value d.ttl)

/-- Answers a call, and drops nothing except what it overwrites. -/
def performOnly (c : Local) : Call → Option String × Local
  | .get now key => ((c.get now key).1, c)
  | .put d => (none, ⟨c.entries.filter (·.1 ≠ d.key) ++ [(d.key, d.entry)]⟩)

/-- The cache after calls. -/
def after (calls : List Call) : Local := calls.foldl (fun c call => (c.perform call).2) {}

end Local

/-- A call, and whether the cache takes the occasion to tidy up. -/
structure Turn where
  call : Call
  tidies : Bool := true
deriving DecidableEq, Repr

namespace Local

/-- Answers a call, and tidies up or not. -/
def take (c : Local) (t : Turn) : Option String × Local :=
  if t.tidies then c.perform t.call else c.performOnly t.call

/-- The answers to calls, one after the other. -/
def answers (c : Local) : List Turn → List (Option String)
  | [] => []
  | t :: turns => (c.take t).1 :: (c.take t).2.answers turns

end Local

/-! ## What was stored last -/

section

variable {calls : List Call} {call : Call} {d : Deposit} {key : String} {s t : Nanoseconds}

theorem Deposit.Counts.of_le (h : d.Counts t) (hst : s ≤ t) : d.Counts s :=
  h.imp_left (Nat.lt_of_le_of_lt hst)

theorem Deposit.isLive_entry : d.entry.isLive t = true ↔ d.Counts t := by
  unfold entry Entry.isLive Counts
  split
  next hfits =>
    rw [Option.all_some, decide_eq_true_eq]
    exact ⟨Or.inl, fun h => h.resolve_right (Nat.not_lt.2 hfits)⟩
  next hbeyond => exact iff_of_true rfl (.inr (Nat.lt_of_not_le hbeyond))

theorem latest?_concat :
    latest? (calls ++ [call]) key = (call.deposit? key).or (latest? calls key) := by
  unfold latest?
  rw [List.reverse_append, List.reverse_singleton, List.singleton_append, List.findSome?_cons]
  cases call.deposit? key <;> rfl

theorem latest?_concat_put_self : latest? (calls ++ [.put d]) d.key = some d := by
  rw [latest?_concat, Call.deposit?, if_pos rfl, Option.some_or]

theorem latest?_concat_put_of_ne (h : d.key ≠ key) :
    latest? (calls ++ [.put d]) key = latest? calls key := by
  rw [latest?_concat, Call.deposit?, if_neg h, Option.none_or]

/-- What was stored last under a key was stored by one of the calls. -/
theorem put_mem_of_latest? (h : latest? calls key = some d) : Call.put d ∈ calls ∧ d.key = key := by
  obtain ⟨call, hcall, hd⟩ := List.exists_of_findSome?_eq_some h
  cases call with
  | get now k => cases hd
  | put d' =>
    rw [Call.deposit?] at hd
    split at hd
    next hkey =>
      cases hd
      exact ⟨List.mem_reverse.1 hcall, hkey⟩
    · cases hd

theorem mem_liveKeys : key ∈ liveKeys calls t ↔ ∃ d, latest? calls key = some d ∧ d.Counts t := by
  unfold liveKeys
  rw [Finset.mem_filter, List.mem_toFinset]
  refine ⟨And.right, fun h => ⟨?_, h⟩⟩
  obtain ⟨d, hd, -⟩ := h
  obtain ⟨hmem, rfl⟩ := put_mem_of_latest? hd
  exact List.mem_filterMap.2 ⟨.put d, hmem, rfl⟩

end

/-! ## Following the calls -/

namespace Local

/-- Each key has one entry, which is the one stored last under it, and all that was stored last and
counts at the moment has its entry. -/
structure Follows (c : Local) (calls : List Call) (now : Nanoseconds) : Prop where
  nodup : (c.entries.map Prod.fst).Nodup
  latest : ∀ e ∈ c.entries, (latest? calls e.1).map Deposit.entry = some e.2
  counting : ∀ key d, latest? calls key = some d → d.Counts now → (key, d.entry) ∈ c.entries

variable {c : Local} {calls : List Call} {now t : Nanoseconds} {key : String}

theorem follows_empty : Follows {} [] 0 where
  nodup := List.nodup_nil
  latest _ he := nomatch he
  counting _ _ hd := nomatch hd

theorem Follows.mono (h : c.Follows calls now) (ht : now ≤ t) : c.Follows calls t where
  nodup := h.nodup
  latest := h.latest
  counting key d hd hcounts := h.counting key d hd (hcounts.of_le ht)

/-- **What is answered** follows from the calls. -/
theorem Follows.get_fst (h : c.Follows calls t) :
    (c.get t key).1 = ((latest? calls key).filter (·.Counts t)).map Deposit.value := by
  unfold get
  cases hlookup : c.entries.lookup key with
  | none =>
    -- there is no entry, so nothing that was stored under the key counts
    have hnone : ∀ d, latest? calls key = some d → ¬ d.Counts t := fun d hd hcounts => by
      simpa using List.lookup_eq_none_iff.1 hlookup _ (h.counting key d hd hcounts)
    cases hlatest : latest? calls key with
    | none => rfl
    | some d => rw [Option.filter_some, if_neg (by simpa using hnone d hlatest)]; rfl
  | some e =>
    obtain ⟨front, back, hentries, -⟩ := List.lookup_eq_some_iff.1 hlookup
    obtain ⟨d, hd, rfl⟩ := Option.map_eq_some_iff.1 (h.latest (key, e) (by simp [hentries]))
    dsimp only at hd ⊢
    rw [hd, Option.filter_some]
    by_cases hcounts : d.Counts t
    · rw [if_pos (Deposit.isLive_entry.2 hcounts), if_pos (by simpa using hcounts)]
      rfl
    · rw [if_neg (mt Deposit.isLive_entry.1 hcounts), if_neg (by simpa using hcounts)]
      rfl

/-- Entries that have expired may be dropped. -/
theorem Follows.drop (h : c.Follows calls t) {p : String × Entry → Bool}
    (hp : ∀ e ∈ c.entries, e.2.isLive t = true → p e = true) :
    Follows ⟨c.entries.filter p⟩ calls t where
  nodup := h.nodup.sublist (List.filter_sublist.map _)
  latest e he := h.latest e (List.mem_filter.1 he).1
  counting key d hd hcounts :=
    List.mem_filter.2 ⟨h.counting key d hd hcounts,
      hp _ (h.counting key d hd hcounts) (Deposit.isLive_entry.2 hcounts)⟩

/-- Something is stored in place of what was there, and expired entries may be dropped. -/
theorem Follows.overwrite {d : Deposit} (h : c.Follows calls d.now) {p : String × Entry → Bool}
    (hp : ∀ e, e.2.isLive d.now = true → p e = true) :
    Follows ⟨c.entries.filter (fun e => p e && e.1 ≠ d.key) ++ [(d.key, d.entry)]⟩ (calls ++ [.put d])
      d.now where
  nodup := by
    rw [List.map_append, List.nodup_append_comm]
    refine List.nodup_cons.2 ⟨fun hmem => ?_, h.nodup.sublist (List.filter_sublist.map _)⟩
    obtain ⟨e, he, hkey⟩ := List.mem_map.1 hmem
    simpa [hkey] using (List.mem_filter.1 he).2
  latest e he := by
    rcases List.mem_append.1 he with he | he
    · obtain ⟨he, hkept⟩ := List.mem_filter.1 he
      have hne : d.key ≠ e.1 := by
        rintro hkey
        simp [hkey] at hkept
      rw [latest?_concat_put_of_ne hne]
      exact h.latest e he
    · cases List.mem_singleton.1 he
      rw [latest?_concat_put_self]
      rfl
  counting key d' hd' hcounts := by
    by_cases hkey : d.key = key
    · subst hkey
      rw [latest?_concat_put_self] at hd'
      cases hd'
      exact List.mem_append_right _ List.mem_cons_self
    · rw [latest?_concat_put_of_ne hkey] at hd'
      refine List.mem_append_left _ (List.mem_filter.2 ⟨h.counting key d' hd' hcounts, ?_⟩)
      simpa [Ne.symm hkey] using hp _ (Deposit.isLive_entry.2 hcounts)

/-- **One call**, whether or not the cache tidies up: the answer follows from the calls before, and
the cache follows them and this one. -/
theorem Follows.take (h : c.Follows calls now) (turn : Turn) (hnow : now ≤ turn.call.now) :
    (c.take turn).1 = turn.call.expected calls ∧
      (c.take turn).2.Follows (calls ++ [turn.call]) turn.call.now := by
  obtain ⟨call, tidies⟩ := turn
  replace h := h.mono hnow
  cases call with
  | get t key =>
    -- looking something up stores nothing
    have grown {c' : Local} (h' : c'.Follows calls t) : c'.Follows (calls ++ [.get t key]) t := by
      refine ⟨h'.nodup, fun e he => ?_, fun k d hd => ?_⟩
      · rw [latest?_concat]
        exact h'.latest e he
      · rw [latest?_concat] at hd
        exact h'.counting k d hd
    cases tidies with
    | false => exact ⟨h.get_fst, grown h⟩
    | true =>
      refine ⟨h.get_fst, grown ?_⟩
      show (c.get t key).2.Follows calls t
      unfold Local.get
      split
      next e hlookup =>
        split
        · exact h
        next hexpired =>
          refine h.drop fun e' he' hlive => ?_
          -- the entry of the key has expired, so one that has not is another's
          obtain ⟨front, back, hentries, -⟩ := List.lookup_eq_some_iff.1 hlookup
          have he := h.latest (key, e) (by simp [hentries])
          have hne : e'.1 ≠ key := by
            rintro rfl
            rw [h.latest e' he'] at he
            cases he
            exact hexpired hlive
          simpa using hne
      · exact h
  | put d =>
    cases tidies with
    | true => exact ⟨rfl, h.overwrite fun e he => he⟩
    | false =>
      have hkept := h.overwrite (p := fun _ => true) fun _ _ => rfl
      simp only [Bool.true_and] at hkept
      exact ⟨rfl, hkept⟩

/-- **The answers to calls** follow from the calls, wherever the cache tidies up. -/
theorem Follows.answers_eq {turns : List Turn} (h : c.Follows calls now)
    (horder : InOrder (turns.map Turn.call)) (hnow : ∀ turn ∈ turns, now ≤ turn.call.now) :
    c.answers turns = expectedAll calls (turns.map Turn.call) := by
  induction turns generalizing c calls now with
  | nil => rfl
  | cons turn turns ih =>
    obtain ⟨hfirst, hrest⟩ := List.pairwise_cons.1 horder
    obtain ⟨hanswer, hafter⟩ := h.take turn (hnow turn List.mem_cons_self)
    rw [answers, List.map_cons, expectedAll, hanswer,
      ih hafter hrest fun t ht => hfirst t.call (List.mem_map_of_mem ht)]

theorem answers_eq_expected {turns : List Turn} (horder : InOrder (turns.map Turn.call)) :
    answers {} turns = expectedAll [] (turns.map Turn.call) :=
  follows_empty.answers_eq horder fun _ _ => Nat.zero_le _

theorem after_concat (calls : List Call) (call : Call) :
    after (calls ++ [call]) = ((after calls).perform call).2 := by
  unfold after
  rw [List.foldl_append]
  rfl

/-- A cache follows the calls that were made to it. -/
theorem follows_after (h : InOrder calls) (hnow : ∀ call ∈ calls, call.now ≤ now) :
    (after calls).Follows calls now := by
  induction calls using List.reverseRecOn generalizing now with
  | nil => exact follows_empty.mono (Nat.zero_le _)
  | append_singleton calls call ih =>
    obtain ⟨hfront, -, hlast⟩ := List.pairwise_append.1 h
    have hbefore : (after calls).Follows calls call.now :=
      ih hfront fun earlier he => hlast earlier he call List.mem_cons_self
    rw [after_concat]
    exact (hbefore.take ⟨call, true⟩ (Nat.le_refl _)).2.mono
      (hnow call (List.mem_append_right _ List.mem_cons_self))

/-! ## How many entries there are -/

theorem Follows.put {d : Deposit} (h : c.Follows calls d.now) :
    (c.put d.now d.key d.value d.ttl).Follows (calls ++ [.put d]) d.now :=
  (h.take ⟨.put d, true⟩ (Nat.le_refl _)).2

/-- Storing leaves the entries that count, and the one that was stored. -/
theorem mem_keys_put {d : Deposit} (h : c.Follows calls d.now) {key : String} :
    key ∈ (c.put d.now d.key d.value d.ttl).entries.map Prod.fst ↔
      key ∈ insert d.key (liveKeys (calls ++ [.put d]) d.now) := by
  rw [Finset.mem_insert, mem_liveKeys]
  constructor
  · intro hkey
    obtain ⟨e, he, rfl⟩ := List.mem_map.1 hkey
    rcases List.mem_append.1 he with hkept | hnew
    · obtain ⟨d', hd', hentry⟩ := Option.map_eq_some_iff.1 (h.put.latest e he)
      refine .inr ⟨d', hd', Deposit.isLive_entry.1 ?_⟩
      have := (List.mem_filter.1 hkept).2
      rw [hentry]
      exact (Bool.and_eq_true_iff.1 this).1
    · cases List.mem_singleton.1 hnew
      exact .inl rfl
  · rintro (rfl | ⟨d', hd', hcounts⟩)
    · exact List.mem_map.2 ⟨(d.key, d.entry), List.mem_append_right _ List.mem_cons_self, rfl⟩
    · exact List.mem_map.2 ⟨_, h.put.counting key d' hd' hcounts, rfl⟩

theorem size_put {d : Deposit} (h : c.Follows calls d.now) :
    (c.put d.now d.key d.value d.ttl).size =
      (liveKeys (calls ++ [.put d]) d.now).card + if d.Counts d.now then 0 else 1 := by
  have hkeys : ((c.put d.now d.key d.value d.ttl).entries.map Prod.fst).toFinset =
      insert d.key (liveKeys (calls ++ [.put d]) d.now) := by
    ext key
    rw [List.mem_toFinset, mem_keys_put h]
  have hlive : d.key ∈ liveKeys (calls ++ [.put d]) d.now ↔ d.Counts d.now := by
    rw [mem_liveKeys, latest?_concat_put_self]
    simp
  calc (c.put d.now d.key d.value d.ttl).size
      = ((c.put d.now d.key d.value d.ttl).entries.map Prod.fst).toFinset.card := by
        rw [List.toFinset_card_of_nodup h.put.nodup, List.length_map]
        rfl
    _ = _ := by
        rw [hkeys, Finset.card_insert_eq_ite]
        by_cases hcounts : d.Counts d.now
        · rw [if_pos (hlive.2 hcounts), if_pos hcounts, Nat.add_zero]
        · rw [if_neg (mt hlive.1 hcounts), if_neg hcounts]

/-! ## A map whose values expire -/

/-- **The cache is a map whose values expire, and tidying up cannot be noticed.** Whatever has been
stored and asked for, for whatever lengths of time: a value is found if and only if it was stored last
under its key and still counts. The answers to a number of calls are the same wherever on the way the
cache drops what has expired, be it everywhere or nowhere. And right after something was stored there
are as many entries as there are keys whose last value counts, and the entry just made if it does not
count itself. -/
theorem found_iff_latest_counts {calls : List Call} (h : InOrder calls) :
    (∀ before now key later, calls = before ++ .get now key :: later → ∀ value,
      ((after before).get now key).1 = some value ↔
        ∃ d, latest? before key = some d ∧ d.value = value ∧ d.Counts now) ∧
    (∀ turns, turns.map Turn.call = calls → answers {} turns = answers {} (calls.map (⟨·, true⟩))) ∧
    ∀ before d later, calls = before ++ .put d :: later →
      (after (before ++ [.put d])).size =
        (liveKeys (before ++ [.put d]) d.now).card + if d.Counts d.now then 0 else 1 := by
  -- up to any of the calls, the cache follows those before it
  have follows {before later : List Call} {call : Call} (hcalls : calls = before ++ call :: later) :
      (after before).Follows before call.now := by
    obtain ⟨hbefore, -, hnow⟩ := List.pairwise_append.1 (hcalls ▸ h)
    exact follows_after hbefore fun earlier he => hnow earlier he call List.mem_cons_self
  refine ⟨fun before now key later hcalls value => ?found, fun turns hturns => ?answers,
    fun before d later hcalls => ?size⟩
  case found =>
    have hfollows : (after before).Follows before now := follows hcalls
    rw [hfollows.get_fst, Option.map_eq_some_iff]
    simp only [Option.filter_eq_some_iff, decide_eq_true_eq]
    exact ⟨fun ⟨d, ⟨hd, hcounts⟩, hvalue⟩ => ⟨d, hd, hvalue, hcounts⟩,
      fun ⟨d, hd, hvalue, hcounts⟩ => ⟨d, ⟨hd, hcounts⟩, hvalue⟩⟩
  case answers =>
    have hall : (calls.map (⟨·, true⟩)).map Turn.call = calls := by
      rw [List.map_map]
      exact List.map_id calls
    rw [answers_eq_expected (hturns ▸ h), answers_eq_expected (hall.symm ▸ h), hturns, hall]
  case size =>
    rw [after_concat]
    exact size_put (follows hcalls)

/-- Four keys: what is stored under the first is replaced by something that expires sooner, what is
stored under the second never expires, and under the last something is stored for no time at all. -/
def mixedCalls : List Call :=
  [.put ⟨0, "a", "old", 100⟩, .put ⟨1, "b", "always", longest⟩, .put ⟨2, "a", "new", 3⟩,
    .put ⟨3, "c", "brief", 1⟩, .get 5 "a", .put ⟨6, "d", "never", 0⟩, .get 6 "b"]

/-- What was replaced does not come back, and of the two entries at the end one counts. -/
theorem found_iff_latest_counts_mixed :
    InOrder mixedCalls ∧ ((after (mixedCalls.take 4)).get 5 "a").1 = none ∧
      ((after (mixedCalls.take 6)).get 6 "b").1 = some "always" ∧
      answers {} (mixedCalls.map (⟨·, false⟩)) = answers {} (mixedCalls.map (⟨·, true⟩)) ∧
      (after (mixedCalls.take 6)).size = 2 := by
  have horder : InOrder mixedCalls := by decide
  obtain ⟨hfound, hanswers, hsize⟩ := found_iff_latest_counts horder
  refine ⟨horder, Option.eq_none_iff_forall_ne_some.2 fun value hvalue => ?_,
    (hfound (mixedCalls.take 6) 6 "b" [] rfl "always").2
      ⟨⟨1, "b", "always", longest⟩, by decide, rfl, by decide⟩,
    hanswers _ (by decide), (hsize (mixedCalls.take 5) ⟨6, "d", "never", 0⟩ [.get 6 "b"] rfl).trans
      (by decide)⟩
  obtain ⟨d, hd, -, hcounts⟩ :=
    (hfound (mixedCalls.take 4) 5 "a" [.put ⟨6, "d", "never", 0⟩, .get 6 "b"] rfl value).1 hvalue
  have hlatest : latest? (mixedCalls.take 4) "a" = some ⟨2, "a", "new", 3⟩ := by decide
  cases hlatest.symm.trans hd
  exact absurd hcounts (by decide)

end Local

end Cache

end TeamLedger
