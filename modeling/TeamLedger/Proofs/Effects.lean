/-
What the parts of a service do.

A service is taken apart once, along its own text: each rule here takes one
construct off the front of a service that has ended, and says what it has left of
the ledger, the session and the state. A query is answered as the session's commit
would leave the tables, and the session sees them so from then on; a call that
writes leaves its writes in the session. A service that has only read is
`Service.Untouched`.

The services themselves are described with these rules, each in a module of its
own.
-/
import TeamLedger.Proofs.Selecting
import TeamLedger.Proofs.Taking

set_option autoImplicit false

namespace TeamLedger

/-! ## Parts of services -/

/-- Locking is refused over a lock that another session holds. -/
theorem Ledger.lock_refused {l : Ledger} {session : SessionId} {root : Root} {ids : List Ident}
    {e : LedgerError} (h : l.lock session root ids = .error e) :
    ∃ id ∈ ids, ∃ other, l.locks ⟨root, id⟩ = some other ∧ other ≠ session := by
  unfold Ledger.lock at h
  split at h
  next id hfind =>
    have taken := List.find?_some hfind
    cases hlock : l.locks ⟨root, id⟩ with
    | none =>
      rw [hlock] at taken
      cases taken
    | some other =>
      rw [hlock] at taken
      exact ⟨id, List.mem_of_find?_eq_some hfind, other, hlock, by simpa using taken⟩
  next => cases h

/-- A row that a query would lock is locked by another session. -/
def Query.Blocked {root : Root} (q : Query root) (l : Ledger) (s : Session) : Prop :=
  q.locked = true ∧ ∃ row ∈ q.select (l.tables.apply s.changes), ∃ other,
    l.locks ⟨root, root.idOf row⟩ = some other ∧ other ≠ s.id

/-- A query is refused over a lock, or it answers the rows as the session sees them now, and then it has
locked them if it was to. -/
theorem Session.answer_find {root : Root} (l : Ledger) (s : Session) (q : Query root) :
    (∃ e, (s.answer l (.find root q)).1 = .error e) ∧ q.Blocked l s ∨
      (s.answer l (.find root q)).1 = .ok (root.inOrder (q.select (l.tables.apply s.changes))) ∧
      (q.locked = true → ∀ row ∈ q.select (l.tables.apply s.changes),
        (s.answer l (.find root q)).2.1.locks ⟨root, root.idOf row⟩ = some s.id) := by
  simp only [Session.answer, Session.find]
  split
  next hlocked =>
    split
    next l' hlock =>
      refine .inr ⟨rfl, fun _ row hrow => ?_⟩
      unfold Ledger.lock at hlock
      split at hlock
      · cases hlock
      · cases hlock
        exact if_pos ⟨rfl, List.mem_map_of_mem hrow⟩
    next e hlock =>
      obtain ⟨id, hid, hheld⟩ := Ledger.lock_refused hlock
      obtain ⟨row, hrow, rfl⟩ := List.mem_map.1 hid
      exact .inl ⟨⟨_, rfl⟩, hlocked, row, hrow, hheld⟩
  next hunlocked => exact .inr ⟨rfl, fun hlocked => absurd hlocked hunlocked⟩

/-- All that a query does to the ledger is to take locks. -/
theorem Session.find_ledger {root : Root} (q : Query root) (l : Ledger) (s : Session) :
    (find q l s).2.1 = { l with locks := (find q l s).2.1.locks } := by
  unfold find
  dsimp only
  split
  · split
    next l' hlock =>
      unfold Ledger.lock at hlock
      split at hlock
      · cases hlock
      · cases hlock
        rfl
    next => rfl
  · rfl

/-- Reading at a ledger where no more than ids and locks have been granted is reading at the first. -/
theorem Session.refresh_of_grants {l l' : Ledger} {id : SessionId} (hl : l.Grants id l') (s : Session) :
    s.refresh l' = s.refresh l := by
  unfold refresh
  rw [hl.tables, hl.versions]

/-- Reading twice, with only ids and locks granted in between, is reading once. -/
theorem Session.refresh_refresh {l l' : Ledger} {s : Session} {id : SessionId}
    (hl : l.Grants id l') : (s.refresh l).refresh l' = s.refresh l := by
  rw [refresh_of_grants hl]
  unfold refresh
  refine congrArg (fun base => (⟨s.id, l.tables, base, s.changes⟩ : Session)) (funext fun k => ?_)
  dsimp only
  split <;> rfl

namespace Service

variable {σ α β : Type} {st : σ} {l : Ledger} {s : Session} {x y : σ × Ledger × Session}
  {r : Except Failure β}

/-- The service has ended as it began: its own state is what it was, nothing was written, and no id was
handed out. The session may have a new snapshot, and locks. -/
structure Untouched (st : σ) (l : Ledger) (s : Session) (y : σ × Ledger × Session) : Prop where
  state : y.1 = st
  session : y.2.2 = s ∨ y.2.2 = s.refresh l
  ledger : y.2.1 = { l with locks := y.2.1.locks }

namespace Untouched

theorem refl (st : σ) (l : Ledger) (s : Session) : Untouched st l s (st, l, s) := ⟨rfl, .inl rfl, rfl⟩

theorem changes (h : Untouched st l s y) : y.2.2.changes = s.changes := by
  rcases h.session with hs | hs <;> rw [hs]
  rfl

theorem session_eq {l' : Ledger} {id : SessionId} (hl : l.Grants id l')
    (h : Untouched st l' (s.refresh l) y) : y.2.2 = s.refresh l := by
  rcases h.session with hs | hs
  · exact hs
  · exact hs.trans (Session.refresh_refresh hl)

/-- The same holds from before a read. -/
theorem of_read {l' : Ledger} {id : SessionId} (hl : l.Grants id l')
    (hledger : l' = { l with locks := l'.locks }) (h : Untouched st l' (s.refresh l) y) :
    Untouched st l s y where
  state := h.state
  session := .inr (h.session_eq hl)
  ledger := by
    rw [h.ledger, hledger]

end Untouched

theorem Ends.pure_bind {a : α} {f : α → Service σ β}
    (h : ((Pure.pure a : Service σ α) >>= f).Ends x r y) : (f a).Ends x r y := by
  rcases h.bind with ⟨e, -, hpure⟩ | ⟨a', z, hpure, hrest⟩
  · cases hpure.pure.1
  · obtain ⟨ha, rfl⟩ := hpure.pure
    cases ha
    exact hrest

theorem Ends.throw_bind {e : Failure} {f : α → Service σ β}
    (h : ((MonadExcept.throw e : Service σ α) >>= f).Ends x r y) : r = .error e ∧ y = x := by
  rcases h.bind with ⟨e', rfl, hthrow⟩ | ⟨a, z, hthrow, -⟩
  · obtain ⟨he, hy⟩ := hthrow.throw
    cases he
    exact ⟨rfl, hy⟩
  · cases hthrow.throw.1

/-- A check either ends the service or lets it go on. -/
theorem Ends.unless {c : Prop} [Decidable c] {e : LedgerError} {f : PUnit → Service σ β}
    (h : (if c then (Service.refuse e : Service σ PUnit) >>= f else f ⟨⟩).Ends x r y) :
    (r = .error (.refused e) ∧ y = x ∧ c) ∨ ¬ c ∧ (f ⟨⟩).Ends x r y := by
  by_cases hc : c
  · rw [if_pos hc] at h
    obtain ⟨hr, hy⟩ := Ends.throw_bind (e := .refused e) h
    exact .inl ⟨hr, hy, hc⟩
  · rw [if_neg hc] at h
    exact .inr ⟨hc, h⟩

theorem Ends.get_bind {f : σ → Service σ β}
    (h : ((MonadState.get : Service σ σ) >>= f).Ends x r y) : (f x.1).Ends x r y := by
  rcases h.bind with ⟨e, -, hget⟩ | ⟨a, z, hget, hrest⟩
  · cases hget.get.1
  · obtain ⟨ha, rfl⟩ := hget.get
    cases ha
    exact hrest

theorem modify_bind {g : σ → σ} {f : PUnit → Service σ β}
    (h : ((modify g : Service σ PUnit) >>= f).Ends x r y) : (f ⟨⟩).Ends (g x.1, x.2) r y := by
  rcases h.bind with ⟨e, -, hmodify⟩ | ⟨a, z, hmodify, hrest⟩
  · cases hmodify.modify.1
  · obtain ⟨-, rfl⟩ := hmodify.modify
    exact hrest

theorem Ends.set_bind {s' : σ} {f : PUnit → Service σ β}
    (h : ((MonadStateOf.set s' : Service σ PUnit) >>= f).Ends x r y) :
    (f ⟨⟩).Ends (s', x.2) r y := by
  rcases h.bind with ⟨e, -, hset⟩ | ⟨a, z, hset, hrest⟩
  · cases hset.set.1
  · obtain ⟨-, rfl⟩ := hset.set
    exact hrest

theorem Ends.now_bind {f : Instant → Service σ β}
    (h : ((Service.now : Service σ Instant) >>= f).Ends x r y) : ∃ t, (f t).Ends x r y := by
  rcases h.bind with ⟨e, -, hnow⟩ | ⟨t, z, hnow, hrest⟩
  · obtain ⟨⟨t, ht⟩, -⟩ := hnow.now
    cases ht
  · obtain ⟨-, rfl⟩ := hnow.now
    exact ⟨t, hrest⟩

theorem Ends.count_bind {metric : Metric} {label : String} {f : Unit → Service σ β}
    (h : ((Service.count metric label : Service σ Unit) >>= f).Ends x r y) : (f ()).Ends x r y := by
  rcases h.bind with ⟨e, -, hcount⟩ | ⟨a, z, hcount, hrest⟩
  · cases hcount.count.1
  · obtain ⟨-, rfl⟩ := hcount.count
    exact hrest

theorem Ends.ofMoney_bind {α : Type} {m : Except Money.Overflow α} {f : α → Service σ β}
    (h : (Service.ofMoney m >>= f).Ends x r y) :
    (∃ operation, m = .error operation ∧ r = .error (.overflow operation) ∧ y = x) ∨
      ∃ a, m = .ok a ∧ (f a).Ends x r y := by
  cases m with
  | ok a => exact .inr ⟨a, rfl, h.pure_bind⟩
  | error operation =>
    obtain ⟨hr, hy⟩ := Ends.throw_bind h
    exact .inl ⟨operation, rfl, hr, hy⟩

/-- **Reading.** The session has a new snapshot, and unless another one holds a lock it gets the rows
as it sees them now. -/
theorem Ends.find {root : Root} {q : Query root} {r : Except Failure (List root.Row)}
    (h : (Service.call (.find root q)).Ends (st, l, s) r y) :
    ∃ l', y = (st, l', s.refresh l) ∧ l' = { l with locks := l'.locks } ∧
      ((∃ e, r = .error e) ∧ q.Blocked l s ∨
        r = .ok (root.inOrder (q.select (l.tables.apply s.changes))) ∧
        (q.locked = true → ∀ row ∈ q.select (l.tables.apply s.changes),
          l'.locks ⟨root, root.idOf row⟩ = some s.id)) := by
  obtain ⟨rfl, rfl⟩ := h.call
  exact ⟨_, Prod.ext rfl (Prod.ext rfl (s.find_session q l)), s.find_ledger q l, s.answer_find l q⟩

theorem Ends.find_bind {root : Root} {q : Query root} {f : List root.Row → Service σ β}
    (h : (Service.call (.find root q) >>= f).Ends (st, l, s) r y) (hl : l.Hosts s) :
    ∃ l', l' = { l with locks := l'.locks } ∧ l.Grants s.id l' ∧ l'.Hosts (s.refresh l) ∧
      (((∃ e, r = .error e) ∧ y = (st, l', s.refresh l) ∧ q.Blocked l s) ∨
        (q.locked = true → ∀ row ∈ q.select (l.tables.apply s.changes),
          l'.locks ⟨root, root.idOf row⟩ = some s.id) ∧
        (f (root.inOrder (q.select (l.tables.apply s.changes)))).Ends (st, l', s.refresh l) r y) := by
  rcases h.bind with ⟨e, rfl, hfind⟩ | ⟨rows, z, hfind, hrest⟩
  · obtain ⟨hgrants, -, hhosts⟩ := hfind.leads hl
    obtain ⟨l', rfl, hledger, ⟨-, hblocked⟩ | ⟨hrows, -⟩⟩ := hfind.find
    · exact ⟨l', hledger, hgrants, hhosts, .inl ⟨⟨e, rfl⟩, rfl, hblocked⟩⟩
    · cases hrows
  · obtain ⟨hgrants, -, hhosts⟩ := hfind.leads hl
    obtain ⟨l', rfl, hledger, ⟨⟨e, he⟩, -⟩ | ⟨hrows, hlocks⟩⟩ := hfind.find
    · cases he
    · cases hrows
      exact ⟨l', hledger, hgrants, hhosts, .inr ⟨hlocks, hrest⟩⟩

/-- **Writing.** A call that does not read leaves its writes in the session. -/
theorem Ends.write {c : StoreCall} {r : Except Failure c.Answer}
    (h : (Service.call c).Ends (st, l, s) r y) (hl : l.Hosts s) (hc : c.reads = false)
    {ps : List Put} (hps : s.writes l c = ps) :
    r = (s.answer l c).1 ∧ y.1 = st ∧ y.2.2 = s.writeAll ps := by
  obtain ⟨rfl, rfl⟩ := h.call
  refine ⟨rfl, rfl, ?_⟩
  show (s.answer l c).2.2 = _
  rw [hl.answer_session c, hc, if_neg Bool.false_ne_true, hps]

theorem Ends.write_bind {c : StoreCall} {f : c.Answer → Service σ β}
    (h : (Service.call c >>= f).Ends (st, l, s) r y) (hl : l.Hosts s) (hc : c.reads = false)
    {a : c.Answer} (ha : (s.answer l c).1 = .ok a) {ps : List Put} (hps : s.writes l c = ps) :
    ∃ l', l.Grants s.id l' ∧ l'.Hosts (s.writeAll ps) ∧
      (f a).Ends (st, l', s.writeAll ps) r y := by
  rcases h.bind with ⟨e, -, hcall⟩ | ⟨b, z, hcall, hrest⟩
  · obtain ⟨he, -, -⟩ := hcall.write hl hc hps
    rw [ha] at he
    cases he
  · obtain ⟨hgrants, -, hhosts⟩ := hcall.leads hl
    obtain ⟨hb, hst, hs⟩ := hcall.write hl hc hps
    rw [ha] at hb
    cases hb
    obtain ⟨_, l', _⟩ := z
    cases hst
    cases hs
    exact ⟨l', hgrants, hhosts, hrest⟩

end Service

theorem Session.revisions_append (s : Session) (f : Invoice → Option Invoice) (ids ids' : List Ident) :
    s.revisions f (ids ++ ids') = s.revisions f ids ++ s.revisions f ids' := by
  rw [revisions, List.filterMap_append, List.map_append]
  rfl

/-- A change that may be made again changes the same rows after it has been made to some. -/
theorem Session.revisions_writeAll {s : Session} {f : Invoice → Option Invoice}
    (hs : s.view.invoices.KeyedBy Invoice.id)
    (hf : ∀ i j, f i = some j → j.id = i.id ∧ f j = some j) (ids ids' : List Ident) :
    (s.writeAll (s.revisions f ids)).revisions f ids' = s.revisions f ids' := by
  refine congrArg (List.map Put.invoice) (List.filterMap_congr fun id _ => ?_)
  rw [s.view_writeAll (by simp [revisions])]
  rcases Tables.invoice_putAll s.view (s.revisions f ids) id with ⟨hget, -⟩ | ⟨i, hi, rfl, hget⟩
  · rw [hget]
  · obtain ⟨j, hj, hji⟩ := List.mem_map.1 hi
    cases hji
    obtain ⟨id', -, hi⟩ := List.mem_filterMap.1 hj
    obtain ⟨row, hrow, hfrow⟩ := Option.bind_eq_some_iff.1 hi
    obtain ⟨hid, hfi⟩ := hf row i hfrow
    have hid' : i.id = id' := hid.trans (hs _ _ hrow)
    rw [hget, hid', hrow, Option.bind_some, Option.bind_some, hfi, hfrow]

/-- The changes that `f` makes to invoices as they are seen. -/
theorem Session.revisions_eq {s : Session} {f : Invoice → Option Invoice} {g : Invoice → Invoice}
    {is : List Invoice} (h : ∀ i ∈ is, s.view.invoices.get? i.id = some i ∧ f i = some (g i)) :
    s.revisions f (is.map (·.id)) = is.map fun i => .invoice (g i) := by
  unfold revisions
  rw [List.filterMap_map]
  induction is with
  | nil => rfl
  | cons i is ih =>
    have hi : ((fun id => (s.view.invoices.get? id).bind f) ∘ (·.id)) i = some (g i) := by
      obtain ⟨hget, hf⟩ := h i List.mem_cons_self
      simp only [Function.comp_apply, hget, Option.bind_some, hf]
    rw [List.filterMap_cons_some hi, List.map_cons, List.map_cons,
      ih fun j hj => h j (List.mem_cons_of_mem _ hj)]

/-- What a session's commit would leave, after writes. -/
theorem Session.apply_writeAll {l l' : Ledger} {s : Session} {id : SessionId}
    (hl : l.Grants id l') {ps : List Put} (h : ∀ x, Put.limit x ∉ ps) :
    l'.tables.apply (s.writeAll ps).changes = (l.tables.apply s.changes).putAll ps := by
  rw [hl.tables]
  exact l.tables.apply_putAll s.changes h

end TeamLedger
