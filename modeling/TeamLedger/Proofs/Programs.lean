/-
How a service runs in a session.

`Ends` is the relation between the beginning and the end of a service that runs
in a session of the ledger: the result, the service's own state, the ledger and
the session. The clock, the cache and the counters are left open on both sides.
Nothing that a service writes depends on the last two, and the clock may show
any time.

A proof about a service reads it from the front: each construct of a service has
one lemma that tells what its ending says about its parts, so a service is taken
apart with `obtain` and never unfolded into its interaction tree. What every
call preserves, every program preserves (`Program.run_preserves`).
-/
import TeamLedger.Proofs.Answers

set_option autoImplicit false

namespace TeamLedger

namespace Program

variable {α β σ : Type}

/-- Running a program and then another with its result. -/
theorem run_bind (b : Backend σ) (p : Program α) (f : α → Program β) (st : σ) (s : Surroundings) :
    (p.bind f).run b st s =
      (f (p.run b st s).1).run b (p.run b st s).2.1 (p.run b st s).2.2 := by
  induction p generalizing st s with
  | done a => rfl
  | ask request next ih => exact ih _ _ _

/-- A store that is told to fail at no call answers like the store itself. -/
theorem run_failing_none (b : Backend σ) (p : Program α) (st : σ) (s : Surroundings) :
    p.run b.failing (st, none) s =
      ((p.run b st s).1, ((p.run b st s).2.1, none), (p.run b st s).2.2) := by
  induction p generalizing st s with
  | done a => rfl
  | ask request next ih =>
    have respond_eq : b.failing.respond (st, none) s request =
        ((b.respond st s request).1, ((b.respond st s request).2.1, none),
          (b.respond st s request).2.2) := by
      cases request <;> rfl
    simp only [run, respond_eq]
    exact ih _ _ _

/-- **What every call preserves, every program preserves.** -/
theorem run_preserves {P : Ledger → Session → Prop}
    (step : ∀ l s c, P l s → P (s.answer l c).2.1 (s.answer l c).2.2) (p : Program α) {l : Ledger}
    {s : Session} (around : Surroundings) (h : P l s) :
    P (p.run Session.backend (l, s) around).2.1.1 (p.run Session.backend (l, s) around).2.1.2 := by
  induction p generalizing l s around with
  | done a => exact h
  | ask request next ih =>
    cases request with
    | store c => exact ih _ _ (step l s c h)
    -- the clock, the counters and the cache leave the ledger and the session alone
    | now | count _ _ | cacheGet _ | cachePut _ _ _ => exact ih _ _ h

end Program

namespace Service

variable {σ α β : Type}

/-- The service, begun in a state by a session, may end with a result, a state, and the ledger and
the session as they are then. -/
def Ends (p : Service σ α) (before : σ × Ledger × Session) (result : Except Failure α)
    (after : σ × Ledger × Session) : Prop :=
  ∃ around around', (p before.1).run Session.backend before.2 around =
    ((result, after.1), after.2, around')

variable {x y : σ × Ledger × Session}

theorem bind_apply (p : Service σ α) (f : α → Service σ β) (s : σ) :
    (p >>= f) s = (p s).bind fun rs => match rs with
      | (.ok a, s') => f a s'
      | (.error e, s') => .done (.error e, s') := by
  refine congrArg (Program.bind (p s)) (funext fun rs => ?_)
  obtain ⟨r | r, s'⟩ := rs <;> rfl

/-- The first part of a service ends the whole with its failure, or the rest goes on where it
ended. -/
theorem Ends.bind {p : Service σ α} {f : α → Service σ β} {r : Except Failure β}
    (h : (p >>= f).Ends x r y) :
    (∃ e, r = .error e ∧ p.Ends x (.error e) y) ∨ ∃ a z, p.Ends x (.ok a) z ∧ (f a).Ends z r y := by
  obtain ⟨around, around', h⟩ := h
  rw [bind_apply, Program.run_bind] at h
  generalize hz : (p x.1).run Session.backend x.2 around = z at h
  obtain ⟨⟨result, st⟩, b, mid⟩ := z
  cases result with
  | error e =>
    cases h
    exact .inl ⟨e, rfl, around, _, hz⟩
  | ok a => exact .inr ⟨a, (st, b), ⟨around, mid, hz⟩, mid, around', h⟩

/-- A service that asks for nothing ends where it began. -/
theorem Ends.of_done {p : Service σ α} {r r' : Except Failure α} {st : σ}
    (hp : p x.1 = .done (r', st)) (h : p.Ends x r y) : r = r' ∧ y = (st, x.2) := by
  obtain ⟨around, around', h⟩ := h
  rw [hp, Program.run, Prod.mk.injEq, Prod.mk.injEq, Prod.mk.injEq] at h
  obtain ⟨⟨hr, hst⟩, hb, -⟩ := h
  exact ⟨hr.symm, Prod.ext hst.symm hb.symm⟩

theorem Ends.pure {a : α} {r : Except Failure α} (h : (Pure.pure a : Service σ α).Ends x r y) :
    r = .ok a ∧ y = x :=
  Ends.of_done rfl h

theorem Ends.throw {e : Failure} {r : Except Failure α}
    (h : (MonadExcept.throw e : Service σ α).Ends x r y) : r = .error e ∧ y = x :=
  Ends.of_done rfl h

theorem Ends.refuse {e : LedgerError} {r : Except Failure α}
    (h : (Service.refuse e : Service σ α).Ends x r y) : r = .error (.refused e) ∧ y = x :=
  Ends.throw h

theorem Ends.get {r : Except Failure σ} (h : (MonadState.get : Service σ σ).Ends x r y) :
    r = .ok x.1 ∧ y = x :=
  Ends.of_done rfl h

theorem Ends.modify {f : σ → σ} {r : Except Failure PUnit}
    (h : (modify f : Service σ PUnit).Ends x r y) : r = .ok ⟨⟩ ∧ y = (f x.1, x.2) :=
  Ends.of_done rfl h

theorem Ends.set {s : σ} {r : Except Failure PUnit}
    (h : (MonadStateOf.set s : Service σ PUnit).Ends x r y) : r = .ok ⟨⟩ ∧ y = (s, x.2) :=
  Ends.of_done rfl h

theorem Ends.now {r : Except Failure Instant} (h : (Service.now : Service σ Instant).Ends x r y) :
    (∃ t, r = .ok t) ∧ y = x := by
  obtain ⟨around, around', h⟩ := h
  replace h : (((.ok around.now.1, x.1), x.2, around.now.2) :
    (Except Failure Instant × σ) × (Ledger × Session) × Surroundings) = _ := h
  rw [Prod.mk.injEq, Prod.mk.injEq, Prod.mk.injEq] at h
  obtain ⟨⟨hr, hst⟩, hb, -⟩ := h
  exact ⟨⟨_, hr.symm⟩, Prod.ext hst.symm hb.symm⟩

theorem Ends.count {metric : Metric} {label : String} {r : Except Failure Unit}
    (h : (Service.count metric label : Service σ Unit).Ends x r y) : r = .ok () ∧ y = x := by
  obtain ⟨around, around', h⟩ := h
  replace h : (((.ok (), x.1), x.2, _) :
    (Except Failure Unit × σ) × (Ledger × Session) × Surroundings) = _ := h
  rw [Prod.mk.injEq, Prod.mk.injEq, Prod.mk.injEq] at h
  obtain ⟨⟨hr, hst⟩, hb, -⟩ := h
  exact ⟨hr.symm, Prod.ext hst.symm hb.symm⟩

/-- **A call ends with the session's answer.** -/
theorem Ends.call {c : StoreCall} {r : Except Failure c.Answer} {st : σ} {l : Ledger} {s : Session}
    (h : (Service.call c).Ends (st, l, s) r y) :
    r = (s.answer l c).1 ∧ y = (st, (s.answer l c).2) := by
  -- the answer is passed on as it is, a failure too
  have call_eq : (Service.call c : Service σ c.Answer) st =
      .ask (.store c) fun answer => .done (answer, st) := by
    refine congrArg (Program.ask (.store c)) (funext fun answer => ?_)
    cases answer <;> rfl
  obtain ⟨around, around', h⟩ := h
  rw [call_eq] at h
  replace h : ((((s.answer l c).1, st), (s.answer l c).2, _) :
    (Except Failure c.Answer × σ) × (Ledger × Session) × Surroundings) = _ := h
  rw [Prod.mk.injEq, Prod.mk.injEq, Prod.mk.injEq] at h
  obtain ⟨⟨hr, hst⟩, hb, -⟩ := h
  exact ⟨hr.symm, Prod.ext hst.symm hb.symm⟩

end Service

end TeamLedger
