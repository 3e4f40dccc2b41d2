/-
What a service comes to, as equations.

Where a service can only go one way (the state and the answers are known), its
result and what it leaves behind are computed, construct by construct, from the
front. The equations hold over every store, so they also say which constructs do
not ask the store for anything.
-/
import TeamLedger.Proofs.Programs

set_option autoImplicit false

namespace TeamLedger.Service

variable {σ τ α β : Type} (b : Backend τ) (s : σ) (st : τ) (around : Surroundings)

/-- **The rest goes on where the first part ends**, and not at all after a failure. -/
theorem run_bind (p : Service σ α) (f : α → Service σ β) :
    (p >>= f).run b s st around = match p.run b s st around with
      | (.ok a, s', st', around') => (f a).run b s' st' around'
      | (.error e, s', st', around') => (.error e, s', st', around') := by
  unfold run
  rw [bind_apply, Program.run_bind]
  obtain ⟨⟨r, s'⟩, st', around'⟩ := (p s).run b st around
  cases r <;> rfl

theorem run_pure (a : α) : (pure a : Service σ α).run b s st around = (.ok a, s, st, around) := rfl

theorem run_get : (get : Service σ σ).run b s st around = (.ok s, s, st, around) := rfl

theorem run_count (metric : Metric) (label : String) :
    (count metric label : Service σ Unit).run b s st around =
      (.ok (), s, st, { around with metrics := around.metrics.bump metric label }) := rfl

/-- The answer is passed on as it is, a failure too. -/
theorem run_request (r : Request) :
    (request r : Service σ r.Answer).run b s st around =
      (.ok (b.respond st around r).1, s, (b.respond st around r).2) := rfl

theorem run_call (c : StoreCall) :
    (call c : Service σ c.Answer).run b s st around =
      ((b.answer c st around.metrics).1, s, (b.answer c st around.metrics).2.1,
        { around with metrics := (b.answer c st around.metrics).2.2 }) := by
  unfold call
  rw [run_bind, run_request]
  simp only [Backend.respond]
  cases (b.answer c st around.metrics).1 <;> rfl

/-- A session answers. -/
theorem run_call_session {c : StoreCall} {a : Except Failure c.Answer} {l l' : Ledger}
    {ses ses' : Session} (h : ses.answer l c = (a, l', ses')) :
    ∃ metrics, (call c : Service σ c.Answer).run Session.backend s (l, ses) around =
      (a, s, (l', ses'), { around with metrics }) := by
  rw [run_call]
  simp only [Session.backend, h]
  exact ⟨_, rfl⟩

theorem run_cacheGet (key : String) :
    (cacheGet key : Service σ (Option String)).run b s st around =
      ((around.cacheGet key).1, s, st, (around.cacheGet key).2) := by
  unfold cacheGet
  rw [run_bind, run_request]
  simp only [Backend.respond]
  cases (around.cacheGet key).1 <;> rfl

theorem run_cachePut (key value : String) (ttl : Cache.Nanoseconds) :
    (cachePut key value ttl : Service σ Unit).run b s st around =
      ((around.cachePut key value ttl).1, s, st, (around.cachePut key value ttl).2) := by
  unfold cachePut
  rw [run_bind, run_request]
  simp only [Backend.respond]
  cases (around.cachePut key value ttl).1 <;> rfl

/-- The program of a service ends as the service. -/
theorem program_run {s s' : σ} {p : Service σ α} {b : Backend τ} {st st' : τ} {r : Except Failure α}
    {around around' : Surroundings} (h : p.run b s st around = (r, s', st', around')) :
    (p s).run b st around = ((r, s'), st', around') := by
  unfold run at h
  generalize (p s).run b st around = z at h
  obtain ⟨⟨r, s'⟩, st', around'⟩ := z
  cases h
  rfl

/-- What a session has run has ended as it came out. -/
theorem Ends.of_run {s : σ} {p : Service σ α} {l l' : Ledger} {ses ses' : Session} {s' : σ}
    {r : Except Failure α} {around around' : Surroundings}
    (h : p.run Session.backend s (l, ses) around = (r, s', (l', ses'), around')) :
    p.Ends (s, l, ses) r (s', l', ses') :=
  ⟨around, around', program_run h⟩

end TeamLedger.Service
