/-
What a program assures, whatever others do between its requests.

A session is alone with its changes, but not with the ledger: between two of its
requests any number of ids may be handed out and locks be given to others, and
the clock goes on. `Assures` is the condition under which a program, going on in
a session, ends as it should all the same. It goes along the program, request by
request, and every request may meet another ledger; only what is committed has
to be the same at all of them.

So it fits a session that holds the locks that matter. A session that runs
without a break is the special case in which every request meets the ledger that
the one before has left (`Assures.run`). The rules for services are used from
the end of what is to be shown: each takes one construct off the front.
-/
import TeamLedger.Proofs.Effects

set_option autoImplicit false

namespace TeamLedger

variable {α β σ : Type} {t : Tables} {s : Session}

/-! ## Programs -/

namespace Program

/-- The program, going on in the session, ends as `Q` tells, if the committed tables are `t` whenever it
asks for something. -/
def Assures (t : Tables) (Q : α → Session → Prop) : Program α → Session → Prop
  | .done a, s => Q a s
  | .ask request next, s => ∀ (l : Ledger) (around : Surroundings), l.tables = t → l.Hosts s →
      (next (Session.backend.respond (l, s) around request).1).Assures t Q
        (Session.backend.respond (l, s) around request).2.1.2

theorem Assures.bind {Q : β → Session → Prop} {p : Program α} {f : α → Program β}
    (h : p.Assures t (fun a s => (f a).Assures t Q s) s) : (p.bind f).Assures t Q s := by
  induction p generalizing s with
  | done a => exact h
  | ask request next ih => exact fun l around ht hl => ih _ (h l around ht hl)

theorem Assures.mono {Q Q' : α → Session → Prop} (hq : ∀ a s, Q a s → Q' a s) {p : Program α}
    (h : p.Assures t Q s) : p.Assures t Q' s := by
  induction p generalizing s with
  | done a => exact hq a s h
  | ask request next ih => exact fun l around ht hl => ih _ (h l around ht hl)

/-- **Without a break** the program ends as it assures. -/
theorem Assures.run {Q : α → Session → Prop} {p : Program α} (h : p.Assures t Q s) {l : Ledger}
    (around : Surroundings) (ht : l.tables = t) (hl : l.Hosts s) :
    Q (p.run Session.backend (l, s) around).1 (p.run Session.backend (l, s) around).2.1.2 := by
  induction p generalizing l s around with
  | done a => exact h
  | ask request next ih =>
    obtain ⟨hgrants, -, hhosts⟩ := (Program.request request).run_leads around hl
    exact ih _ (h l around ht hl) _ (hgrants.tables.trans ht) hhosts

end Program

/-! ## Services -/

namespace Service

variable {st : σ}

/-- The service, going on in the session, ends as `Q` tells of its result, its state and the session. -/
def Assures (t : Tables) (Q : Except Failure α → σ → Session → Prop) (p : Service σ α) (st : σ)
    (s : Session) : Prop :=
  (p st).Assures t (fun x s => Q x.1 x.2 s) s

variable {Q : Except Failure β → σ → Session → Prop}

theorem Assures.bind {p : Service σ α} {f : α → Service σ β}
    (h : p.Assures t (fun r st s => match r with
      | .ok a => (f a).Assures t Q st s
      | .error e => Q (.error e) st s) st s) : (p >>= f).Assures t Q st s := by
  unfold Assures
  rw [bind_apply]
  refine Program.Assures.bind (Program.Assures.mono ?_ h)
  -- a failure ends the whole, a result goes on with the rest
  rintro ⟨r | r, st'⟩ s' h
  · exact h
  · exact h

theorem Assures.pure {Q : Except Failure α → σ → Session → Prop} {a : α} (h : Q (.ok a) st s) :
    (Pure.pure a : Service σ α).Assures t Q st s := h

theorem Assures.get_bind {f : σ → Service σ β} (h : (f st).Assures t Q st s) :
    ((MonadState.get : Service σ σ) >>= f).Assures t Q st s :=
  Assures.bind (p := (MonadState.get : Service σ σ)) h

theorem Assures.set_bind {st' : σ} {f : PUnit → Service σ β} (h : (f ⟨⟩).Assures t Q st' s) :
    ((MonadStateOf.set st' : Service σ PUnit) >>= f).Assures t Q st s :=
  Assures.bind (p := (MonadStateOf.set st' : Service σ PUnit)) h

theorem Assures.modify_bind {g : σ → σ} {f : PUnit → Service σ β}
    (h : (f ⟨⟩).Assures t Q (g st) s) :
    ((modify g : Service σ PUnit) >>= f).Assures t Q st s :=
  Assures.bind (p := (modify g : Service σ PUnit)) h

theorem Assures.ofMoney_bind {m : Except Money.Overflow α} {a : α} {f : α → Service σ β}
    (hm : m = .ok a) (h : (f a).Assures t Q st s) :
    (Service.ofMoney m >>= f).Assures t Q st s := by
  rw [hm]
  exact Assures.bind (p := Service.ofMoney (.ok a)) h

/-- An overflow ends the whole. -/
theorem Assures.ofMoney_bind_error {m : Except Money.Overflow α} {operation : Money.Overflow}
    {f : α → Service σ β} (hm : m = .error operation) (h : Q (.error (.overflow operation)) st s) :
    (Service.ofMoney m >>= f).Assures t Q st s := by
  rw [hm]
  exact Assures.bind (p := Service.ofMoney (.error operation)) h

/-- The clock may show any time. -/
theorem Assures.now_bind {f : Instant → Service σ β} (h : ∀ now, (f now).Assures t Q st s) :
    ((Service.now : Service σ Instant) >>= f).Assures t Q st s :=
  Assures.bind (p := (Service.now : Service σ Instant)) fun _ around _ _ => h around.now.1

theorem Assures.count_bind {metric : Metric} {label : String} {f : Unit → Service σ β}
    (h : (f ()).Assures t Q st s) :
    ((Service.count metric label : Service σ Unit) >>= f).Assures t Q st s :=
  Assures.bind (p := (Service.count metric label : Service σ Unit)) fun _ _ _ _ => h

/-- **A call that writes** leaves its writes in the session. What it answers, and under which id it
writes a new row, depends on the ledger that it meets. -/
theorem Assures.write_bind {c : StoreCall} {f : c.Answer → Service σ β} (hc : c.reads = false)
    (h : ∀ l : Ledger, l.tables = t → l.Hosts s → ∃ a, (s.answer l c).1 = .ok a ∧
      (f a).Assures t Q st (s.writeAll (s.writes l c))) :
    (Service.call c >>= f).Assures t Q st s := by
  have call_eq : (Service.call c : Service σ c.Answer) st =
      .ask (.store c) fun answer => .done (answer, st) := by
    refine congrArg (Program.ask (.store c)) (funext fun answer => ?_)
    cases answer <;> rfl
  refine Assures.bind ?_
  unfold Assures
  rw [call_eq]
  intro l around ht hl
  obtain ⟨a, ha, hrest⟩ := h l ht hl
  have session_eq := hl.answer_session c
  rw [hc, if_neg Bool.false_ne_true] at session_eq
  -- the answer is passed on
  show Program.Assures t _ (.done ((s.answer l c).1, st)) (s.answer l c).2.2
  rw [ha, session_eq]
  exact hrest

end Service

end TeamLedger
