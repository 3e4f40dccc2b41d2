/-
Readjusting an order again and again.

A round is a session by itself: it begins, takes its turn and commits. With
nobody else at work every round goes through, and the rounds all leave the same
balance, because what is paid stays paid. As long as the target is not below
what has been paid the rounds converge: each cancels the invoice of the one
before and puts its own in its place.

Beyond that they do not. What has been paid too much is owed in the other
direction, where no round looks, so every round adds an invoice over the whole
difference.
-/
import TeamLedger.Proofs.Commit
import TeamLedger.Proofs.Converging

set_option autoImplicit false

namespace TeamLedger

open Readjustment

variable {r : Readjustment} {order : Ident} {t u : Tables}

/-! ## What rounds leave -/

/-- What `n` rounds leave of an order that had nothing open in the other direction. -/
structure Readjustment.Rounded (r : Readjustment) (order : Ident) (owed : Int) (n : Nat) (t : Tables) :
    Prop where
  balance : r.balance order t = owed
  forward : n ≠ 0 → t.Owes r.fromTeam r.toTeam order owed
  settled : 0 ≤ owed → t.openBetween r.toTeam r.fromTeam order = []
  backward : owed < 0 → (t.openBetween r.toTeam r.fromTeam order).length = n ∧
    ∀ i ∈ t.openBetween r.toTeam r.fromTeam order, i.status = .notPaid ∧ i.amount.units = -owed

/-- **One more round.** -/
theorem Readjustment.Rounded.leaves {owed : Int} {n : Nat} {set added : List Invoice}
    (h : r.Rounded order owed n t) (hl : r.Leaves order t set added u) (ht : t.Keyed)
    (hr : r.Ordered order) : r.Rounded order owed (n + 1) u := by
  have hstores := hl.stores
  have howes := hl.owes ht hr
  rw [h.balance] at hstores howes
  have hmem (i : Invoice) := hl.mem_open_backward ht hr (i := i)
  refine ⟨(hl.balance_eq ht).trans h.balance, fun _ => howes, fun hnonneg => ?_, fun hneg => ?_⟩
  · -- nothing is stored in the other direction
    refine List.eq_nil_iff_forall_not_mem.2 fun i hi => ?_
    rcases (hmem i).1 hi with ⟨hadded, hback⟩ | hold
    · cases hstores with
      | nothing => cases hadded
      | forward j _ _ _ between =>
        cases List.mem_singleton.1 hadded
        exact between.ne_back hr.apart hback
      | backward j hneg => omega
    · rw [h.settled hnonneg] at hold
      cases hold
  · obtain ⟨hlength, hold⟩ := h.backward hneg
    cases hstores with
    | nothing hzero => omega
    | forward i hpos => omega
    | backward i _ status amount between =>
      have fresh : i ∉ t.openBetween r.toTeam r.fromTeam order := by
        intro hi
        cases (hl.fresh i List.mem_cons_self).symm.trans ((Tables.mem_openBetween ht).1 hi).1
      have perm : (u.openBetween r.toTeam r.fromTeam order).Perm
          (i :: t.openBetween r.toTeam r.fromTeam order) := by
        refine (List.perm_ext_iff_of_nodup (Tables.nodup_openBetween (hl.keyed ht))
          (List.nodup_cons.2 ⟨fresh, Tables.nodup_openBetween ht⟩)).2 fun j => ?_
        rw [hmem, List.mem_singleton, List.mem_cons]
        constructor
        · exact Or.imp_left And.left
        · rintro (rfl | hj)
          · exact .inl ⟨rfl, between⟩
          · exact .inr hj
      refine ⟨by rw [perm.length_eq, List.length_cons, hlength], fun j hj => ?_⟩
      rcases List.mem_cons.1 (perm.mem_iff.1 hj) with rfl | hj
      · exact ⟨status, amount⟩
      · exact hold j hj

/-! ## A round -/

/-- **A turn without a break** goes through, if no invoice is locked by another session. -/
theorem Readjustment.Ordered.turn_run (hr : r.Ordered order) {l : Ledger} {s : Session} (hl : l.Hosts s)
    (hchanges : s.changes = {}) (hfree : ∀ id other, l.locks ⟨.invoice, id⟩ = some other → other = s.id)
    (hexact : r.Exact (l.tables.paidBetween r.fromTeam r.toTeam order)) (around : Surroundings) :
    GoesThrough r order l.tables l.versions
      (((r.turn order) []).run Session.backend (l, s) around).1.1
      (((r.turn order) []).run Session.backend (l, s) around).2.1.2 := by
  obtain ⟨next, turn_eq, hnext, -⟩ := r.turn_eq order []
  rw [turn_eq]
  rcases hr.inside hl hchanges hexact.unrounded with
    ⟨-, id, other, hheld, hne⟩ | ⟨rows, hrows, hinside⟩
  · exact absurd (hfree id other hheld) hne
  have hgrants := s.answer_ledger l (.find .invoice (.ofPair r.fromTeam r.toTeam order))
  have ends := hinside.assures
  rw [hgrants.tables, hgrants.versions, ← hnext, ← hrows] at ends
  rcases ends.run (Session.backend.respond (l, s) around (.store (.find .invoice _))).2.2 hgrants.tables
    (hl.answer (.find .invoice (.ofPair r.fromTeam r.toTeam order))) with goes | ⟨-, hinexact⟩
  · exact goes
  · exact absurd hexact hinexact

/-- A round by itself, in a session with a name: the session begins, takes its turn and commits. There is
no world afterwards if the turn or the commit fails. -/
def World.round (r : Readjustment) (order : Ident) (w : World) (name : String) : Option World := do
  let (turn, w) ← (w.begin name).run name none ((r.turn order) [])
  match turn, w.commit name with
  | (.ok _, _), (.ok _, w) => some w
  | _, _ => none

theorem World.begin_free {w : World} (hfree : ∀ k, w.ledger.locks k = none) (name : String)
    (k : LockKey) : (w.begin name).ledger.locks k = none := by
  show (w.rollback name).ledger.locks k = none
  rw [ledger_rollback]
  cases w.open? name with
  | none => exact hfree k
  | some s => exact Ledger.release_own (.inl (hfree k))

/-- **A round goes through** when nothing is locked. -/
theorem World.round_leaves {w : World} (hw : w.Sound) (hfree : ∀ k, w.ledger.locks k = none)
    (hr : r.Ordered order) (hexact : r.Exact (w.ledger.tables.paidBetween r.fromTeam r.toTeam order))
    (name : String) : ∃ w' set added, w.round r order name = some w' ∧ w'.Sound ∧
      (∀ k, w'.ledger.locks k = none) ∧
      r.Leaves order w.ledger.tables set added w'.ledger.tables := by
  have hbegin := hw.begin name
  have tables_begin := w.tables_begin name
  have hopened : (w.begin name).open? name = some (w.rollback name).ledger.begin.1 := by
    rw [open?_begin, if_pos rfl]
  have hhosts : (w.begin name).ledger.Hosts (w.rollback name).ledger.begin.1 :=
    ⟨hbegin.keyed, hbegin.within, hbegin.fits name _ hopened⟩
  -- the turn
  obtain ⟨⟨⟨result, set⟩, w₁⟩, hrun⟩ := Option.isSome_iff_exists.1
    (((w.begin name).run_isSome name ((r.turn order) [])).trans (by rw [hopened]; rfl))
  obtain ⟨s, l, s', around', hs, hp, rfl, hopen⟩ := run_eq_some hrun
  cases hopened.symm.trans hs
  obtain ⟨hgrants, honward, -⟩ := Program.run_leads ((r.turn order) []) (w.begin name).around hhosts
  have goes := hr.turn_run hhosts rfl
    (fun id other hheld => nomatch (begin_free hfree name _).symm.trans hheld)
    (by rwa [tables_begin]) (w.begin name).around
  rw [hp] at hgrants honward goes
  rw [← hgrants.tables, ← hgrants.versions] at goes
  -- the commit
  have hclosing : w₁.open? name = some s' := by
    rw [hopen, if_pos rfl]
  obtain ⟨committed, locks_eq, set', added, -, hleaves⟩ := GoesThrough.commit goes hclosing
  obtain ⟨outcome, hresult⟩ := goes.1
  cases show result = .ok outcome from hresult
  rw [hgrants.tables, tables_begin] at hleaves
  have sound_commit := (hbegin.run hrun).commit name
  generalize hcommit : w₁.commit name = x at committed locks_eq hleaves sound_commit
  obtain ⟨_, w'⟩ := x
  cases committed
  refine ⟨w', set', added, ?_, sound_commit, fun k => ?_, hleaves⟩
  · simp only [round, hrun, Option.bind_eq_bind, Option.bind_some, hcommit]
  · rw [show w'.ledger.locks = _ from locks_eq]
    refine Ledger.release_own ?_
    rcases hgrants.locks k with hk | ⟨hk, -⟩
    · exact .inl (hk.trans (begin_free hfree name k))
    · exact .inr (hk.trans (congrArg some honward.id.symm))

/-! ## Many rounds -/

namespace World

variable {w : World}

/-- **All rounds go through**, and they leave what their number tells. -/
theorem rounds_leave {owed : Int} {n : Nat} (hw : w.Sound) (hfree : ∀ k, w.ledger.locks k = none)
    (hr : r.Ordered order) (hexact : r.Exact (w.ledger.tables.paidBetween r.fromTeam r.toTeam order))
    (h : r.Rounded order owed n w.ledger.tables) (names : List String) :
    ∃ w', names.foldlM (World.round r order) w = some w' ∧
      r.Rounded order owed (n + names.length) w'.ledger.tables := by
  induction names generalizing w n with
  | nil => exact ⟨w, rfl, h⟩
  | cons name names ih =>
    obtain ⟨w₁, set, added, hround, hw₁, hfree₁, hleaves⟩ := round_leaves hw hfree hr hexact name
    have hexact₁ := hexact.perm (hleaves.paid_perm hw.keyed)
    obtain ⟨w', hrounds, hrounded⟩ := ih hw₁ hfree₁ hexact₁ (h.leaves hleaves hw.keyed hr)
    refine ⟨w', ?_, ?_⟩
    · rw [List.foldlM_cons, hround]
      exact hrounds
    · rw [List.length_cons, Nat.add_comm names.length, ← Nat.add_assoc]
      exact hrounded

/-- **What rounds come to.** Let nothing be locked, and nothing be open from the second team to the first
for the order. Then any number of rounds of one readjustment go through. Afterwards the first team owes
what the target is above the paid sum, by one unpaid invoice, or nothing. As long as the target is not
below the paid sum the second team owes nothing; but if it is, there are as many unpaid invoices over
the whole difference as there were rounds. -/
theorem rounds_owe_once_forward {around : Surroundings} {log : List Note} (h : Logged around w log)
    (hfree : ∀ k, w.ledger.locks k = none) (hr : r.Ordered order)
    (hexact : r.Exact (w.ledger.tables.paidBetween r.fromTeam r.toTeam order))
    (hback : w.ledger.tables.openBetween r.toTeam r.fromTeam order = []) {names : List String}
    (hsome : names ≠ []) : ∃ w', names.foldlM (World.round r order) w = some w' ∧
      w'.ledger.tables.Owes r.fromTeam r.toTeam order (r.balance order w.ledger.tables) ∧
      (0 ≤ r.balance order w.ledger.tables →
        w'.ledger.tables.openBetween r.toTeam r.fromTeam order = []) ∧
      (r.balance order w.ledger.tables < 0 →
        (w'.ledger.tables.openBetween r.toTeam r.fromTeam order).length = names.length ∧
        ∀ i ∈ w'.ledger.tables.openBetween r.toTeam r.fromTeam order,
          i.status = .notPaid ∧ i.amount.units = -r.balance order w.ledger.tables) := by
  have before : r.Rounded order (r.balance order w.ledger.tables) 0 w.ledger.tables := by
    refine ⟨rfl, fun hne => absurd rfl hne, fun _ => hback, fun _ => ?_⟩
    rw [hback]
    exact ⟨rfl, fun i hi => nomatch hi⟩
  obtain ⟨w', hrounds, hrounded⟩ := rounds_leave h.traced.sound hfree hr hexact before names
  rw [Nat.zero_add] at hrounded
  refine ⟨w', hrounds, hrounded.forward ?_, hrounded.settled, hrounded.backward⟩
  exact fun hzero => hsome (List.eq_nil_of_length_eq_zero hzero)

/-- Five have been paid and the target is three. After two rounds two invoices over two are open, from the
second team to the first. -/
theorem rounds_owe_once_forward_overpaid : ∃ w w' log,
    Logged { clock := ⟨⟨0, 0, by decide⟩⟩ } w log ∧
      ["first", "second"].foldlM (World.round ⟨1, 2, ⟨3, 0, by decide, by decide⟩, none, some 7⟩ 7) w =
        some w' ∧ (w'.ledger.tables.openBetween 2 1 7).length = 2 := by
  have stored : Logged { clock := ⟨⟨0, 0, by decide⟩⟩ } _ _ :=
    ((Logged.start.step (.begin "seed")).step (.call "seed" (.insertInvoice
      { (default : NewInvoice) with
        fromTeam := 1, toTeam := 2, status := .paid, orderId := some 7,
        amount := ⟨5, 0, by decide, by decide⟩ }))).step (.commit "seed")
  have exact_five (five : Invoice) (hfive : five.amount = ⟨5, 0, by decide, by decide⟩) :
      (⟨1, 2, ⟨3, 0, by decide, by decide⟩, none, some 7⟩ : Readjustment).Exact [five] := by
    intro is his
    cases List.perm_singleton.1 his
    rw [List.map_singleton, hfive, Invoice.sumUnits, List.foldr_cons, hfive]
    exact ⟨⟨⟨-2, 0, by decide, by decide⟩, rfl, by decide⟩, ⟨5, 0, by decide, by decide⟩, rfl⟩
  have ordered : (⟨1, 2, ⟨3, 0, by decide, by decide⟩, none, some 7⟩ : Readjustment).Ordered 7 :=
    ⟨by decide, by decide, by decide, rfl, by decide⟩
  obtain ⟨w', hrounds, -, -, hback⟩ := rounds_owe_once_forward stored (fun k => rfl) ordered
    (exact_five _ rfl) rfl (show ["first", "second"] ≠ [] by decide)
  exact ⟨_, w', _, stored, hrounds, (hback (by decide)).1⟩

end World

end TeamLedger
