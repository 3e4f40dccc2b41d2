/-
A batch that was rejected can be submitted again.

Rejecting takes back what creating has marked, but not what it has linked. The
links stay, and lead to a submission that is not under way any more, so creating
does not count them (`Batched.active_iff`). Marks matter to a query that asks for
them. One that asks for invoices without a mark finds the same ones again, if all
that rejecting has set free had no mark before (`Batched.exists_remarked`).

Links are not checked when they are stored, and so may have been linked to the
number of the submission before there was one. Rejecting sets these invoices free
as well, and then more is found than before (`World.reject_releases_prelinked`).
-/
import TeamLedger.Proofs.Releasing

set_option autoImplicit false

namespace TeamLedger

/-! ## Asking again -/

/-- The query may be asked again after the submission with the number has been created from `t` and
rejected: it does not join submissions, and it does not ask for marked invoices. If it asks for
invoices without a mark, then those that were linked to the number already had none. -/
structure Query.Repeatable (query : Query .invoice) (t : Tables) (id : Ident) : Prop where
  built : ∃ (root : Root) (locked : Bool) (chain : Chain root .invoice), query = build locked chain
  unjoined : query.tables.contains .submission = false
  not_marked : .hasSubmission true ∉ query.filters
  unmarked : .hasSubmission false ∈ query.filters → ∀ i ∈ t.linkedByAge id, i.hasSubmission = false

theorem Query.Repeatable.joins {query : Query .invoice} {t : Tables} {id : Ident}
    (h : query.Repeatable t id) : ∀ step ∈ query.plan, step.table ≠ .link ∧ step.table ≠ .submission := by
  obtain ⟨root, locked, chain, rfl⟩ := h.built
  exact (LinksLead.build locked chain).joins h.unjoined

namespace Workflow.Batched

variable {w : Workflow} {l : Ledger} {s : Session} {y : Workflow × Ledger × Session}
  {query : Query .invoice} {x : Submission} {active : List Ident} {taken : List Invoice}
  {e : LogEntry} {agent : Agent} {t' : Tables}

/-- Setting free what was linked, of the invoices as they were before or after the creation, is the
same. -/
theorem invoices_eq (h : Batched w l s y query x active taken e) (hl : l.Hosts s)
    (hreleases : ((l.tables.apply s.changes).putAll (x.batch taken e)).Releases t' agent x) :
    t'.invoices = (l.tables.apply s.changes).invoices.map
      (((l.tables.apply s.changes).putAll (x.batch taken e)).released x.id) := by
  rw [hreleases.invoices]
  refine Rows.ext_get? fun id => ?_
  rw [Rows.get?_map, Rows.get?_map]
  rcases Tables.invoice_putAll (l.tables.apply s.changes) (x.batch taken e) id with
    ⟨hsame, -⟩ | ⟨i, hi, rfl, hget⟩
  · rw [hsame]
  · -- an invoice that was marked has been linked as well, and is free again
    obtain ⟨j, hj, rfl⟩ := Submission.invoice_mem_batch.1 hi
    have hlink : ⟨j.id, x.id⟩ ∈ ((l.tables.apply s.changes).putAll (x.batch taken e)).links := by
      rw [Tables.putAll_links, Submission.links_batch]
      exact List.mem_append_right _ (List.mem_map_of_mem (List.mem_map_of_mem hj))
    rw [hget, show j.marked.id = j.id from rfl, h.there hl hj, Option.map_some, Option.map_some,
      Tables.released_of_mem (i := j.marked) hlink, Tables.released_of_mem hlink]
    rfl

/-- A query that asks for invoices without a mark has found none with a mark among those that are linked
to the submission. -/
theorem unmarked_of_link (h : Batched w l s y query x active taken e) (hl : l.Hosts s)
    (hquery : query.Repeatable (l.tables.apply s.changes) x.id)
    (hno : .hasSubmission false ∈ query.filters) {id : Ident} {i : Invoice}
    (hi : (l.tables.apply s.changes).invoices.get? id = some i)
    (hlink : ⟨i.id, x.id⟩ ∈ ((l.tables.apply s.changes).putAll (x.batch taken e)).links) :
    i.hasSubmission = false := by
  have hkeyed : (l.tables.apply s.changes).Keyed := hl.shown_keyed
  rw [Tables.putAll_links, Submission.links_batch, List.mem_append, List.mem_map] at hlink
  rcases hlink with hlink | ⟨k, hk, heq⟩
  · exact hquery.unmarked hno i (Tables.mem_linkedByAge.2 ⟨Rows.mem_values.2 ⟨id, hi⟩, hlink⟩)
  · obtain ⟨j, hj, rfl⟩ := List.mem_map.1 hk
    -- it is the invoice that was taken
    have id_eq : j.id = i.id := congrArg Link.invoiceId heq
    have there := h.there hl hj
    rw [id_eq, hkeyed.invoices id i hi, hi] at there
    rw [Option.some.inj there]
    exact Query.unmarked_of_mem_select hno
      ((Root.inOrder_perm .invoice _).mem_iff.1 (h.listed.subset hj))

/-- **The invoices are as they were before the creation**, but for marks. If the query asks for marks
they are the same. -/
theorem exists_remarked (h : Batched w l s y query x active taken e) (hl : l.Hosts s)
    (hquery : query.Repeatable (l.tables.apply s.changes) x.id)
    (hreleases : ((l.tables.apply s.changes).putAll (x.batch taken e)).Releases t' agent x) :
    ∃ mark, (l.tables.apply s.changes).Remarked mark t' ∧
      ∀ b, .hasSubmission b ∈ query.filters → ∀ i : Invoice, mark i = i.hasSubmission := by
  have invoices_eq := h.invoices_eq hl hreleases
  have teams_eq : t'.teams = (l.tables.apply s.changes).teams :=
    hreleases.teams.trans (Tables.putAll_teams ..)
  have histories_eq : t'.histories = (l.tables.apply s.changes).histories := by
    rw [hreleases.histories]
    refine Rows.ext_get? fun id => ?_
    rcases Tables.history_putAll (l.tables.apply s.changes) (x.batch taken e) id with
      ⟨hsame, -⟩ | ⟨hist, hmem, -⟩
    · exact hsame
    · simp [Submission.batch] at hmem
  -- if the query looks at marks then they have to be as before, if not then any rule will do
  by_cases hno : .hasSubmission false ∈ query.filters
  · refine ⟨(·.hasSubmission), ⟨?_, teams_eq, histories_eq⟩, fun _ _ _ => rfl⟩
    rw [invoices_eq]
    refine Rows.ext_get? fun id => ?_
    rw [Rows.get?_map, Rows.get?_map]
    refine Option.map_congr fun i hi => ?_
    rw [Invoice.remarked_eq_self rfl]
    by_cases hlink : ⟨i.id, x.id⟩ ∈
        ((l.tables.apply s.changes).putAll (x.batch taken e)).links
    · rw [Tables.released_of_mem hlink, ← h.unmarked_of_link hl hquery hno hi hlink]
    · exact Tables.released_of_not_mem hlink
  · refine ⟨fun i => i.hasSubmission && !decide (⟨i.id, x.id⟩ ∈
      ((l.tables.apply s.changes).putAll (x.batch taken e)).links),
      ⟨?_, teams_eq, histories_eq⟩, fun b hb => ?_⟩
    · rw [invoices_eq]
      refine congrArg _ (funext fun i => ?_)
      unfold Tables.released Invoice.remarked
      split
      next hlink => simp [hlink]
      next hlink => simp [hlink]
    · cases b with
      | false => exact absurd hb hno
      | true => exact absurd hb hquery.not_marked

/-- The same invoices are part of submissions under way. -/
theorem active_iff (h : Batched w l s y query x active taken e)
    (hreleases : ((l.tables.apply s.changes).putAll (x.batch taken e)).Releases t' agent x)
    (id : Ident) : t'.Active id ↔ (l.tables.apply s.changes).Active id := by
  have links_eq : t'.links =
      (l.tables.apply s.changes).links ++ (taken.map (·.id)).map (⟨·, x.id⟩) := by
    rw [hreleases.links, Tables.putAll_links, Submission.links_batch]
  have row_eq {z : Submission} (hz : z.id ≠ x.id) :
      t'.submissions.get? z.id = (l.tables.apply s.changes).submissions.get? z.id := by
    rw [hreleases.submissions z.id hz, Submission.heads_batch.get?_putAll, if_neg hz]
  constructor
  · rintro ⟨z, hlink, hrow, hstatus⟩
    by_cases hz : z.id = x.id
    · -- the submission is rejected
      rw [hz, hreleases.submission] at hrow
      cases hrow
      cases hstatus
    · rw [row_eq hz] at hrow
      rw [links_eq, List.mem_append] at hlink
      rcases hlink with hlink | hlink
      · exact ⟨z, hlink, hrow, hstatus⟩
      · -- the new links lead to the rejected one
        obtain ⟨i, -, heq⟩ := List.mem_map.1 hlink
        exact absurd (congrArg Link.submissionId heq).symm hz
  · rintro ⟨z, hlink, hrow, hstatus⟩
    -- a submission that was there before has another number
    have hz : z.id ≠ x.id := by
      intro heq
      rw [heq, h.new] at hrow
      cases hrow
    refine ⟨z, ?_, by rw [row_eq hz, hrow], hstatus⟩
    rw [links_eq]
    exact List.mem_append_left _ hlink

/-- **The same is chosen** from the tables before the creation and after the rejection. -/
theorem chosen_eq (h : Batched w l s y query x active taken e) (hl : l.Hosts s) (ht' : t'.Keyed)
    (hquery : query.Repeatable (l.tables.apply s.changes) x.id)
    (hreleases : ((l.tables.apply s.changes).putAll (x.batch taken e)).Releases t' agent x)
    (amount : Money) : t'.chosen query amount = (l.tables.apply s.changes).chosen query amount := by
  obtain ⟨mark, hremarked, hmark⟩ := h.exists_remarked hl hquery hreleases
  exact Tables.chosen_remarked hl.shown_keyed ht' hremarked
    (h.active_iff hreleases) hquery.joins hmark amount

end Workflow.Batched

/-! ## From end to end -/

namespace World

open Workflow

variable {w w₁ : World} {name : String} {t t₁ t' : Tables} {wf wf₁ : Workflow} {x : Submission}
  {agent : Agent} {query : Query .invoice} {receipt : String} {amount : Money}

/-- **A query that finds the same again** lets the same be created again. -/
theorem create_again (hw : w.Reached) (ht : w.Shows name t) (hquery : query.Repeatable t x.id)
    (hcreate : w.run name none (create query receipt amount wf) = some ((.ok x, wf₁), w₁))
    (ht₁ : w₁.Shows name t₁) (hreleases : t₁.Releases t' agent x) :
    ∃ selected : List Ident, t₁.links = t.links ++ selected.map (⟨·, x.id⟩) ∧
      ∀ (w₂ : World) (name₂ : String) (wf₂ : Workflow) (receipt₂ : String), w₂.Reached →
        w₂.Shows name₂ t' → (∀ s, w₂.open? name₂ = some s → ¬ query.Blocked w₂.ledger s) →
        ∃ y wf₃ w₃ t₃,
          w₂.run name₂ none (create query receipt₂ amount wf₂) = some ((.ok y, wf₃), w₃) ∧
          w₃.Shows name₂ t₃ ∧ t'.submissions.get? y.id = none ∧ y.id ≠ x.id ∧
          y.amount = x.amount ∧ t₃.links = t'.links ++ selected.map (⟨·, y.id⟩) := by
  obtain ⟨s, hs, rfl⟩ := ht
  obtain ⟨s₀, s₁, hs₀, hs₁, -, hends, -⟩ := hw.sound.served hcreate
  cases hs.symm.trans hs₀
  have hl := hw.sound.hosts hs
  obtain ⟨hgrants, -, -⟩ := hends.leads hl
  obtain ⟨active, taken, e, hchosen, hbatched⟩ := batched_of_create hl hends
  -- what the session shows afterwards
  obtain ⟨s₁', hs₁', rfl⟩ := ht₁
  cases hs₁.symm.trans hs₁'
  have htables := hbatched.tables_eq hgrants
  dsimp only at htables
  rw [htables] at hreleases ⊢
  refine ⟨taken.map (·.id), by rw [Tables.putAll_links, Submission.links_batch], ?_⟩
  intro w₂ name₂ wf₂ receipt₂ hw₂ hshows hfree
  obtain ⟨s₂, hs₂, rfl⟩ := hshows
  have hl₂ := hw₂.sound.hosts hs₂
  have hchosen₂ := hbatched.chosen_eq hl hl₂.shown_keyed hquery hreleases amount
  rw [hchosen] at hchosen₂
  obtain ⟨r, wf₃, w₃, s₃, hrun, hs₃, hends₂, -⟩ := hw₂.sound.serve hs₂ (create query receipt₂ amount) wf₂
  obtain ⟨hgrants₂, -, -⟩ := hends₂.leads hl₂
  rcases create_goes hl₂ hends₂ with
    ⟨e', -, -, hblocked | hfails⟩ | ⟨z, active', taken', e', rfl, hchosen', hbatched'⟩
  · exact absurd hblocked (hfree s₂ hs₂)
  · rw [hchosen₂] at hfails
    cases hfails
  · rw [hchosen₂] at hchosen'
    have pair_eq := Except.ok.inj hchosen'
    have amount_eq : x.amount = z.amount := congrArg Prod.fst pair_eq
    have ids_eq : taken.map (·.id) = taken'.map (·.id) := congrArg Prod.snd pair_eq
    refine ⟨z, wf₃, w₃, _, hrun, ⟨s₃, hs₃, rfl⟩, hbatched'.new, fun heq => ?_, amount_eq.symm, ?_⟩
    · -- the number of the rejected submission is taken
      have hnew := hbatched'.new
      rw [heq, hreleases.submission] at hnew
      cases hnew
    · rw [hbatched'.tables_eq hgrants₂, Tables.putAll_links, Submission.links_batch, ids_eq]

/-- **Rejecting releases, and what was released can be submitted again.** A submission under way can be
rejected by a workflow that holds it as it is stored, no matter how often the workflow has failed to
accept it. All invoices that are linked to it are set free, and nothing else changes than its row and
its log. If the submission was created in a session that saw the tables `t₀` before and saw `t`
afterwards, by a query that may be asked again, then after the rejection a workflow in any session that
sees nothing else creates a submission of the same amount and of the same invoices, by the same query,
unless another session has locked what the query is to lock. -/
theorem reject_releases (h : w.Holding name t wf x)
    (htried : Relation.ReflTransGen (FailsToAccept name) (wf, w) (wf₁, w₁)) : ∃ wf₂ w₂ t₂,
    w₁.run name none (reject wf₁) = some ((.ok (t.linkedByAge x.id).length, wf₂), w₂) ∧
      w₂.Shows name t₂ ∧ t.Releases t₂ wf.agent x ∧
      wf₂.data = some { x with status := .rejected, completedBy := some wf.agent.userId } ∧
      w₂.ledger.tables = w.ledger.tables ∧
      (∀ other, other ≠ name → w₂.open? other = w.open? other) ∧
      ∀ (w₀ w₀' : World) (name₀ : String) (t₀ : Tables) (wf₀ wf₀' : Workflow)
        (query : Query .invoice) (receipt : String) (amount : Money),
        w₀.Reached → w₀.Shows name₀ t₀ → query.Repeatable t₀ x.id →
        w₀.run name₀ none (create query receipt amount wf₀) = some ((.ok x, wf₀'), w₀') →
        w₀'.Shows name₀ t →
        ∃ selected : List Ident, t.links = t₀.links ++ selected.map (⟨·, x.id⟩) ∧
          ∀ (w₃ : World) (name₃ : String) (wf₃ : Workflow) (receipt₃ : String), w₃.Reached →
            w₃.Shows name₃ t₂ → (∀ s, w₃.open? name₃ = some s → ¬ query.Blocked w₃.ledger s) →
            ∃ y wf₄ w₄ t₄,
              w₃.run name₃ none (create query receipt₃ amount wf₃) = some ((.ok y, wf₄), w₄) ∧
              w₄.Shows name₃ t₄ ∧ t₂.submissions.get? y.id = none ∧ y.id ≠ x.id ∧
              y.amount = x.amount ∧ t₄.links = t₂.links ++ selected.map (⟨·, y.id⟩) := by
  obtain ⟨hholding, hsame, htables, hothers⟩ := h.failedAll htried
  obtain rfl : wf₁ = wf := hsame
  obtain ⟨wf₂, w₂, t₂, hrun, hshows, hreleases, hdata, htables₂, hothers₂⟩ := hholding.rejects
  refine ⟨wf₂, w₂, t₂, hrun, hshows, hreleases, hdata, htables₂.trans htables,
    fun other hne => (hothers₂ other hne).trans (hothers other hne), ?_⟩
  intro w₀ w₀' name₀ t₀ wf₀ wf₀' query receipt amount hw₀ hshows₀ hquery hcreate hshows₀'
  exact create_again hw₀ hshows₀ hquery hcreate hshows₀' hreleases

/-- A session has stored invoices of 100 and 50, and another one has locked them. -/
def contested : World :=
  let invoice (amount : Int) : NewInvoice :=
    { fromTeam := 1, toTeam := 2, kind := .product, amount := (Money.ofParts? amount 0).getD .zero,
      created := .ofSecond 0 }
  happenAll { around := { clock := ⟨.ofSecond 1⟩ } }
    [.begin "first", .call "first" (.insertInvoice (invoice 100)),
      .call "first" (.insertInvoice (invoice 50)), .commit "first", .begin "first", .begin "second",
      .call "second" (.find .invoice (.start .invoice true))]

/-- A submission of 100 cannot be accepted because its invoice is locked. It is rejected, and its invoice
is submitted again. -/
theorem reject_releases_contested : ∃ (w w₁ : World) (t : Tables) (wf wf₁ : Workflow),
    w.Holding "first" t wf hundred ∧ FailsToAccept "first" (wf, w) (wf₁, w₁) ∧
      ∃ n wf₂ w₂ t₂ y wf₃ w₃ t₃, w₁.run "first" none (reject wf₁) = some ((.ok n, wf₂), w₂) ∧
        w₂.Shows "first" t₂ ∧ w₂.run "first" none
          (create (.start .invoice false) "" hundred.amount wf₂) = some ((.ok y, wf₃), w₃) ∧
        w₃.Shows "first" t₃ ∧ y.id ≠ hundred.id ∧ y.amount = hundred.amount ∧
        t₃.links = t₂.links ++ [⟨1, y.id⟩] := by
  have reached : contested.Reached := (Reached.start _).happenAll _
  have creates : (contested.run "first" none (create (.start .invoice false) "" hundred.amount
      { agent := .system })).map (·.1.1) = some (.ok hundred) := by decide +kernel
  have fails : ((contested.run "first" none (create (.start .invoice false) "" hundred.amount
      { agent := .system })).bind fun z => (z.2.run "first" none (accept z.1.2)).map (·.1.1)) =
        some (.error (.refused (.lockConflict (.row 1 .invoice)))) := by decide +kernel
  have links : ((contested.run "first" none (create (.start .invoice false) "" hundred.amount
      { agent := .system })).bind fun z => (z.2.open? "first").map fun s =>
        (z.2.ledger.tables.apply s.changes).links) = some [⟨1, 3⟩] := by decide +kernel
  have unlinked : ((contested.open? "first").map fun s =>
      (contested.ledger.tables.apply s.changes).links) = some [] := by decide +kernel
  obtain ⟨⟨⟨r, wf⟩, w⟩, hcreate, hr⟩ := Option.map_eq_some_iff.1 creates
  obtain rfl : r = .ok hundred := hr
  rw [hcreate, Option.bind_some] at fails links
  obtain ⟨⟨⟨r, wf₁⟩, w₁⟩, haccept, hr⟩ := Option.map_eq_some_iff.1 fails
  obtain rfl : r = .error _ := hr
  obtain ⟨s, hs, hlinks⟩ := Option.map_eq_some_iff.1 links
  obtain ⟨s₀, hs₀, hlinks₀⟩ := Option.map_eq_some_iff.1 unlinked
  have holding := Holding.of_create reached hcreate ⟨s, hs, rfl⟩
  have failed : FailsToAccept "first" (wf, w) (wf₁, w₁) := ⟨_, haccept⟩
  refine ⟨w, w₁, _, wf, wf₁, holding, failed, ?_⟩
  obtain ⟨wf₂, w₂, t₂, hreject, hshows, -, -, -, -, hagain⟩ := reject_releases holding (.single failed)
  obtain ⟨selected, hselected, hagain⟩ := hagain contested w "first" _ _ wf (.start .invoice false) ""
    hundred.amount reached ⟨s₀, hs₀, rfl⟩
    { built := ⟨.invoice, false, .nil, rfl⟩
      unjoined := rfl
      not_marked := List.not_mem_nil
      unmarked := fun h => absurd h List.not_mem_nil } hcreate ⟨s, hs, rfl⟩
  have selected_eq : selected = [1] := by
    rw [hlinks, hlinks₀, List.nil_append] at hselected
    simpa using (congrArg (List.map Link.invoiceId) hselected).symm
  subst selected_eq
  obtain ⟨y, wf₃, w₃, t₃, hrun, hshows₃, -, hnew, hamount, hlinked⟩ := hagain w₂ "first" wf₂ ""
    ((holding.failed failed).1.reached.run hreject) hshows fun s hs hblocked => nomatch hblocked.1
  exact ⟨_, wf₂, w₂, t₂, y, wf₃, w₃, t₃, hreject, hshows, hrun, hshows₃, hnew, hamount, hlinked⟩

/-- A session has stored invoices of 50 and 100, and has linked and marked the older one for a submission
that is not there. -/
def prelinked : World :=
  let invoice (amount created : Int) : NewInvoice :=
    { fromTeam := 1, toTeam := 2, kind := .product, amount := (Money.ofParts? amount 0).getD .zero,
      created := .ofSecond created }
  happenAll { around := { clock := ⟨.ofSecond 1⟩ } }
    [.begin "first", .call "first" (.insertInvoice (invoice 50 0)),
      .call "first" (.insertInvoice (invoice 100 1)), .call "first" (.linkInvoices 3 [1]),
      .call "first" (.setHasSubmission [1] true), .commit "first", .begin "first"]

/-- Rejecting sets free what had been linked to the number before there was a submission. So a query for
invoices without a mark may find more than before, and lead beyond the amount. -/
theorem reject_releases_prelinked :
    ¬ ∀ (w w₁ w₂ : World) (name : String) (wf wf₁ wf₂ : Workflow) (root : Root) (locked : Bool)
      (chain : Query.Chain root .invoice) (receipt : String) (amount : Money) (x : Submission) (n : Nat),
      w.Reached → (Query.build locked chain).tables.contains .submission = false →
      .hasSubmission true ∉ (Query.build locked chain).filters →
      w.run name none (create (Query.build locked chain) receipt amount wf) =
        some ((.ok x, wf₁), w₁) →
      w₁.run name none (reject wf₁) = some ((.ok n, wf₂), w₂) →
      (∀ s, w₂.open? name = some s → ¬ (Query.build locked chain).Blocked w₂.ledger s) →
      ∃ y wf₃ w₃, w₂.run name none (create (Query.build locked chain) receipt amount wf₂) =
        some ((.ok y, wf₃), w₃) := by
  intro hall
  let chain : Query.Chain .invoice .invoice := .cons (.hasSubmission (some false)) .nil
  have creates : (prelinked.run "first" none (create (Query.build false chain) "" hundred.amount
      { agent := .system })).map (·.1.1) = some (.ok hundred) := by decide +kernel
  have rejects : ((prelinked.run "first" none (create (Query.build false chain) "" hundred.amount
      { agent := .system })).bind fun z => (z.2.run "first" none (reject z.1.2)).map (·.1.1)) =
        some (.ok 2) := by decide +kernel
  have fails : ((prelinked.run "first" none (create (Query.build false chain) "" hundred.amount
      { agent := .system })).bind fun z => (z.2.run "first" none (reject z.1.2)).bind fun z =>
        (z.2.run "first" none (create (Query.build false chain) "" hundred.amount z.1.2)).map
          (·.1.1)) = some (.error (.refused (.amount (.overshoot hundred.amount 2)))) := by
    decide +kernel
  obtain ⟨⟨⟨r, wf₁⟩, w₁⟩, hcreate, hr⟩ := Option.map_eq_some_iff.1 creates
  obtain rfl : r = .ok hundred := hr
  rw [hcreate, Option.bind_some] at rejects fails
  obtain ⟨⟨⟨r, wf₂⟩, w₂⟩, hreject, hr⟩ := Option.map_eq_some_iff.1 rejects
  obtain rfl : r = .ok 2 := hr
  rw [hreject, Option.bind_some] at fails
  obtain ⟨y, wf₃, w₃, hagain⟩ := hall prelinked w₁ w₂ "first" _ wf₁ wf₂ .invoice false chain ""
    hundred.amount hundred 2 ((Reached.start _).happenAll _) (by decide) (by decide) hcreate hreject
    fun s _ hblocked => nomatch hblocked.1
  rw [hagain] at fails
  cases fails

end World

end TeamLedger
