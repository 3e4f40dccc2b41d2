/-
What the services do to the tables, as moves of five kinds.

An invoice is stored or cancelled; a submission is created, accepted or
rejected. A move says which rows it finds and which it writes. Nothing in it
speaks of sessions: it is made on one state of the tables, and a row of moves is
what a session has done since it began, seen as if it had been alone.

This is enough because moves can be made again later (`Moves.again`). A move
finds the rows that it writes, and these no other session has written if the
session can commit at all. The one thing it looks at and does not write is
whether an invoice is part of another submission under way; but a session that
puts an invoice into a submission writes the invoice too. So every commit leaves
tables that moves lead to from the tables before, whatever happened in between,
and what single moves preserve holds of all committed tables.
-/
import TeamLedger.Proofs.Isolation

set_option autoImplicit false

namespace TeamLedger

/-! ## Moves -/

/-- The invoice is part of a submission under way. -/
def Tables.Active (t : Tables) (invoice : Ident) : Prop :=
  ∃ x : Submission, ⟨invoice, x.id⟩ ∈ t.links ∧ t.submissions.get? x.id = some x ∧
    x.status = .submitted

/-- The sum of invoices, in units. -/
def Invoice.sumUnits (is : List Invoice) : Int := is.foldr (fun i sum => i.amount.units + sum) 0

theorem Invoice.sumUnits_cons (i : Invoice) (is : List Invoice) :
    sumUnits (i :: is) = i.amount.units + sumUnits is := rfl

theorem Invoice.sumUnits_append (is js : List Invoice) :
    sumUnits (is ++ js) = sumUnits is + sumUnits js := by
  induction is with
  | nil => exact (Int.zero_add _).symm
  | cons i is ih => rw [List.cons_append, sumUnits_cons, sumUnits_cons, ih, Int.add_assoc]

/-- What a service may do to tables, with the rows that it writes. A strict move also keeps to what
concerns amounts: invoices have positive ones, a submission is created and accepted with the sum of
its invoices, and no invoice is cancelled that is paid. -/
inductive Move (strict : Prop) (t : Tables) : List Put → Prop
  | insert (i : Invoice) (new : t.invoices.get? i.id = none) (unsettled : i.historyId = none)
      (positive : strict → 0 < i.amount.units) : Move strict t [.invoice i]
  | cancel (i : Invoice) (there : t.invoices.get? i.id = some i)
      (unpaid : strict → i.status ≠ .paid) :
      Move strict t [.invoice { i with status := .cancelled }]
  | batch (x : Submission) (taken : List Invoice) (e : LogEntry)
      (numbered : x.id ≠ 0) (new : t.submissions.get? x.id = none)
      (submitted : x.status = .submitted) (distinct : (taken.map (·.id)).Nodup)
      (there : ∀ i ∈ taken, t.invoices.get? i.id = some i)
      (unpaid : ∀ i ∈ taken, i.status = .notPaid) (free : ∀ i ∈ taken, ¬ t.Active i.id)
      (some_taken : taken ≠ []) (sum : strict → Invoice.sumUnits taken = x.amount.units) :
      Move strict t (.submission x :: (taken.map (fun i => .invoice { i with hasSubmission := true })
        ++ (taken.map (fun i => .link ⟨i.id, x.id⟩) ++ [.logEntry e])))
  | accept (x : Submission) (user : Option Ident) (e : LogEntry) (h : History)
      (settlement : Settlement) (payable : List Invoice)
      (there : t.submissions.get? x.id = some x) (submitted : x.status = .submitted)
      (new : t.histories.get? h.id = none) (amount : h.amount = x.amount)
      (settles : settlement.historyId = h.id) (distinct : (payable.map (·.id)).Nodup)
      (payable_there : ∀ i ∈ payable, t.invoices.get? i.id = some i)
      (unpaid : ∀ i ∈ payable, i.status = .notPaid)
      (linked : ∀ i ∈ payable, ⟨i.id, x.id⟩ ∈ t.links)
      (rest : ∀ i : Invoice, ⟨i.id, x.id⟩ ∈ t.links → t.invoices.get? i.id = some i →
        i ∈ payable ∨ i.status = .cancelled)
      (sum : strict → Invoice.sumUnits payable = x.amount.units) :
      Move strict t (.submission { x with status := .accepted, completedBy := user } ::
        .logEntry e :: .history h :: payable.map (fun i => .invoice (i.settled settlement)))
  | reject (x : Submission) (user : Option Ident) (e : LogEntry) (freed : List Invoice)
      (there : t.submissions.get? x.id = some x) (submitted : x.status = .submitted)
      (freed_there : ∀ i ∈ freed, t.invoices.get? i.id = some i)
      (linked : ∀ i ∈ freed, ⟨i.id, x.id⟩ ∈ t.links)
      (all : ∀ i : Invoice, ⟨i.id, x.id⟩ ∈ t.links → t.invoices.get? i.id = some i → i ∈ freed) :
      Move strict t (.submission { x with status := .rejected, completedBy := user } ::
        .logEntry e :: freed.map (fun i => .invoice { i with hasSubmission := false }))

/-- Moves one after the other, with all that they write. -/
inductive Moves (strict : Prop) : Tables → List Put → Prop
  | nil (t : Tables) : Moves strict t []
  | cons {t : Tables} {ps qs : List Put} (first : Move strict t ps)
      (rest : Moves strict (t.putAll ps) qs) : Moves strict t (ps ++ qs)

/-- Tables that moves lead to, beginning with empty ones; teams may be added at any time. -/
inductive Built (strict : Prop) : Tables → Prop
  | empty : Built strict {}
  | teams {t : Tables} (h : Built strict t) (teams : Rows Team) : Built strict { t with teams }
  | move {t : Tables} {ps : List Put} (h : Built strict t) (m : Move strict t ps) :
      Built strict (t.putAll ps)

variable {strict : Prop} {t u : Tables} {ps qs : List Put}

theorem Move.moves (m : Move strict t ps) : Moves strict t ps := by
  rw [← List.append_nil ps]
  exact .cons m (.nil _)

theorem Moves.append (h : Moves strict t ps) (h' : Moves strict (t.putAll ps) qs) :
    Moves strict t (ps ++ qs) := by
  induction h with
  | nil t => exact h'
  | cons first rest ih =>
    rw [List.append_assoc]
    rw [Tables.putAll_append] at h'
    exact .cons first (ih h')

theorem Built.moves (h : Built strict t) (m : Moves strict t ps) : Built strict (t.putAll ps) := by
  induction m with
  | nil t => exact h
  | cons first rest ih =>
    rw [Tables.putAll_append]
    exact ih (h.move first)

/-! ## Links lead to rows -/

/-- Both rows that a link connects are there. -/
def Tables.Connected (t : Tables) : Prop :=
  ∀ l ∈ t.links, (t.invoices.get? l.invoiceId).isSome ∧ (t.submissions.get? l.submissionId).isSome

/-- Writes take no invoice away. -/
theorem Tables.isSome_invoice_putAll {id : Ident} (h : (t.invoices.get? id).isSome) :
    ((t.putAll ps).invoices.get? id).isSome := by
  rcases Tables.invoice_putAll t ps id with ⟨hget, -⟩ | ⟨i, -, -, hget⟩
  · rw [hget]
    exact h
  · rw [hget]
    rfl

theorem Tables.isSome_submission_putAll {id : Ident} (h : (t.submissions.get? id).isSome) :
    ((t.putAll ps).submissions.get? id).isSome := by
  rcases Tables.submission_putAll t ps id with ⟨hget, -⟩ | ⟨i, -, -, hget⟩
  · rw [hget]
    exact h
  · rw [hget]
    rfl

theorem Tables.isSome_submission_of_mem {x : Submission} (hx : Put.submission x ∈ ps) :
    ((t.putAll ps).submissions.get? x.id).isSome := by
  rcases Tables.submission_putAll t ps x.id with ⟨-, hne⟩ | ⟨i, -, -, hget⟩
  · exact absurd rfl (hne x hx)
  · rw [hget]
    rfl

/-- A link that a move adds connects rows that the move writes. -/
theorem Move.link_keys (m : Move strict t ps) {l : Link} (hl : Put.link l ∈ ps) :
    (∃ p ∈ ps, p.key? = some ⟨.invoice, l.invoiceId⟩) ∧
      ∃ p ∈ ps, p.key? = some ⟨.submission, l.submissionId⟩ := by
  cases m with
  | batch x taken e =>
    have hl : ∃ i ∈ taken, l = ⟨i.id, x.id⟩ := by simpa [eq_comm] using hl
    obtain ⟨i, hi, rfl⟩ := hl
    refine ⟨⟨.invoice { i with hasSubmission := true }, ?_, rfl⟩, ⟨.submission x, ?_, rfl⟩⟩
    · exact List.mem_cons_of_mem _ (List.mem_append_left _ (List.mem_map_of_mem hi))
    · exact List.mem_cons_self
  | _ => simp at hl

theorem Move.connected (m : Move strict t ps) (h : t.Connected) : (t.putAll ps).Connected := by
  intro l hl
  rcases Tables.mem_links_putAll.1 hl with hl | hl
  · exact ⟨Tables.isSome_invoice_putAll (h l hl).1, Tables.isSome_submission_putAll (h l hl).2⟩
  · cases m with
    | batch x taken e numbered new submitted distinct there =>
      have hl : ∃ i ∈ taken, l = ⟨i.id, x.id⟩ := by simpa [eq_comm] using hl
      obtain ⟨i, hi, rfl⟩ := hl
      exact ⟨Tables.isSome_invoice_putAll (by rw [there i hi]; rfl),
        Tables.isSome_submission_of_mem List.mem_cons_self⟩
    | _ => simp at hl

theorem Built.connected (h : Built strict t) : t.Connected := by
  induction h with
  | empty => exact fun l hl => nomatch hl
  | teams h teams ih => exact ih
  | move h m ih => exact m.connected ih

theorem Built.keyed (h : Built strict t) : t.Keyed := by
  induction h with
  | empty => exact .empty
  | teams h teams ih =>
    obtain ⟨h1, h2, h3, h4, h5⟩ := ih
    exact ⟨h1, h2, h3, h4, h5⟩
  | move h m ih => exact ih.putAll _

/-! ## Single rows of a move -/

/-- A submission that a move writes is new and under way, or was under way and has ended. -/
theorem Move.submission_written (m : Move strict t ps) {y : Submission}
    (hy : Put.submission y ∈ ps) : t.submissions.get? y.id = none ∧ y.status = .submitted ∨
      ∃ x, t.submissions.get? y.id = some x ∧ x.status = .submitted ∧ y.status ≠ .submitted := by
  cases m with
  | insert | cancel => simp at hy
  | batch x taken e numbered new submitted =>
    obtain rfl : y = x := by simpa using hy
    exact .inl ⟨new, submitted⟩
  | accept x user e h settlement payable there submitted =>
    obtain rfl : y = { x with status := .accepted, completedBy := user } := by simpa using hy
    exact .inr ⟨x, there, submitted, by simp⟩
  | reject x user e freed there submitted =>
    obtain rfl : y = { x with status := .rejected, completedBy := user } := by simpa using hy
    exact .inr ⟨x, there, submitted, by simp⟩

/-- An invoice that a move writes is new, or was there and keeps its amount; a cancelled one stays
cancelled. -/
theorem Move.invoice_written (m : Move strict t ps) {j : Invoice} (hj : Put.invoice j ∈ ps) :
    t.invoices.get? j.id = none ∧ (strict → 0 < j.amount.units) ∨
      ∃ i, t.invoices.get? j.id = some i ∧ j.amount = i.amount ∧
        (i.status = .cancelled → j.status = .cancelled) := by
  cases m with
  | insert i new unsettled positive =>
    obtain rfl : j = i := by simpa using hj
    exact .inl ⟨new, positive⟩
  | cancel i there =>
    obtain rfl : j = { i with status := .cancelled } := by simpa using hj
    exact .inr ⟨i, there, rfl, fun _ => rfl⟩
  | batch x taken e numbered new submitted distinct there =>
    obtain ⟨i, hi, rfl⟩ : ∃ i ∈ taken, j = { i with hasSubmission := true } := by
      simpa [eq_comm] using hj
    exact .inr ⟨i, there i hi, rfl, fun hc => hc⟩
  | accept x user e h settlement payable _ _ _ _ _ _ there unpaid =>
    obtain ⟨i, hi, rfl⟩ : ∃ i ∈ payable, j = i.settled settlement := by simpa [eq_comm] using hj
    refine .inr ⟨i, there i hi, rfl, fun hc => ?_⟩
    rw [unpaid i hi] at hc
    cases hc
  | reject x user e freed _ _ there =>
    obtain ⟨i, hi, rfl⟩ : ∃ i ∈ freed, j = { i with hasSubmission := false } := by
      simpa [eq_comm] using hj
    exact .inr ⟨i, there i hi, rfl, fun hc => hc⟩

/-- Under strict moves every invoice has a positive amount. -/
theorem Built.positive (h : Built strict t) (hs : strict) {id : Ident} {i : Invoice}
    (hi : t.invoices.get? id = some i) : 0 < i.amount.units := by
  induction h generalizing i with
  | empty => simp at hi
  | teams h teams ih => exact ih hi
  | @move t ps h m ih =>
    rcases Tables.invoice_putAll t ps id with ⟨hget, -⟩ | ⟨j, hj, rfl, hget⟩
    · exact ih (hget ▸ hi)
    · cases hi.symm.trans hget
      rcases m.invoice_written hj with ⟨-, hpos⟩ | ⟨k, hk, hamount, -⟩
      · exact hpos hs
      · rw [hamount]
        exact ih hk

/-- Submissions are numbered from 1. -/
theorem Built.submission_ne_zero (h : Built strict t) {id : Ident}
    (hid : (t.submissions.get? id).isSome) : id ≠ 0 := by
  induction h with
  | empty => simp at hid
  | teams h teams ih => exact ih hid
  | @move t ps h m ih =>
    rcases Tables.submission_putAll t ps id with ⟨hget, -⟩ | ⟨x, hx, rfl, -⟩
    · exact ih (hget ▸ hid)
    · rcases m.submission_written hx with ⟨hnone, -⟩ | ⟨y, hy, -⟩
      · cases m with
        | insert | cancel => simp at hx
        | batch y taken e numbered =>
          obtain rfl : x = y := by simpa using hx
          exact numbered
        | accept y user e hist settlement payable there =>
          obtain rfl : x = { y with status := .accepted, completedBy := user } := by simpa using hx
          exact ih (by rw [show t.submissions.get? y.id = _ from there]; rfl)
        | reject y user e freed there =>
          obtain rfl : x = { y with status := .rejected, completedBy := user } := by simpa using hx
          exact ih (by rw [show t.submissions.get? y.id = _ from there]; rfl)
      · exact ih (by rw [hy]; rfl)

/-! ## Tables beside one another -/

/-- The second tables are the first ones with moves of someone else made first. Outside the rows that
those moves wrote the tables agree, and in them nothing has happened that a move looks at: cancelled
invoices are cancelled still, no submission has come under way again, and links were added only
between rows written. -/
structure Tables.Beside (qs : List Put) (t u : Tables) : Prop where
  invoices : ∀ id, (∀ q ∈ qs, q.key? ≠ some ⟨.invoice, id⟩) →
    u.invoices.get? id = t.invoices.get? id
  submissions : ∀ id, (∀ q ∈ qs, q.key? ≠ some ⟨.submission, id⟩) →
    u.submissions.get? id = t.submissions.get? id
  histories : ∀ id, (∀ h, Put.history h ∈ qs → h.id ≠ id) →
    u.histories.get? id = t.histories.get? id
  cancelled : ∀ id i, t.invoices.get? id = some i → i.status = .cancelled →
    ∃ j, u.invoices.get? id = some j ∧ j.status = .cancelled
  submitted : ∀ id x y, t.submissions.get? id = some x → u.submissions.get? id = some y →
    y.status = .submitted → x.status = .submitted
  links : ∀ l ∈ t.links, l ∈ u.links
  new_links : ∀ l ∈ u.links, l ∈ t.links ∨ (∃ q ∈ qs, q.key? = some ⟨.invoice, l.invoiceId⟩) ∧
    ∃ q ∈ qs, q.key? = some ⟨.submission, l.submissionId⟩

namespace Tables.Beside

theorem refl (t : Tables) : Beside [] t t where
  invoices _ _ := rfl
  submissions _ _ := rfl
  histories _ _ := rfl
  cancelled _ i hi hc := ⟨i, hi, hc⟩
  submitted _ x y hx hy hs := by
    cases hx.symm.trans hy
    exact hs
  links _ hl := hl
  new_links _ hl := .inl hl

/-- One more move of someone else. -/
theorem move {ps : List Put} (h : Beside qs t u)
    (hsome : ∀ id, (t.submissions.get? id).isSome → (u.submissions.get? id).isSome)
    (m : Move strict u ps) : Beside (qs ++ ps) t (u.putAll ps) where
  invoices id hne := by
    rw [← h.invoices id fun q hq => hne q (List.mem_append_left _ hq)]
    rcases Tables.invoice_putAll u ps id with ⟨hget, -⟩ | ⟨i, hi, rfl, -⟩
    · exact hget
    · exact absurd rfl (hne _ (List.mem_append_right _ hi))
  submissions id hne := by
    rw [← h.submissions id fun q hq => hne q (List.mem_append_left _ hq)]
    rcases Tables.submission_putAll u ps id with ⟨hget, -⟩ | ⟨x, hx, rfl, -⟩
    · exact hget
    · exact absurd rfl (hne _ (List.mem_append_right _ hx))
  histories id hne := by
    rw [← h.histories id fun x hx => hne x (List.mem_append_left _ hx)]
    rcases Tables.history_putAll u ps id with ⟨hget, -⟩ | ⟨x, hx, rfl, -⟩
    · exact hget
    · exact absurd rfl (hne _ (List.mem_append_right _ hx))
  cancelled id i hi hc := by
    obtain ⟨j, hj, hjc⟩ := h.cancelled id i hi hc
    rcases Tables.invoice_putAll u ps id with ⟨hget, -⟩ | ⟨k, hk, rfl, hget⟩
    · exact ⟨j, hget.trans hj, hjc⟩
    · rcases m.invoice_written hk with ⟨hnone, -⟩ | ⟨j', hj', -, hkc⟩
      · cases hnone.symm.trans hj
      · cases hj'.symm.trans hj
        exact ⟨k, hget, hkc hjc⟩
  submitted id x y hx hy hs := by
    rcases Tables.submission_putAll u ps id with ⟨hget, -⟩ | ⟨z, hz, rfl, hget⟩
    · exact h.submitted id x y hx (hget.symm.trans hy) hs
    · cases hy.symm.trans hget
      -- a submission that comes under way is new, but this one was there
      rcases m.submission_written hz with ⟨hnone, -⟩ | ⟨-, -, -, hended⟩
      · have := hsome y.id (by rw [hx]; rfl)
        rw [hnone] at this
        cases this
      · exact absurd hs hended
  links l hl := Tables.mem_links_putAll.2 (.inl (h.links l hl))
  new_links l hl := by
    rcases Tables.mem_links_putAll.1 hl with hl | hl
    · rcases h.new_links l hl with hl | ⟨⟨p, hp, hpk⟩, q, hq, hqk⟩
      · exact .inl hl
      · exact .inr ⟨⟨p, List.mem_append_left _ hp, hpk⟩, q, List.mem_append_left _ hq, hqk⟩
    · obtain ⟨⟨p, hp, hpk⟩, q, hq, hqk⟩ := m.link_keys hl
      exact .inr ⟨⟨p, List.mem_append_right _ hp, hpk⟩, q, List.mem_append_right _ hq, hqk⟩

theorem of_moves (m : Moves strict t qs) : Beside qs t (t.putAll qs) := by
  -- said of any tables beside one another, so that the induction goes through
  have extend {u : Tables} {rs : List Put} (m : Moves strict u rs) : ∀ {t : Tables}
      {qs : List Put}, Beside qs t u →
      (∀ id, (t.submissions.get? id).isSome → (u.submissions.get? id).isSome) →
      Beside (qs ++ rs) t (u.putAll rs) := by
    induction m with
    | nil u =>
      intro t qs h _
      rwa [List.append_nil]
    | cons first rest ih =>
      intro t qs h hsome
      rw [Tables.putAll_append, ← List.append_assoc]
      exact ih (h.move hsome first) fun id hid => Tables.isSome_submission_putAll (hsome id hid)
  exact extend m (refl t) fun id hid => hid

/-- Writing the same into both. -/
theorem put (h : Beside qs t u) (p : Put) : Beside qs (t.put p) (u.put p) := by
  obtain ⟨h1, h2, h3, h4, h5, h6, h7⟩ := h
  cases p with
  | invoice i =>
    refine ⟨fun id hne => ?_, h2, h3, fun id j hj hc => ?_, h5, h6, h7⟩
    · simp only [Tables.put, Rows.get?_insert, h1 id hne]
    · simp only [Tables.put, Rows.get?_insert] at hj ⊢
      split at hj
      next hid => exact ⟨j, by rw [if_pos hid, hj], hc⟩
      next hid =>
        rw [if_neg hid]
        exact h4 id j hj hc
  | submission x =>
    refine ⟨h1, fun id hne => ?_, h3, h4, fun id y z hy hz hs => ?_, h6, h7⟩
    · simp only [Tables.put, Rows.get?_insert, h2 id hne]
    · simp only [Tables.put, Rows.get?_insert] at hy hz
      split at hy
      next hid =>
        rw [if_pos hid] at hz
        cases hy.symm.trans hz
        exact hs
      next hid =>
        rw [if_neg hid] at hz
        exact h5 id y z hy hz hs
  | link l =>
    refine ⟨h1, h2, h3, h4, h5, fun l' hl' => ?_, fun l' hl' => ?_⟩
    · rcases List.mem_append.1 hl' with hl' | hl'
      · exact List.mem_append_left _ (h6 l' hl')
      · exact List.mem_append_right _ hl'
    · rcases List.mem_append.1 hl' with hl' | hl'
      · exact (h7 l' hl').imp_left (List.mem_append_left _)
      · exact .inl (List.mem_append_right _ hl')
  | history x =>
    refine ⟨h1, h2, fun id hne => ?_, h4, h5, h6, h7⟩
    simp only [Tables.put, Rows.get?_insert, h3 id hne]
  | logEntry e | limit l | dropLimit id => exact ⟨h1, h2, h3, h4, h5, h6, h7⟩

theorem putAll (h : Beside qs t u) (ps : List Put) : Beside qs (t.putAll ps) (u.putAll ps) := by
  induction ps generalizing t u with
  | nil => exact h
  | cons p ps ih => exact ih (h.put p)

end Tables.Beside

/-! ## Making moves again -/

/-- The two rows of writes write none of the same rows. -/
structure Put.Apart (ps qs : List Put) : Prop where
  keys : ∀ p ∈ ps, ∀ q ∈ qs, ∀ k, p.key? = some k → q.key? ≠ some k
  histories : ∀ x y, Put.history x ∈ ps → Put.history y ∈ qs → y.id ≠ x.id

theorem Put.Apart.of_append {ps ps' qs : List Put} (h : Apart (ps ++ ps') qs) :
    Apart ps qs ∧ Apart ps' qs :=
  ⟨⟨fun p hp => h.keys p (List.mem_append_left _ hp),
      fun x y hx => h.histories x y (List.mem_append_left _ hx)⟩,
    ⟨fun p hp => h.keys p (List.mem_append_right _ hp),
      fun x y hx => h.histories x y (List.mem_append_right _ hx)⟩⟩

namespace Tables.Beside

/-- An invoice that one row of writes has is not changed by another that is apart. -/
theorem invoice_eq (h : t.Beside qs u) (hapart : Put.Apart ps qs) {i : Invoice}
    (hi : Put.invoice i ∈ ps) : u.invoices.get? i.id = t.invoices.get? i.id :=
  h.invoices i.id fun q hq => hapart.keys _ hi q hq _ rfl

/-- A submission that one row of writes has is not changed by another that is apart. -/
theorem submission_eq (h : t.Beside qs u) (hapart : Put.Apart ps qs) {x : Submission}
    (hx : Put.submission x ∈ ps) : u.submissions.get? x.id = t.submissions.get? x.id :=
  h.submissions x.id fun q hq => hapart.keys _ hx q hq _ rfl

/-- A link to a submission that is written was there before, and so was an invoice under its id. -/
theorem old_link (h : t.Beside qs u) (hapart : Put.Apart ps qs) (ht : Built strict t)
    {x : Submission} (hx : Put.submission x ∈ ps) {id : Ident} (hl : ⟨id, x.id⟩ ∈ u.links) :
    ⟨id, x.id⟩ ∈ t.links ∧ ∃ j, j.id = id ∧ t.invoices.get? j.id = some j := by
  have hl : ⟨id, x.id⟩ ∈ t.links := by
    rcases h.new_links _ hl with hl | ⟨-, q, hq, hqk⟩
    · exact hl
    · exact absurd hqk (hapart.keys _ hx q hq _ rfl)
  obtain ⟨j, hj⟩ := Option.isSome_iff_exists.1 (ht.connected _ hl).1
  have hid : j.id = id := ht.keyed.invoices _ _ hj
  exact ⟨hl, j, hid, hid ▸ hj⟩

end Tables.Beside

/-- **One move made again**, after moves of someone else that write none of its rows. -/
theorem Move.again (m : Move strict t ps) (ht : Built strict t) (h : t.Beside qs u)
    (hapart : Put.Apart ps qs) : Move strict u ps := by
  cases m with
  | insert i new unsettled positive =>
    refine .insert i ?_ unsettled positive
    rw [h.invoice_eq hapart List.mem_cons_self]
    exact new
  | cancel i there unpaid =>
    refine .cancel i ?_ unpaid
    have := h.invoice_eq (i := { i with status := .cancelled }) hapart List.mem_cons_self
    exact this.trans there
  | batch x taken e numbered new submitted distinct there unpaid free some_taken sum =>
    have written {i : Invoice} (hi : i ∈ taken) :
        u.invoices.get? i.id = t.invoices.get? i.id := by
      refine h.invoice_eq (i := { i with hasSubmission := true }) hapart ?_
      exact List.mem_cons_of_mem _ (List.mem_append_left _ (List.mem_map_of_mem hi))
    refine .batch x taken e numbered ?_ submitted distinct ?_ unpaid ?_ some_taken sum
    · rw [h.submission_eq hapart List.mem_cons_self]
      exact new
    · intro i hi
      rw [written hi]
      exact there i hi
    · rintro i hi ⟨y, hl, hy, hys⟩
      -- whoever links the invoice to a submission writes the invoice
      rcases h.new_links _ hl with hl | ⟨⟨q, hq, hqk⟩, -⟩
      · obtain ⟨z, hz⟩ := Option.isSome_iff_exists.1 (ht.connected _ hl).2
        have hid : z.id = y.id := ht.keyed.submissions _ _ hz
        have hzs := h.submitted y.id z y hz hy hys
        rw [← hid] at hl hz
        exact free i hi ⟨z, hl, hz, hzs⟩
      · refine hapart.keys (.invoice { i with hasSubmission := true }) ?_ q hq _ rfl hqk
        exact List.mem_cons_of_mem _ (List.mem_append_left _ (List.mem_map_of_mem hi))
  | accept x user e hist settlement payable there submitted new amount settles distinct
      payable_there unpaid linked rest sum =>
    have written {i : Invoice} (hi : i ∈ payable) :
        u.invoices.get? i.id = t.invoices.get? i.id := by
      refine h.invoice_eq (i := i.settled settlement) hapart ?_
      simp only [List.mem_cons, List.mem_map]
      exact .inr (.inr (.inr ⟨i, hi, rfl⟩))
    have hx : Put.submission { x with status := .accepted, completedBy := user } ∈
        Put.submission { x with status := .accepted, completedBy := user } :: .logEntry e ::
          .history hist :: payable.map fun i => .invoice (i.settled settlement) :=
      List.mem_cons_self
    refine .accept x user e hist settlement payable ?_ submitted ?_ amount settles distinct ?_
      unpaid (fun i hi => h.links _ (linked i hi)) ?_ sum
    · exact (h.submission_eq hapart hx).trans there
    · rw [h.histories hist.id fun y hy => hapart.histories hist y (by simp) hy]
      exact new
    · intro i hi
      rw [written hi]
      exact payable_there i hi
    · intro i hl hi
      obtain ⟨hl, j, hid, hj⟩ := h.old_link hapart ht hx hl
      -- it was payable or cancelled; a payable invoice is written, and a cancelled one stays so
      have rest_j := rest j (hid ▸ hl) hj
      by_cases hsame : u.invoices.get? i.id = t.invoices.get? i.id
      · rw [hid] at hj
        cases hi.symm.trans (hsame.trans hj)
        exact rest_j
      · rcases rest_j with hpay | hcancelled
        · exact absurd (hid ▸ written hpay) hsame
        · obtain ⟨k, hk, hkc⟩ := h.cancelled j.id j hj hcancelled
          rw [hid] at hk
          cases hi.symm.trans hk
          exact .inr hkc
  | reject x user e freed there submitted freed_there linked all =>
    have written {i : Invoice} (hi : i ∈ freed) :
        u.invoices.get? i.id = t.invoices.get? i.id := by
      refine h.invoice_eq (i := { i with hasSubmission := false }) hapart ?_
      simp only [List.mem_cons, List.mem_map]
      exact .inr (.inr ⟨i, hi, rfl⟩)
    have hx : Put.submission { x with status := .rejected, completedBy := user } ∈
        Put.submission { x with status := .rejected, completedBy := user } :: .logEntry e ::
          freed.map fun i => .invoice { i with hasSubmission := false } :=
      List.mem_cons_self
    refine .reject x user e freed ?_ submitted ?_ (fun i hi => h.links _ (linked i hi)) ?_
    · exact (h.submission_eq hapart hx).trans there
    · intro i hi
      rw [written hi]
      exact freed_there i hi
    · intro i hl hi
      obtain ⟨hl, j, hid, hj⟩ := h.old_link hapart ht hx hl
      have hfreed := all j (hid ▸ hl) hj
      have same := written hfreed
      rw [hid] at same hj
      cases hi.symm.trans (same.trans hj)
      exact hfreed

/-- **Moves made again** on tables beside those that they were made on. -/
theorem Moves.beside (ha : Moves strict t ps) (ht : Built strict t) (h : t.Beside qs u)
    (hapart : Put.Apart ps qs) : Moves strict u ps := by
  induction ha generalizing u with
  | nil t => exact .nil u
  | cons first rest ih =>
    obtain ⟨hfirst, hrest⟩ := hapart.of_append
    exact .cons (first.again ht h hfirst) (ih (ht.move first) (h.putAll _) hrest)

/-- Moves that write none of the same rows can be made in either order. -/
theorem Moves.again (ht : Built strict t) (ha : Moves strict t ps) (hb : Moves strict t qs)
    (hapart : Put.Apart ps qs) : Moves strict (t.putAll qs) ps :=
  ha.beside ht (.of_moves hb) hapart

/-- Moves have nothing to do with teams. -/
theorem Moves.teams (ha : Moves strict t ps) (ht : Built strict t) (teams : Rows Team) :
    Moves strict { t with teams } ps := by
  have alike : t.Beside [] { t with teams } := by
    obtain ⟨h1, h2, h3, h4, h5, h6, h7⟩ := Tables.Beside.refl t
    exact ⟨h1, h2, h3, h4, h5, h6, h7⟩
  exact ha.beside ht alike ⟨fun _ _ q hq => (nomatch hq), fun _ _ _ hy => (nomatch hy)⟩

/-- Moves write no limits. -/
theorem Moves.no_limit (h : Moves strict t ps) (x : Limit) : Put.limit x ∉ ps := by
  induction h with
  | nil t => exact fun hx => nomatch hx
  | cons first rest ih =>
    intro hx
    rcases List.mem_append.1 hx with hx | hx
    · cases first <;> simp at hx
    · exact ih hx

end TeamLedger
