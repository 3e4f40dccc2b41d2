/-
Values and placeholders in the statement of a query.

The values of a query are sent next to its text and leave a number behind, so the
text says only which conditions there are: a query with other values has the same
text (`Query.sql_eq_of_blank`). What is left to go wrong is the numbering. The
numbers are read back here as a database reads them, from the text alone, by
looking for dollar signs (`Sql.placeholders`). No other text of a statement has
one, and none begins with a digit that a number in front of it would swallow
(`Sql.Piece.plain`); the numbers therefore come out as they were given, one for
each value (`Sql.Piece.placeholders_render`).

Which value a number stands for is then a matter of the text in front of it. That
text ends in the column and the operator of one condition, and the value with that
number is the argument of the same condition.
-/
import TeamLedger.Proofs.SelectTexts

set_option autoImplicit false

namespace TeamLedger

namespace Sql

/-! ## Reading the numbers back -/

/-- The numbers of the placeholders in a text: the digits after each dollar sign. -/
def placeholders : List Char → List Nat
  | [] => []
  | c :: cs =>
    if c = '$' then Nat.ofDigitChars 10 (cs.takeWhile Char.isDigit) 0 :: placeholders cs
    else placeholders cs

theorem placeholders_append {cs : List Char} (h : '$' ∉ cs) (rest : List Char) :
    placeholders (cs ++ rest) = placeholders rest := by
  induction cs with
  | nil => rfl
  | cons c cs ih =>
    rw [List.mem_cons, not_or] at h
    rw [List.cons_append, placeholders, if_neg (Ne.symm h.1), ih h.2]

theorem isDigit_of_mem_repr {n : Nat} {c : Char} (h : c ∈ (Nat.repr n).toList) :
    c.isDigit = true := by
  rw [Nat.toList_repr] at h
  exact Nat.isDigit_of_mem_toDigits (by decide) (by decide) h

/-- A number is read to its end, if no digit follows it. -/
theorem placeholders_number (n : Nat) {rest : List Char}
    (hrest : ∀ c ∈ rest.head?, c.isDigit = false) :
    placeholders ('$' :: ((Nat.repr n).toList ++ rest)) = n :: placeholders rest := by
  have no_dollar : '$' ∉ (Nat.repr n).toList := fun h => by simpa using isDigit_of_mem_repr h
  have stop : rest.takeWhile Char.isDigit = [] := by
    cases rest with
    | nil => rfl
    | cons c cs => rw [List.takeWhile_cons, hrest c rfl, if_neg (by simp)]
  rw [placeholders, if_pos rfl, List.takeWhile_append_of_pos fun c => isDigit_of_mem_repr, stop, List.append_nil,
    placeholders_append no_dollar, Nat.toList_repr,
    Nat.ofDigitChars_toDigits (by decide) (by decide)]

namespace Piece

/-! ## Pieces -/

/-- The text of a piece; a value has none. -/
def text? : Piece → Option String
  | text s => some s
  | param _ => none

/-- The rendered text depends on no value. -/
theorem render_congr {ps qs : List Piece} (h : ps.map text? = qs.map text?) (n : Nat) :
    render n ps = render n qs := by
  induction ps generalizing qs n with
  | nil => rw [List.map_eq_nil_iff.1 h.symm]
  | cons p ps ih =>
    obtain ⟨q, qs, rfl, hq, hqs⟩ := List.map_eq_cons_iff.1 h.symm
    cases p with
    | text s =>
      cases q with
      | text s' =>
        rw [render, render, ih hqs.symm, Option.some.inj hq]
      | param v => simp [text?] at hq
    | param v =>
      cases q with
      | text s' => simp [text?] at hq
      | param v' => rw [render, render, ih hqs.symm]

/-- A value, or a text without placeholders of its own that continues no number. -/
def plain : Piece → Bool
  | text s => !s.toList.contains '$' && s.toList.head?.any (!·.isDigit)
  | param _ => true

theorem not_mem_of_plain {s : String} (h : plain (text s) = true) : '$' ∉ s.toList := by
  simp only [plain, Bool.and_eq_true, Bool.not_eq_true', List.contains_eq_mem,
    decide_eq_false_iff_not] at h
  exact h.1

/-- A plain text stays plain as long as no dollar sign is put after it. -/
theorem plain_append {s t : String} (hs : plain (text s) = true) (ht : '$' ∉ t.toList) :
    plain (text (s ++ t)) = true := by
  have hs_dollar := not_mem_of_plain hs
  simp only [plain, Bool.and_eq_true, Bool.not_eq_true', List.contains_eq_mem,
    decide_eq_false_iff_not, Option.any_eq_true] at hs ⊢
  obtain ⟨-, c, hc, hdigit⟩ := hs
  rw [String.toList_append, List.mem_append, not_or, List.head?_append, hc]
  exact ⟨⟨hs_dollar, ht⟩, c, rfl, hdigit⟩

/-- Plain pieces continue no number. -/
theorem head_render {ps : List Piece} (h : ∀ p ∈ ps, p.plain = true) (n : Nat) :
    ∀ c ∈ (render n ps).toList.head?, c.isDigit = false := by
  cases ps with
  | nil => simp [render]
  | cons p ps =>
    have hp := h p List.mem_cons_self
    cases p with
    | text s =>
      simp only [plain, Bool.and_eq_true, Option.any_eq_true] at hp
      obtain ⟨-, c, hc, hdigit⟩ := hp
      intro d hd
      rw [render, String.toList_append, List.head?_append, hc] at hd
      simp_all
    | param v =>
      intro d hd
      have : d = '$' := by simpa [render, eq_comm] using hd
      rw [this]
      rfl

/-- **Plain pieces leave the numbers from `n` on, one for each value and in order.** -/
theorem placeholders_render {ps : List Piece} (h : ∀ p ∈ ps, p.plain = true) (n : Nat) :
    placeholders (render n ps).toList = List.range' n (params ps).length := by
  induction ps generalizing n with
  | nil => rfl
  | cons p ps ih =>
    have hps : ∀ p ∈ ps, p.plain = true := fun p hp => h p (List.mem_cons_of_mem _ hp)
    cases p with
    | text s =>
      rw [render, String.toList_append,
        placeholders_append (not_mem_of_plain (h _ List.mem_cons_self)), ih hps]
      rfl
    | param v =>
      have split : (render n (param v :: ps)).toList =
          '$' :: ((Nat.repr n).toList ++ (render (n + 1) ps).toList) := by
        simp [render, String.toList_append]
      rw [split, placeholders_number n (head_render hps (n + 1)), ih hps]
      rfl

/-- A value among plain pieces: what comes before it has the numbers before its own, and what comes
after it has those after. -/
theorem placeholders_around {ps qs : List Piece} {s : String} {v : Param}
    (hps : ∀ p ∈ ps ++ [text s], p.plain = true) (hqs : ∀ p ∈ qs, p.plain = true) (n : Nat) :
    ∃ before after : String,
      render n (ps ++ text s :: param v :: qs) =
        before ++ s ++ "$" ++ Nat.repr (n + (params ps).length) ++ after ∧
      placeholders (before ++ s).toList = List.range' n (params ps).length ∧
      placeholders after.toList =
        List.range' (n + (params ps).length + 1) (params qs).length := by
  refine ⟨render n ps, render (n + (params ps).length + 1) qs, ?_, ?_, placeholders_render hqs _⟩
  · rw [render_append, render, render]
    simp only [String.append_assoc]
  · have numbers := placeholders_render hps n
    rw [render_append, params_append] at numbers
    simpa [render, params] using numbers

end Piece

end Sql

open Sql

/-! ## Comparisons -/

/-- How a column is held against a value that is sent. -/
inductive Operator
  | equal
  | among
  | atLeast
  | atMost
deriving DecidableEq, Repr

/-- The text between a column and the value. -/
def Operator.text : Operator → String
  | equal => " = "
  | among => " = ANY("
  | atLeast => " >= "
  | atMost => " <= "

/-- A column held against a value that is sent. -/
structure Comparison where
  column : Column
  operator : Operator
  argument : Param
deriving DecidableEq

/-- The text in front of the value. -/
def Comparison.text (c : Comparison) : String := c.column.text ++ c.operator.text

namespace Filter

/-- The condition sends a value. Whether there is a submission is asked in the text itself. -/
def sends : Filter → Bool
  | hasSubmission _ => false
  | _ => true

/-- The same condition about some other value. -/
def blank : Filter → Filter
  | invoiceIds _ => invoiceIds []
  | fromTeam _ => fromTeam 0
  | toTeam _ => toTeam 0
  | fromTeamKind _ => fromTeamKind default
  | toTeamKind _ => toTeamKind default
  | status _ => status default
  | statusIn _ => statusIn []
  | statusNotIn _ => statusNotIn []
  | kind _ => kind default
  | hasSubmission b => hasSubmission b
  | txId _ => txId 0
  | orderId _ => orderId 0
  | submissionId _ => submissionId 0
  | createdBy _ => createdBy 0
  | verifiedBy _ => verifiedBy 0
  | submissionStatus _ => submissionStatus default
  | submittedFrom _ => submittedFrom epoch
  | submittedUntil _ => submittedUntil epoch
  | paidFrom _ => paidFrom epoch
  | paidUntil _ => paidUntil epoch

/-- The column that a condition is about, and the argument that it is held against. -/
def comparison? : Filter → Option Comparison
  | invoiceIds ids => some ⟨.invoiceId, .among, .int8s ids⟩
  | fromTeam id => some ⟨.invoiceFromTeam, .equal, .int8 id⟩
  | toTeam id => some ⟨.invoiceToTeam, .equal, .int8 id⟩
  | fromTeamKind k => some ⟨.fromTeamKind, .equal, .text (Named.name k)⟩
  | toTeamKind k => some ⟨.toTeamKind, .equal, .text (Named.name k)⟩
  | status s => some ⟨.invoiceStatus, .equal, .text (Named.name s)⟩
  | statusIn ss => some ⟨.invoiceStatus, .among, .texts (ss.map Named.name)⟩
  | statusNotIn ss => some ⟨.invoiceStatus, .among, .texts (ss.map Named.name)⟩
  | kind k => some ⟨.invoiceKind, .equal, .text (Named.name k)⟩
  | hasSubmission _ => none
  | txId id => some ⟨.invoiceTxId, .equal, .int8 id⟩
  | orderId id => some ⟨.invoiceOrderId, .equal, .int8 id⟩
  | submissionId id => some ⟨.submissionId, .equal, .int8 id⟩
  | createdBy id => some ⟨.submissionCreatedBy, .equal, .int8 id⟩
  | verifiedBy id => some ⟨.submissionCompletedBy, .equal, .int8 id⟩
  | submissionStatus s => some ⟨.submissionStatus, .equal, .text (Named.name s)⟩
  | submittedFrom t => some ⟨.submissionCreatedAt, .atLeast, .timestamp t⟩
  | submittedUntil t => some ⟨.submissionCreatedAt, .atMost, .timestamp t⟩
  | paidFrom t => some ⟨.historyCreatedAt, .atLeast, .timestamp t⟩
  | paidUntil t => some ⟨.historyCreatedAt, .atMost, .timestamp t⟩

theorem isSome_comparison? (f : Filter) : f.comparison?.isSome = f.sends := by
  cases f <;> rfl

/-- A condition about another value has the same text. -/
theorem text?_pieces_blank (f : Filter) : f.blank.pieces.map Piece.text? = f.pieces.map Piece.text? := by
  cases f with
  | hasSubmission b => rfl
  | _ => rfl

theorem plain_pieces (f : Filter) : ∀ p ∈ f.pieces, p.plain = true := by
  rw [← List.all_eq_true]
  cases f with
  | hasSubmission b => cases b <;> decide +kernel
  | _ => simp only [pieces, List.all_cons, List.all_nil, Piece.plain]; decide +kernel

/-- The pieces of a condition that sends a value: the column and the operator come right before
it. -/
theorem pieces_of_comparison? {f : Filter} {c : Comparison} (h : f.comparison? = some c) :
    ∃ (opening : String) (closing : List Piece),
      f.pieces = .text (opening ++ c.text) :: .param c.argument :: closing ∧
        Piece.params closing = [] := by
  cases f with
  | hasSubmission b => simp [comparison?] at h
  | invoiceIds ids =>
    rw [← Option.some.inj h]
    exact ⟨"", [.text ")"], rfl, rfl⟩
  | statusIn ss =>
    rw [← Option.some.inj h]
    exact ⟨"", [.text ")"], rfl, rfl⟩
  | statusNotIn ss =>
    rw [← Option.some.inj h]
    exact ⟨"NOT (", [.text "))"], rfl, rfl⟩
  | _ =>
    rw [← Option.some.inj h]
    exact ⟨"", [], rfl, rfl⟩

/-- A condition sends its argument, and nothing else. -/
theorem params_pieces (f : Filter) :
    Piece.params f.pieces = (f.comparison?.map Comparison.argument).toList := by
  cases f with
  | hasSubmission b => cases b <;> rfl
  | _ => rfl

end Filter

/-! ## Queries -/

theorem Table.not_mem_source (t : Table) : '$' ∉ t.source.toList := by
  cases t <;> decide +kernel

theorem JoinStep.plain_sql (s : JoinStep) : (Piece.text s.sql).plain = true := by
  have words : '$' ∉ s.kind.words.toList := by
    cases s.kind <;> decide +kernel
  have equation : '$' ∉ ((s.parent.on? s.table).getD "TRUE").toList := by
    cases s.parent <;> cases s.table <;> decide +kernel
  have opening : (Piece.text " ").plain = true := by decide +kernel
  exact Piece.plain_append (Piece.plain_append (Piece.plain_append (Piece.plain_append
    (Piece.plain_append opening words) (by decide)) s.table.not_mem_source) (by decide)) equation

namespace Query

variable {root : Root}

/-- The comparisons of a query, in the order of its conditions. -/
def comparisons (q : Query root) : List Comparison := q.filters.filterMap Filter.comparison?

theorem length_comparisons (q : Query root) :
    q.comparisons.length = q.filters.countP Filter.sends := by
  rw [comparisons, List.length_filterMap_eq_countP]
  simp only [Filter.isSome_comparison?]

/-- The pieces of a query up to its conditions. -/
def opening (q : Query root) : List Piece :=
  .text ("SELECT " ++ root.table.alias ++ ".* FROM " ++ root.table.source ++ " WHERE " ++
      root.table.alias ++ ".id IN (SELECT " ++ root.table.alias ++ ".id FROM " ++
      root.table.source) ::
    q.plan.map (fun s => .text s.sql) ++ [.text " WHERE TRUE"]

/-- The pieces of conditions. -/
def conditions (fs : List Filter) : List Piece := fs.flatMap fun f => .text " AND " :: f.pieces

/-- The pieces of a query after its conditions. -/
def closing (q : Query root) : List Piece :=
  [.text ")", .text root.orderSql] ++ if q.locked then [.text " FOR UPDATE NOWAIT"] else []

theorem pieces_eq (q : Query root) : q.pieces = q.opening ++ conditions q.filters ++ q.closing := by
  simp only [pieces, opening, conditions, closing, List.append_assoc, List.cons_append,
    List.nil_append]

theorem plain_opening (q : Query root) : ∀ p ∈ q.opening, p.plain = true := by
  intro p hp
  simp only [opening, List.cons_append, List.mem_cons, List.mem_append, List.mem_map,
    List.not_mem_nil, or_false] at hp
  obtain rfl | ⟨s, -, rfl⟩ | rfl := hp
  · cases root <;> decide +kernel
  · exact s.plain_sql
  · decide +kernel

theorem plain_conditions (fs : List Filter) : ∀ p ∈ conditions fs, p.plain = true := by
  intro p hp
  obtain ⟨f, -, hf⟩ := List.mem_flatMap.1 hp
  obtain rfl | hf := List.mem_cons.1 hf
  · decide +kernel
  · exact f.plain_pieces p hf

theorem plain_closing (q : Query root) : ∀ p ∈ q.closing, p.plain = true := by
  rw [← List.all_eq_true, closing]
  cases root <;> cases q.locked <;> decide +kernel

theorem plain_query (q : Query root) : ∀ p ∈ q.pieces, p.plain = true := by
  intro p hp
  rw [pieces_eq, List.mem_append, List.mem_append] at hp
  obtain (hp | hp) | hp := hp
  · exact q.plain_opening p hp
  · exact plain_conditions _ p hp
  · exact q.plain_closing p hp

/-! ### Values -/

theorem params_opening (q : Query root) : Piece.params q.opening = [] := by
  rw [Piece.params, List.filterMap_eq_nil_iff]
  intro p hp
  simp only [opening, List.cons_append, List.mem_cons, List.mem_append, List.mem_map,
    List.not_mem_nil, or_false] at hp
  obtain rfl | ⟨s, -, rfl⟩ | rfl := hp <;> rfl

theorem params_closing (q : Query root) : Piece.params q.closing = [] := by
  rw [closing]
  cases q.locked <;> rfl

theorem params_conditions (fs : List Filter) :
    Piece.params (conditions fs) = (fs.filterMap Filter.comparison?).map Comparison.argument := by
  induction fs with
  | nil => rfl
  | cons f fs ih =>
    have split : conditions (f :: fs) = .text " AND " :: (f.pieces ++ conditions fs) := rfl
    have first : Piece.params (.text " AND " :: (f.pieces ++ conditions fs)) =
      Piece.params (f.pieces ++ conditions fs) := rfl
    rw [split, first, Piece.params_append, ih, f.params_pieces, List.filterMap_cons]
    cases f.comparison? <;> rfl

/-- The values of a query are the arguments of its comparisons. -/
theorem params_statement (q : Query root) :
    q.statement.params = q.comparisons.map Comparison.argument := by
  show Piece.params q.pieces = _
  rw [pieces_eq, Piece.params_append, Piece.params_append, params_opening, params_closing,
    params_conditions, List.nil_append, List.append_nil, comparisons]

/-! ### Text -/

/-- A query with other values has the same text. -/
theorem sql_eq_of_blank {q q' : Query root} (hlocked : q'.locked = q.locked)
    (hplan : q'.plan = q.plan) (hfilters : q'.filters.map Filter.blank = q.filters.map Filter.blank) :
    q'.statement.sql = q.statement.sql := by
  have texts (fs : List Filter) :
      (conditions fs).map Piece.text? = (conditions (fs.map Filter.blank)).map Piece.text? := by
    simp only [conditions, List.map_flatMap, List.flatMap_map, List.map_cons,
      Filter.text?_pieces_blank]
  have hconditions : (conditions q'.filters).map Piece.text? =
      (conditions q.filters).map Piece.text? := by
    rw [texts, hfilters, ← texts]
  refine Piece.render_congr ?_ 1
  rw [pieces_eq, pieces_eq, opening, closing, hplan, hlocked]
  simp only [List.map_append, hconditions, opening, closing]

theorem length_params (q : Query root) : (Piece.params q.pieces).length = q.comparisons.length := by
  have := congrArg List.length q.params_statement
  rwa [List.length_map] at this

/-- The numbers in the text of a query run from 1, one for each comparison. -/
theorem placeholders_statement (q : Query root) :
    placeholders q.statement.sql.toList = List.range' 1 q.comparisons.length := by
  show placeholders (Piece.render 1 q.pieces).toList = _
  rw [Piece.placeholders_render q.plain_query, length_params]

/-- The pieces of a query around one of its comparisons. -/
theorem pieces_of_comparison {q : Query root} {k : Nat} {c : Comparison}
    (h : q.comparisons[k]? = some c) :
    ∃ (ps qs : List Piece) (s : String),
      q.pieces = ps ++ .text (s ++ c.text) :: .param c.argument :: qs ∧
        (Piece.params ps).length = k := by
  -- the conditions before, the one compared, and the conditions after
  obtain ⟨hk, hc⟩ := List.getElem?_eq_some_iff.1 h
  have split : q.comparisons = q.comparisons.take k ++ c :: q.comparisons.drop (k + 1) := by
    rw [← hc, ← List.drop_eq_getElem_cons hk, List.take_append_drop]
  obtain ⟨fs, rest, hfilters, hfs, hrest⟩ := List.filterMap_eq_append_iff.1 split
  obtain ⟨between, f, after, rfl, hbetween, hf, -⟩ := List.filterMap_eq_cons_iff.1 hrest
  obtain ⟨s, tail, hpieces, -⟩ := Filter.pieces_of_comparison? hf
  refine ⟨q.opening ++ conditions (fs ++ between) ++ [.text " AND "],
    tail ++ conditions after ++ q.closing, s, ?_, ?_⟩
  · rw [pieces_eq, hfilters]
    simp [conditions, hpieces]
  · have none_between : between.filterMap Filter.comparison? = [] :=
      List.filterMap_eq_nil_iff.2 hbetween
    rw [Piece.params_append, Piece.params_append, params_opening, params_conditions,
      List.filterMap_append, hfs, none_between]
    simp [Piece.params, Nat.min_eq_left (Nat.le_of_lt hk)]

/-- **Values never reach the text, and each stands where its own condition asks for it.** The text of
a query is that of every query with the same root, lock, joins and conditions, whatever the values.
Read back from the text, the placeholders are the numbers from 1 to the number of conditions that
send a value, in order. The values are the arguments of these conditions. And the text up to a
placeholder has the smaller numbers in it and ends in the column and the operator of the condition
whose argument has that number. -/
theorem values_line_up (q : Query root) :
    (∀ q' : Query root, q'.locked = q.locked → q'.plan = q.plan →
      q'.filters.map Filter.blank = q.filters.map Filter.blank →
        q'.statement.sql = q.statement.sql) ∧
    placeholders q.statement.sql.toList = List.range' 1 (q.filters.countP Filter.sends) ∧
    q.statement.params = (q.filters.filterMap Filter.comparison?).map Comparison.argument ∧
    (q.filters.filterMap Filter.comparison?).length = q.filters.countP Filter.sends ∧
    ∀ (k : Nat) (c : Comparison), (q.filters.filterMap Filter.comparison?)[k]? = some c →
      ∃ before after : String,
        q.statement.sql = before ++ c.column.text ++ c.operator.text ++ "$" ++ Nat.repr (k + 1) ++
          after ∧
        placeholders (before ++ c.column.text ++ c.operator.text).toList = List.range' 1 k ∧
        placeholders after.toList =
          List.range' (k + 2) (q.filters.countP Filter.sends - (k + 1)) := by
  refine ⟨fun q' hlocked hplan hfilters => sql_eq_of_blank hlocked hplan hfilters, ?_,
    q.params_statement, q.length_comparisons, ?_⟩
  · rw [← length_comparisons]
    exact q.placeholders_statement
  · intro k c hc
    obtain ⟨ps, qs, s, hpieces, hlength⟩ := pieces_of_comparison hc
    have all_plain := q.plain_query
    rw [hpieces] at all_plain
    have hps : ∀ p ∈ ps ++ [.text (s ++ c.text)], p.plain = true := by
      intro p hp
      refine all_plain p ?_
      simp only [List.mem_append, List.mem_cons, List.not_mem_nil, or_false] at hp ⊢
      exact hp.imp_right Or.inl
    have hqs : ∀ p ∈ qs, p.plain = true := by
      intro p hp
      exact all_plain p (List.mem_append_right _ (List.mem_cons_of_mem _ (List.mem_cons_of_mem _ hp)))
    -- the values after this one are those that are left
    have hrest : (Piece.params qs).length = q.filters.countP Filter.sends - (k + 1) := by
      have total := q.length_params
      have here : Piece.params (.text (s ++ c.text) :: .param c.argument :: qs) =
        c.argument :: Piece.params qs := rfl
      rw [hpieces, Piece.params_append, here, List.length_append, hlength, List.length_cons,
        length_comparisons] at total
      omega
    obtain ⟨before, after, htext, hbefore, hafter⟩ :=
      Piece.placeholders_around (v := c.argument) hps hqs 1
    refine ⟨before ++ s, after, ?_, ?_, ?_⟩
    · show Piece.render 1 q.pieces = _
      rw [hpieces, htext, hlength, Nat.add_comm 1 k, Comparison.text]
      simp only [String.append_assoc]
    · rw [hlength, Comparison.text] at hbefore
      rw [← hbefore]
      simp only [String.append_assoc]
    · rw [hafter, hlength, hrest]
      congr 1
      omega

/-- Two queries that differ in their values only, one of which asks for a list. -/
theorem values_line_up_two :
    let steps (ids : List Ident) (status : Invoice.Status) : Chain .invoice .submission :=
      .cons (.ids ids) (.cons (.hasSubmission (some true)) (.cons (.excludeStatuses [status])
        (.cons (.toSubmissions .left) .nil)))
    (build true (steps [1, 2] .paid)).statement.sql =
        (build true (steps [7] .notPaid)).statement.sql ∧
      ∃ before after : String,
        (build true (steps [7] .notPaid)).statement.sql =
          before ++ "invoices.status = ANY($2" ++ after := by
  intro steps
  obtain ⟨same, -, -, -, placed⟩ := values_line_up (build true (steps [7] .notPaid))
  refine ⟨same (build true (steps [1, 2] .paid)) rfl (by decide +kernel) (by decide +kernel), ?_⟩
  obtain ⟨before, after, htext, -⟩ :=
    placed 1 ⟨.invoiceStatus, .among, .texts ["not_paid"]⟩ (by decide +kernel)
  exact ⟨before, after, by rw [htext]; simp only [String.append_assoc]; rfl⟩

end Query

end TeamLedger
