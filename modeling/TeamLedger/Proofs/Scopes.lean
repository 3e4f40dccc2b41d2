/-
Which names a statement of a query brings in, and where it uses them.

The names are read from the text alone. What stands between blanks, parentheses
and commas is a word (`Sql.words`). A word after `FROM` or `JOIN` brings a name
in, the one after `AS` if there is one, and a word with a point uses the name in
front of the point (`Sql.mentions`).

A statement is put together from texts that leave nothing open at their ends, with
a blank or a parenthesis in between, so each of them is read by itself
(`Sql.Reads`). What the texts of the subquery mention is then a matter of the plan:
it joins a table after the one that it is joined to, and besides the root it joins
every table that a condition is about.
-/
import Mathlib.Data.List.Nodup
import TeamLedger.Proofs.JoinPlans
import TeamLedger.Proofs.Placeholders

set_option autoImplicit false

namespace TeamLedger

namespace Sql

/-! ## Words -/

/-- The character ends a word. -/
def isBreak (c : Char) : Bool := c = ' ' || c = '(' || c = ')' || c = ','

/-- The words of a text. -/
def words (text : String) : List String :=
  ((text.toList.splitOnP isBreak).filter (· ≠ [])).map String.ofList

/-- The text begins with the end of a word, or it is empty. -/
def Opens (text : String) : Prop := ∀ c ∈ text.toList.head?, isBreak c = true

/-- The text ends with the end of a word. -/
def Closes (text : String) : Prop := ∃ c ∈ text.toList.getLast?, isBreak c = true

instance (text : String) : Decidable (Opens text) :=
  decidable_of_iff (text.toList.head?.all isBreak = true) (by simp [Opens, Option.all_eq_true])

instance (text : String) : Decidable (Closes text) :=
  decidable_of_iff (text.toList.getLast?.any isBreak = true) (by simp [Closes, Option.any_eq_true])

theorem opens_empty : Opens "" := by decide

theorem Opens.append {s t : String} (hs : Opens s) (ht : Opens t) : Opens (s ++ t) := by
  intro c hc
  rw [String.toList_append, List.head?_append] at hc
  cases hhead : s.toList.head? with
  | none =>
    rw [hhead] at hc
    exact ht c hc
  | some d =>
    rw [hhead] at hc
    exact hs c (hhead ▸ hc)

theorem opens_append {s : String} (t : String) (hs : Opens s) (hne : s ≠ "") : Opens (s ++ t) := by
  intro c hc
  rw [String.toList_append, List.head?_append_of_ne_nil _ fun h => hne (String.toList_inj.1 h)] at hc
  exact hs c hc

theorem Closes.append {t : String} (s : String) (ht : Closes t) : Closes (s ++ t) := by
  obtain ⟨c, hc, hbreak⟩ := ht
  refine ⟨c, ?_, hbreak⟩
  rw [String.toList_append, List.getLast?_append, hc]
  rfl

/-- A break in a text is between words. -/
theorem words_break {s t text : String} {c : Char} (hc : isBreak c = true)
    (htext : text.toList = s.toList ++ c :: t.toList) : words text = words s ++ words t := by
  unfold words
  rw [htext, List.splitOnP_append_cons _ _ hc, List.filter_append, List.map_append]

theorem words_empty : words "" = [] := by decide +kernel

/-- A text that begins with the end of a word begins a new word. -/
theorem words_append {s t : String} (ht : Opens t) : words (s ++ t) = words s ++ words t := by
  cases htext : t.toList with
  | nil =>
    obtain rfl : t = "" := String.toList_inj.1 htext
    rw [String.append_empty, words_empty, List.append_nil]
  | cons c cs =>
    have hc : isBreak c = true := ht c (by rw [htext]; rfl)
    have behind : words t = words "" ++ words (String.ofList cs) :=
      words_break hc (by simp [htext])
    rw [behind, words_empty, List.nil_append]
    exact words_break hc (by rw [String.toList_append, htext, String.toList_ofList])

/-- What comes after the end of a word begins a new word. -/
theorem words_append_of_closes {s t : String} (hs : Closes s) :
    words (s ++ t) = words s ++ words t := by
  obtain ⟨c, hlast, hc⟩ := hs
  obtain ⟨cs, hcs⟩ := List.getLast?_eq_some_iff.1 hlast
  have front : words s = words (String.ofList cs) ++ words "" :=
    words_break hc (by rw [hcs, String.toList_ofList]; rfl)
  rw [front, words_empty, List.append_nil]
  refine words_break hc ?_
  rw [String.toList_append, hcs, String.toList_ofList, List.append_assoc]
  rfl

/-! ## Names -/

/-- A name in a statement, where it is brought in and where it qualifies a column. -/
inductive Mention
  | brings (name : String)
  | uses (name : String)
deriving DecidableEq, Repr

/-- The name under which a table is brought in, from the words that follow. -/
def broughtName : List String → String
  | source :: as :: name :: _ => if as = "AS" then name else source
  | source :: _ => source
  | [] => ""

/-- The name in front of the point, if the word has one. -/
def qualifier? (word : String) : Option String :=
  if '.' ∈ word.toList then some (String.ofList (word.toList.takeWhile (· ≠ '.'))) else none

/-- The names that words bring in and use, in order. -/
def mentions : List String → List Mention
  | [] => []
  | word :: rest =>
    if word = "FROM" ∨ word = "JOIN" then .brings (broughtName rest) :: mentions rest
    else
      match qualifier? word with
      | some name => .uses name :: mentions rest
      | none => mentions rest

/-- Every name that is used was brought in before, once, and is not brought in again. -/
def Scoped (ms : List Mention) : Prop :=
  ∀ before name after, ms = before ++ .uses name :: after →
    before.count (.brings name) = 1 ∧ .brings name ∉ after

/-- Words at whose end nothing is left open. -/
def Settled (ws : List String) : Prop :=
  ∀ w ∈ ws.getLast?, w ≠ "FROM" ∧ w ≠ "JOIN" ∧ w ≠ "AS"

/-- Words that do not go on with a name for what comes before. -/
def Fresh (ws : List String) : Prop := ∀ w ∈ ws.head?, w ≠ "AS"

instance (ws : List String) : Decidable (Settled ws) :=
  inferInstanceAs (Decidable (∀ w ∈ ws.getLast?, _))

instance (ws : List String) : Decidable (Fresh ws) :=
  inferInstanceAs (Decidable (∀ w ∈ ws.head?, _))

theorem broughtName_append {ws ws' : List String} (hne : ws ≠ []) (hws : Settled ws)
    (hws' : Fresh ws') : broughtName (ws ++ ws') = broughtName ws := by
  match ws with
  | [] => exact absurd rfl hne
  | [source] =>
    match ws' with
    | [] => rfl
    | [w] => rfl
    | w :: name :: rest => exact if_neg (hws' w rfl)
  | [source, as] =>
    have has : as ≠ "AS" := (hws as rfl).2.2
    cases ws' with
    | nil => rfl
    | cons w rest => exact if_neg has
  | source :: as :: name :: rest => rfl

theorem mentions_append {ws ws' : List String} (hws : Settled ws) (hws' : Fresh ws') :
    mentions (ws ++ ws') = mentions ws ++ mentions ws' := by
  induction ws with
  | nil => rfl
  | cons w ws ih =>
    have hrest : Settled ws := by
      intro v hv
      cases ws with
      | nil => cases hv
      | cons u us => exact hws v (by rwa [List.getLast?_cons_cons])
    rw [List.cons_append, mentions, mentions]
    split
    next hbrings =>
      have hne : ws ≠ [] := by
        rintro rfl
        obtain ⟨hfrom, hjoin, -⟩ := hws w rfl
        exact hbrings.elim hfrom hjoin
      rw [broughtName_append hne hrest hws', ih hrest, List.cons_append]
    next =>
      cases qualifier? w with
      | none => exact ih hrest
      | some name => rw [ih hrest, List.cons_append]

/-! ## Reading part by part -/

/-- The text is read by itself, and the names in it are the given ones. -/
structure Reads (text : String) (ms : List Mention) : Prop where
  fresh : Fresh (words text)
  settled : Settled (words text)
  mentions_eq : mentions (words text) = ms

instance (text : String) (ms : List Mention) : Decidable (Reads text ms) :=
  decidable_of_iff (Fresh (words text) ∧ Settled (words text) ∧ mentions (words text) = ms)
    ⟨fun h => ⟨h.1, h.2.1, h.2.2⟩, fun h => ⟨h.fresh, h.settled, h.mentions_eq⟩⟩

theorem Fresh.append {ws ws' : List String} (h : Fresh ws) (h' : Fresh ws') : Fresh (ws ++ ws') := by
  intro w hw
  cases ws with
  | nil => exact h' w hw
  | cons v vs => exact h w hw

theorem Settled.append {ws ws' : List String} (h : Settled ws) (h' : Settled ws') :
    Settled (ws ++ ws') := by
  intro w hw
  rw [List.getLast?_append, Option.mem_def, Option.or_eq_some_iff] at hw
  rcases hw with hw | ⟨-, hw⟩
  · exact h' w hw
  · exact h w hw

namespace Reads

variable {s t : String} {ms ms' : List Mention}

theorem empty : Reads "" [] := by
  constructor <;> rw [words_empty]
  · exact fun w hw => nomatch hw
  · exact fun w hw => nomatch hw
  · rfl

theorem of_words_eq (hs : Reads s ms) (ht : Reads t ms') {text : String}
    (h : words text = words s ++ words t) : Reads text (ms ++ ms') where
  fresh := h ▸ hs.fresh.append ht.fresh
  settled := h ▸ hs.settled.append ht.settled
  mentions_eq := by
    rw [h, mentions_append hs.settled ht.fresh, hs.mentions_eq, ht.mentions_eq]

theorem append (hs : Reads s ms) (ht : Reads t ms') (hopens : Opens t) : Reads (s ++ t) (ms ++ ms') :=
  hs.of_words_eq ht (words_append hopens)

theorem append_of_closes (hs : Reads s ms) (ht : Reads t ms') (hcloses : Closes s) :
    Reads (s ++ t) (ms ++ ms') :=
  hs.of_words_eq ht (words_append_of_closes hcloses)

theorem join {α : Type} {text : α → String} {names : α → List Mention} {as : List α}
    (h : ∀ a ∈ as, Opens (text a) ∧ Reads (text a) (names a)) :
    Opens (String.join (as.map text)) ∧ Reads (String.join (as.map text)) (as.flatMap names) := by
  induction as with
  | nil => exact ⟨opens_empty, .empty⟩
  | cons a as ih =>
    obtain ⟨hopens, hreads⟩ := ih fun b hb => h b (List.mem_cons_of_mem _ hb)
    obtain ⟨ha_opens, ha_reads⟩ := h a List.mem_cons_self
    rw [List.map_cons, String.join_cons, List.flatMap_cons]
    exact ⟨ha_opens.append hopens, ha_reads.append hreads hopens⟩

/-- A text without an end of a word in it is a word. -/
theorem words_of_forall {w : String} (hne : w ≠ "") (h : ∀ c ∈ w.toList, isBreak c = false) :
    words w = [w] := by
  have hsome : w.toList ≠ [] := fun hnil => hne (String.toList_inj.1 hnil)
  unfold words
  rw [List.splitOnP_eq_singleton h, List.filter_cons_of_pos (by simpa using hsome), List.filter_nil,
    List.map_singleton, String.ofList_toList]

/-- The number of a value is a word without names. -/
theorem number (n : Nat) : Reads ("$" ++ Nat.repr n) [] := by
  have first {word : String} (h : word.toList.head? ≠ some '$') : "$" ++ Nat.repr n ≠ word :=
    fun heq => h (by rw [← heq, String.toList_append]; rfl)
  have mem {c : Char} (h : c ∈ ("$" ++ Nat.repr n).toList) : c = '$' ∨ c.isDigit = true := by
    rw [String.toList_append, List.mem_append] at h
    exact h.imp (by simp) isDigit_of_mem_repr
  have no_break : ∀ c ∈ ("$" ++ Nat.repr n).toList, isBreak c = false := by
    intro c hc
    by_contra hbreak
    simp only [isBreak, Bool.not_eq_false, Bool.or_eq_true, decide_eq_true_eq] at hbreak
    rcases hbreak with ((rfl | rfl) | rfl) | rfl <;> simpa using mem hc
  have no_point : '.' ∉ ("$" ++ Nat.repr n).toList := fun h => by simpa using mem h
  have hwords := words_of_forall (first (by decide)) no_break
  constructor <;> rw [hwords]
  · rintro w ⟨⟩
    exact first (by decide)
  · rintro w ⟨⟩
    exact ⟨first (by decide), first (by decide), first (by decide)⟩
  · rw [mentions, if_neg (not_or.2 ⟨first (by decide), first (by decide)⟩), qualifier?,
      if_neg no_point]
    rfl

/-- A value between two texts. -/
theorem value (hs : Reads s ms) (hcloses : Closes s) (ht : Reads t ms') (hopens : Opens t) (n : Nat) :
    Reads (s ++ ("$" ++ Nat.repr n ++ t)) (ms ++ ms') :=
  hs.append_of_closes ((number n).append ht hopens) hcloses

end Reads

/-! ## Columns, equations and conditions -/

namespace Column

/-- A column is one word, and it uses the name of its table. -/
theorem reads (c : Column) : Reads c.text [.uses c.table.alias] := by
  have alias_all : c.table.alias.toList.all (fun d => !isBreak d && d != '.') = true := by
    cases c.table <;> decide +kernel
  have alias_letters : ∀ d ∈ c.table.alias.toList, isBreak d = false ∧ d ≠ '.' := by
    simpa using alias_all
  have name_all : c.name.toList.all (fun d => !isBreak d) = true := by
    cases c <;> decide +kernel
  have name_letters : ∀ d ∈ c.name.toList, isBreak d = false := by
    simpa using name_all
  have htext : c.text.toList = c.table.alias.toList ++ '.' :: c.name.toList := by
    simp [text, String.toList_append]
  have no_break : ∀ d ∈ c.text.toList, isBreak d = false := by
    intro d hd
    rw [htext, List.mem_append, List.mem_cons] at hd
    rcases hd with hd | rfl | hd
    · exact (alias_letters d hd).1
    · rfl
    · exact name_letters d hd
  have hqualifier : qualifier? c.text = some c.table.alias := by
    rw [qualifier?, htext, if_pos (List.mem_append_right _ List.mem_cons_self),
      List.takeWhile_append_of_pos fun d hd => by simpa using (alias_letters d hd).2,
      List.takeWhile_cons_of_neg (by simp), List.append_nil, String.ofList_toList]
  have other {word : String} (h : qualifier? word = none) : c.text ≠ word := by
    rintro rfl
    rw [h] at hqualifier
    cases hqualifier
  have hwords := Reads.words_of_forall (other (by decide)) no_break
  constructor <;> rw [hwords]
  · rintro w ⟨⟩
    exact other (by decide)
  · rintro w ⟨⟩
    exact ⟨other (by decide), other (by decide), other (by decide)⟩
  · rw [mentions, if_neg (not_or.2 ⟨other (by decide), other (by decide)⟩), hqualifier]
    rfl

end Column

namespace Condition

/-- The columns of a condition. -/
def columns : Condition → List Column
  | equals c _ | atLeast c _ | atMost c _ | among c _ | is c _ | isNull c => [c]
  | not x => x.columns
  | or x y => x.columns ++ y.columns

theorem columns_ne_nil (x : Condition) : x.columns ≠ [] := by
  induction x with
  | not x ih => exact ih
  | or x y ih _ => exact List.append_ne_nil_of_left_ne_nil ih _
  | _ => exact List.cons_ne_nil _ _

/-- A condition is read by itself, and it uses the names of its columns' tables. -/
theorem reads (x : Condition) (n : Nat) :
    Reads (Piece.render n x.pieces) (x.columns.map fun c => .uses c.table.alias) := by
  -- a column and an operator, then a value, then a clause that closes the operator
  have compared (c : Column) {operator closing : String} (hoperator : Reads operator [])
      (hopens : Opens operator) (hcloses : Closes operator) (hclosing : Reads closing [])
      (hclosing_opens : Opens closing) (n : Nat) :
      Reads (c.text ++ operator ++ ("$" ++ Nat.repr n ++ closing)) [.uses c.table.alias] :=
    (c.reads.append hoperator hopens).value (hcloses.append _) hclosing hclosing_opens n
  have stated (c : Column) {rest : String} (hrest : Reads rest []) (hopens : Opens rest) :
      Reads (c.text ++ rest) [.uses c.table.alias] := c.reads.append hrest hopens
  induction x generalizing n with
  | equals c v | atLeast c t | atMost c t =>
    exact compared c (by decide +kernel) (by decide) (by decide) .empty opens_empty n
  | among c vs =>
    have hclosing : Reads (")" ++ "") [] := by decide +kernel
    exact compared c (by decide +kernel) (by decide) (by decide) hclosing (by decide) n
  | is c b =>
    simp only [pieces, Piece.render, String.append_empty, String.append_assoc]
    cases b <;> exact stated c (by decide +kernel) (by decide)
  | isNull c =>
    simp only [pieces, Piece.render, String.append_empty]
    exact stated c (by decide +kernel) (by decide)
  | not x ih =>
    have opening : Reads "NOT (" [] := by decide +kernel
    have closing : Reads ")" [] := by decide +kernel
    have enclosed {s : String} {ms : List Mention} (hs : Reads s ms) :
        Reads ("NOT (" ++ s ++ ")") ms := by
      simpa using (opening.append_of_closes hs (by decide)).append closing (by decide)
    simp only [pieces, Piece.render_append, Piece.render, String.append_empty]
    exact enclosed (ih _)
  | or x y ihx ihy =>
    have opening : Reads "(" [] := by decide +kernel
    have between : Reads " OR " [] := by decide +kernel
    have closing : Reads ")" [] := by decide +kernel
    have enclosed {s t : String} {ms ms' : List Mention} (hs : Reads s ms) (ht : Reads t ms') :
        Reads ("(" ++ s ++ " OR " ++ t ++ ")") (ms ++ ms') := by
      have first := (opening.append_of_closes hs (by decide)).append between (by decide)
      have second := first.append_of_closes ht (Closes.append _ (by decide))
      simpa using second.append closing (by decide)
    simp only [pieces, Piece.render_append, Piece.render, String.append_empty]
    rw [columns, List.map_append]
    exact enclosed (ihx _) (ihy _)

end Condition

end Sql

open Sql

/-! ## The texts of a query -/

theorem Table.alias_injective {t u : Table} (h : t.alias = u.alias) : t = u := by
  revert h
  cases t <;> cases u <;> decide

/-- The reference to a table brings in its name. -/
theorem Table.reads_source (t : Table) (kind : JoinKind) :
    Reads (" " ++ kind.words ++ " " ++ t.source) [.brings t.alias] := by
  cases kind <;> cases t <;> decide +kernel

/-- Two neighbours are joined by an equation between a column of the one and a column of the other. -/
theorem Table.onColumns_of_mem {t u : Table} (h : u ∈ t.neighbours) :
    ∃ c d, t.onColumns u = some (c, d) ∧
      (c.table = t ∧ d.table = u ∨ c.table = u ∧ d.table = t) := by
  revert h
  cases t <;> cases u <;> first
    | exact fun h => absurd h (by decide)
    | exact fun _ => ⟨_, _, rfl, by decide⟩

/-- The names in a join: it brings in its table, and its equation uses those of its columns. -/
def JoinStep.names (s : JoinStep) : List Mention :=
  .brings s.table.alias ::
    (s.parent.onColumns s.table).elim [] fun e => [.uses e.1.table.alias, .uses e.2.table.alias]

/-- A join is read by itself. -/
theorem JoinStep.reads (s : JoinStep) : Opens s.sql ∧ Reads s.sql s.names := by
  have on : Reads " ON " [] := by decide +kernel
  have equals : Reads " = " [] := by decide +kernel
  have equation : Reads (s.parent.onColumns s.table).text
      ((s.parent.onColumns s.table).elim [] fun e =>
        [.uses e.1.table.alias, .uses e.2.table.alias]) := by
    cases s.parent.onColumns s.table with
    | none => exact (by decide +kernel : Reads "TRUE" [])
    | some e =>
      exact (e.1.reads.append equals (by decide)).append_of_closes e.2.reads
        (Closes.append _ (by decide))
  have hsql : s.sql = " " ++ s.kind.words ++ " " ++ s.table.source ++ " ON " ++
      (s.parent.onColumns s.table).text := by
    rw [JoinStep.sql, Table.text_onColumns]
  rw [hsql]
  refine ⟨?_, ?_⟩
  · simp only [String.append_assoc]
    exact opens_append _ (by decide) (by decide)
  · exact ((s.table.reads_source s.kind).append on (by decide)).append_of_closes equation
      (Closes.append _ (by decide))

/-- A join of two neighbours uses both of their names. -/
theorem JoinStep.mem_names {s : JoinStep} (h : s.table ∈ s.parent.neighbours) {name : String} :
    .uses name ∈ s.names.tail ↔ name = s.parent.alias ∨ name = s.table.alias := by
  obtain ⟨c, d, hcolumns, ⟨hc, hd⟩ | ⟨hc, hd⟩⟩ := Table.onColumns_of_mem h
  · simp [names, hcolumns, hc, hd]
  · simp [names, hcolumns, hc, hd, or_comm]

theorem JoinStep.uses_of_mem {s : JoinStep} {m : Mention} (h : m ∈ s.names.tail) :
    ∃ name, m = .uses name := by
  revert h
  rw [names, List.tail_cons]
  cases s.parent.onColumns s.table with
  | none => exact fun h => nomatch h
  | some e =>
    intro h
    simp only [Option.elim_some, List.mem_cons, List.not_mem_nil, or_false] at h
    exact h.elim (fun h => ⟨_, h⟩) fun h => ⟨_, h⟩

/-- A condition of a query is about columns of its table. -/
theorem Filter.table_of_mem_columns (f : Filter) : ∀ c ∈ f.condition.columns, c.table = f.table := by
  cases f with
  | hasSubmission b => cases b <;> decide
  | _ => exact fun c hc => by rw [List.mem_singleton.1 hc]; rfl

/-! ## Scopes -/

/-- Every name that is brought in is new, and every name that is used is there; the given ones are
there before. -/
def Sql.Grounded : List String → List Mention → Prop
  | _, [] => True
  | names, .brings name :: ms => name ∉ names ∧ Grounded (names ++ [name]) ms
  | names, .uses name :: ms => name ∈ names ∧ Grounded names ms

namespace Sql.Grounded

variable {names : List String} {ms rest : List Mention}

theorem uses (h : ∀ m ∈ ms, ∃ name ∈ names, m = .uses name) (hrest : Grounded names rest) :
    Grounded names (ms ++ rest) := by
  induction ms with
  | nil => exact hrest
  | cons m ms ih =>
    obtain ⟨name, hname, rfl⟩ := h m List.mem_cons_self
    exact ⟨hname, ih fun m' hm' => h m' (List.mem_cons_of_mem _ hm')⟩

/-- A name that is there is not brought in. -/
theorem not_brings {name : String} (h : Grounded names ms) (hname : name ∈ names) :
    .brings name ∉ ms := by
  induction ms generalizing names with
  | nil => exact List.not_mem_nil
  | cons m ms ih =>
    rw [List.mem_cons, not_or]
    cases m with
    | brings other =>
      refine ⟨?_, ih h.2 (List.mem_append_left _ hname)⟩
      rintro ⟨⟩
      exact h.1 hname
    | uses other => exact ⟨Mention.noConfusion, ih h.2 hname⟩

theorem count_brings (h : Grounded names ms) (hnodup : names.Nodup) {before after : List Mention}
    {name : String} (hms : ms = before ++ .uses name :: after) :
    names.count name + before.count (.brings name) = 1 ∧ .brings name ∉ after := by
  induction ms generalizing names before with
  | nil => simp at hms
  | cons m ms ih =>
    cases before with
    | nil =>
      obtain ⟨rfl, rfl⟩ := List.cons.inj hms
      exact ⟨List.count_eq_one_of_mem hnodup h.1, h.2.not_brings h.1⟩
    | cons m' before =>
      obtain ⟨rfl, hbehind⟩ := List.cons.inj hms
      cases m with
      | brings other =>
        have hnew : (names ++ [other]).Nodup :=
          List.nodup_append.2 ⟨hnodup, List.nodup_singleton _, by
            rintro a ha _ hb rfl
            exact h.1 (List.mem_singleton.1 hb ▸ ha)⟩
        obtain ⟨hcount, hafter⟩ := ih h.2 hnew hbehind
        refine ⟨?_, hafter⟩
        rw [List.count_append, List.count_singleton] at hcount
        rw [List.count_cons]
        simp only [beq_iff_eq, Mention.brings.injEq] at hcount ⊢
        omega
      | uses other =>
        obtain ⟨hcount, hafter⟩ := ih h.2 hnodup hbehind
        exact ⟨by rwa [List.count_cons_of_ne (by simp)], hafter⟩

theorem scoped_of_nil (h : Grounded [] ms) : Scoped ms := by
  intro before name after hms
  obtain ⟨hcount, hafter⟩ := h.count_brings List.nodup_nil hms
  rw [List.count_nil, Nat.zero_add] at hcount
  exact ⟨hcount, hafter⟩

end Sql.Grounded

/-- Every join of a plan leads to a neighbour, from a table that is there before it. -/
theorem JoinSet.Planned.parent_mem {s : JoinSet} {placed : List Table} {plan : List JoinStep}
    (h : s.Planned placed plan) {before after : List JoinStep} {step : JoinStep}
    (hplan : plan = before ++ step :: after) :
    step.table ∈ step.parent.neighbours ∧
      (step.parent ∈ placed ∨ step.parent ∈ before.map (·.table)) := by
  induction h generalizing before with
  | nil => simp at hplan
  | @cons placed first plan hparent hnext _ _ _ _ ih =>
    cases before with
    | nil =>
      obtain ⟨rfl, -⟩ := List.cons.inj hplan
      exact ⟨hnext, .inl hparent⟩
    | cons first' before =>
      obtain ⟨rfl, hbehind⟩ := List.cons.inj hplan
      obtain ⟨hneighbour, hthere⟩ := ih hbehind
      refine ⟨hneighbour, ?_⟩
      rw [List.mem_append, List.mem_singleton, or_assoc] at hthere
      exact hthere.imp_right List.mem_cons.2

/-- A plan joins no table twice. -/
theorem JoinSet.Planned.nodup {s : JoinSet} {placed : List Table} {plan : List JoinStep}
    (h : s.Planned placed plan) (hplaced : placed.Nodup) :
    (placed ++ plan.map (·.table)).Nodup := by
  induction h with
  | nil placed => simpa using hplaced
  | @cons placed step plan _ _ hfresh _ _ _ ih =>
    have hnew : (placed ++ [step.table]).Nodup := by
      rw [List.nodup_append]
      refine ⟨hplaced, List.nodup_singleton _, ?_⟩
      rintro t ht _ hmem rfl
      exact hfresh (List.mem_singleton.1 hmem ▸ ht)
    simpa using ih hnew

/-- A plan joins tables that are new to tables that are there. -/
theorem JoinSet.Planned.grounded {s : JoinSet} {placed : List Table} {plan : List JoinStep}
    (h : s.Planned placed plan) {rest : List Mention}
    (hrest : Grounded ((placed ++ plan.map (·.table)).map Table.alias) rest) :
    Grounded (placed.map Table.alias) (plan.flatMap JoinStep.names ++ rest) := by
  induction h with
  | nil placed => simpa using hrest
  | @cons placed step plan hparent hnext hfresh _ _ _ ih =>
    have hnew : step.table.alias ∉ placed.map Table.alias := fun hmem => by
      obtain ⟨t, ht, halias⟩ := List.mem_map.1 hmem
      exact hfresh (Table.alias_injective halias ▸ ht)
    have hrest' := ih (by simpa using hrest)
    rw [List.map_append] at hrest'
    rw [List.flatMap_cons, List.append_assoc]
    refine ⟨hnew, Grounded.uses (fun m hm => ?_) hrest'⟩
    obtain ⟨name, rfl⟩ := JoinStep.uses_of_mem hm
    refine ⟨name, ?_, rfl⟩
    rcases (JoinStep.mem_names hnext).1 hm with rfl | rfl
    · exact List.mem_append_left _ (List.mem_map_of_mem hparent)
    · exact List.mem_append_right _ List.mem_cons_self

/-! ## Statements -/

namespace Query

variable {root : Root} {q : Query root}

/-- The part of a query's subquery that comes after the column it returns. -/
def subquery (q : Query root) : String :=
  " FROM " ++ root.table.source ++ String.join (q.plan.map JoinStep.sql) ++ " WHERE TRUE" ++
    Piece.render 1 (conditions q.filters)

theorem render_texts (n : Nat) (texts : List String) :
    Piece.render n (texts.map .text) = String.join texts := by
  induction texts with
  | nil => rfl
  | cons s texts ih => rw [List.map_cons, Piece.render, ih, String.join_cons]

theorem sql_eq (q : Query root) :
    q.statement.sql = "SELECT " ++ root.table.alias ++ ".*" ++ " FROM " ++ root.table.source ++
      " WHERE " ++ root.table.alias ++ ".id IN (" ++ "SELECT " ++ root.table.alias ++ ".id" ++
      q.subquery ++ ")" ++ root.orderSql ++ if q.locked then " FOR UPDATE NOWAIT" else "" := by
  have joins (n : Nat) : Piece.render n (q.plan.map fun s => .text s.sql) =
      String.join (q.plan.map JoinStep.sql) := by
    rw [← render_texts n, List.map_map]
    rfl
  have closing_text (n : Nat) : Piece.render n q.closing =
      ")" ++ root.orderSql ++ if q.locked then " FOR UPDATE NOWAIT" else "" := by
    rw [closing]
    cases q.locked <;> simp [Piece.render, String.append_assoc]
  have from_select : ".* FROM " = ".*" ++ " FROM " := by decide
  have id_in : ".id IN (SELECT " = ".id IN (" ++ "SELECT " := by decide
  have id_from : ".id FROM " = ".id" ++ " FROM " := by decide
  show Piece.render 1 q.pieces = _
  rw [pieces_eq, Piece.render_append, closing_text, Piece.render_append, params_opening, opening,
    Piece.render_append, Piece.render, joins, from_select, id_in, id_from, subquery]
  simp only [Piece.render, String.append_empty, String.append_assoc]
  rfl

/-- The conditions of a query are read one by one. -/
theorem reads_conditions (fs : List Filter) (n : Nat) :
    Opens (Piece.render n (conditions fs)) ∧ Reads (Piece.render n (conditions fs))
      (fs.flatMap fun f => f.condition.columns.map fun c => .uses c.table.alias) := by
  induction fs generalizing n with
  | nil => exact ⟨opens_empty, .empty⟩
  | cons f fs ih =>
    have opening : Reads " AND " [] := by decide +kernel
    have first := opening.append_of_closes (f.condition.reads n) (by decide)
    rw [← f.pieces_same.render, List.nil_append] at first
    have split : conditions (f :: fs) = .text " AND " :: f.pieces ++ conditions fs := rfl
    obtain ⟨hopens, hreads⟩ := ih (n + (Piece.params (.text " AND " :: f.pieces)).length)
    rw [split, Piece.render_append, List.flatMap_cons]
    exact ⟨(opens_append _ (by decide) (by decide)).append hopens, first.append hreads hopens⟩

/-- What is read in a subquery. -/
theorem reads_subquery (q : Query root) : Opens q.subquery ∧ Reads q.subquery
    (.brings root.table.alias :: (q.plan.flatMap JoinStep.names ++
      q.filters.flatMap fun f => f.condition.columns.map fun c => .uses c.table.alias)) := by
  have from_root : Reads (" FROM " ++ root.table.source) [.brings root.table.alias] := by
    cases root <;> decide +kernel
  have true_condition : Reads " WHERE TRUE" [] := by decide +kernel
  obtain ⟨hjoins_opens, hjoins⟩ := Reads.join fun step (_ : step ∈ q.plan) => step.reads
  obtain ⟨hconditions_opens, hconditions⟩ := reads_conditions q.filters 1
  refine ⟨?_, ?_⟩
  · unfold subquery
    simp only [String.append_assoc]
    exact opens_append _ (by decide) (by decide)
  · have hall := ((from_root.append hjoins hjoins_opens).append true_condition (by decide)).append
      hconditions hconditions_opens
    simpa [subquery, List.append_assoc] using hall

theorem nodup_plan (q : Query root) : (root.table :: q.plan.map (·.table)).Nodup :=
  q.plan_planned.nodup (List.nodup_singleton _)

/-- The joins of a query are between neighbours. -/
theorem mem_neighbours_of_mem_plan {step : JoinStep} (h : step ∈ q.plan) :
    step.table ∈ step.parent.neighbours := by
  obtain ⟨before, after, hplan⟩ := List.append_of_mem h
  exact (q.plan_planned.parent_mem hplan).1

/-- If the tables of a query hang together and its conditions are about them, a name is brought in
before it is used. -/
theorem scoped_subquery (hspans : q.tables.Spans root.table)
    (hfilters : ∀ f ∈ q.filters, q.tables.contains f.table = true) :
    Scoped (mentions (words q.subquery)) := by
  rw [q.reads_subquery.2.mentions_eq]
  refine Grounded.scoped_of_nil ⟨List.not_mem_nil, q.plan_planned.grounded ?_⟩
  rw [← List.append_nil (q.filters.flatMap _)]
  refine Grounded.uses (fun m hm => ?_) trivial
  obtain ⟨f, hf, hm⟩ := List.mem_flatMap.1 hm
  obtain ⟨c, hc, rfl⟩ := List.mem_map.1 hm
  refine ⟨c.table.alias, List.mem_map_of_mem ?_, rfl⟩
  rw [f.table_of_mem_columns c hc]
  exact List.mem_cons.2 ((contains_iff_mem_plan hspans).1 (hfilters f hf))

/-- A condition uses the name of its table. -/
theorem uses_of_mem_filters {f : Filter} (h : f ∈ q.filters) :
    .uses f.table.alias ∈ mentions (words q.subquery) := by
  obtain ⟨c, hc⟩ := List.exists_mem_of_ne_nil _ f.condition.columns_ne_nil
  rw [q.reads_subquery.2.mentions_eq, ← f.table_of_mem_columns c hc]
  exact List.mem_cons_of_mem _ (List.mem_append_right _
    (List.mem_flatMap_of_mem h (List.mem_map_of_mem hc)))

/-- A join uses the names of both of its tables. -/
theorem uses_of_mem_plan {step : JoinStep} (h : step ∈ q.plan) {name : String}
    (hname : name = step.parent.alias ∨ name = step.table.alias) :
    .uses name ∈ mentions (words q.subquery) := by
  have hmem := (JoinStep.mem_names (mem_neighbours_of_mem_plan h)).2 hname
  rw [q.reads_subquery.2.mentions_eq]
  exact List.mem_cons_of_mem _ (List.mem_append_left _
    (List.mem_flatMap_of_mem h (List.mem_of_mem_tail hmem)))

/-- The order of a query does not end like a lock. -/
theorem suffix_iff_locked (q : Query root) :
    " FOR UPDATE NOWAIT".toList <:+ q.statement.sql.toList ↔ q.locked = true := by
  rw [sql_eq]
  cases q.locked with
  | true =>
    rw [if_pos rfl, String.toList_append]
    exact ⟨fun _ => rfl, fun _ => List.suffix_append _ _⟩
  | false =>
    have hlock : " FOR UPDATE NOWAIT".toList.getLast? = some 'T' := by decide
    have hlast : root.orderSql.toList.getLast? = some 'C' := by
      cases root <;> decide +kernel
    rw [if_neg (by decide), String.append_empty, String.toList_append]
    refine ⟨fun ⟨before, hbefore⟩ => ?_, fun h => nomatch h⟩
    have hends := congrArg List.getLast? hbefore
    rw [List.getLast?_append, List.getLast?_append, hlock, hlast, Option.some_or,
      Option.some_or] at hends
    exact absurd hends (by decide)

/-- **What chains build is well scoped.** Every table of the query but the root is joined once, by its
equation and to the root or to a table joined before. The statement returns the rows of the root whose
ids its subquery yields. Every name that the subquery uses behind the column that it returns is
brought in once, further to the left; the conditions use the names of their tables, and the joins
those of the tables that they join. The list of columns and the order use the name of the root only,
and the statement ends in a lock if it was started with one. -/
theorem build_well_scoped {a b : Root} (locked : Bool) (chain : Chain a b) :
    let q := build locked chain
    let name := b.table.alias
    ((q.plan.map (·.table)).Nodup ∧
      ∀ t, t ∈ q.plan.map (·.table) ↔ q.tables.contains t = true ∧ t ≠ b.table) ∧
    (∀ before step after, q.plan = before ++ step :: after →
      step.parent = b.table ∨ step.parent ∈ before.map (·.table)) ∧
    (∀ step ∈ q.plan, ∃ equation, step.parent.on? step.table = some equation ∧
      step.sql = " " ++ step.kind.words ++ " " ++ step.table.source ++ " ON " ++ equation) ∧
    q.statement.sql = "SELECT " ++ name ++ ".*" ++ " FROM " ++ b.table.source ++
      " WHERE " ++ name ++ ".id IN (" ++ "SELECT " ++ name ++ ".id" ++ q.subquery ++ ")" ++
      b.orderSql ++ (if q.locked then " FOR UPDATE NOWAIT" else "") ∧
    Scoped (mentions (words q.subquery)) ∧
    (∀ f ∈ q.filters, .uses f.table.alias ∈ mentions (words q.subquery)) ∧
    (∀ step ∈ q.plan, .uses step.parent.alias ∈ mentions (words q.subquery) ∧
      .uses step.table.alias ∈ mentions (words q.subquery)) ∧
    mentions (words ("SELECT " ++ name ++ ".*")) = [.uses name] ∧
    (∀ m ∈ mentions (words b.orderSql), m = .uses name) ∧
    (" FOR UPDATE NOWAIT".toList <:+ q.statement.sql.toList ↔ locked = true) := by
  intro q name
  have hgrown : Grown locked b q := build_grown locked chain
  obtain ⟨hroot, hnodup⟩ := List.nodup_cons.1 q.nodup_plan
  refine ⟨⟨hnodup, fun t => ?_⟩, fun before step after hplan => ?_, fun step hstep => ?_, q.sql_eq,
    scoped_subquery hgrown.spans fun f hf => (hgrown.filters f hf).2, fun f hf => uses_of_mem_filters hf,
    fun step hstep => ⟨uses_of_mem_plan hstep (.inl rfl), uses_of_mem_plan hstep (.inr rfl)⟩,
    ?_, ?_, ?_⟩
  · rw [contains_iff_mem_plan hgrown.spans]
    constructor
    · exact fun ht => ⟨.inr ht, fun heq => hroot (heq ▸ ht)⟩
    · exact fun ht => ht.1.resolve_left ht.2
  · exact (q.plan_planned.parent_mem hplan).2.imp_left List.mem_singleton.1
  · obtain ⟨equation, hon⟩ := Option.isSome_iff_exists.1
      ((Table.isSome_on?_iff _ _).2 (mem_neighbours_of_mem_plan hstep))
    refine ⟨equation, hon, ?_⟩
    rw [JoinStep.sql, hon]
    rfl
  · cases b <;> decide +kernel
  · cases b <;> decide +kernel
  · rw [suffix_iff_locked, hgrown.locked_eq]

/-- Submissions of invoices that a condition on a team is about: the names in the subquery, in order. -/
theorem build_well_scoped_pivot :
    let q := build true (.cons (.fromTeamKind (some .selling)) (.cons (.toSubmissions .left) .nil))
    mentions (words q.subquery) = [.brings "payment_submissions",
        .brings "invoice_payment_submission", .uses "payment_submissions",
          .uses "invoice_payment_submission",
        .brings "invoices", .uses "invoice_payment_submission", .uses "invoices",
        .brings "from_team", .uses "from_team", .uses "invoices",
        .uses "from_team"] ∧
      Scoped (mentions (words q.subquery)) ∧
      " FOR UPDATE NOWAIT".toList <:+ q.statement.sql.toList := by
  intro q
  obtain ⟨-, -, -, -, scope, -, -, -, -, locked⟩ :=
    build_well_scoped true (.cons (.fromTeamKind (some .selling)) (.cons (.toSubmissions .left) .nil))
  refine ⟨?_, scope, locked.2 rfl⟩
  rw [q.reads_subquery.2.mentions_eq]
  decide +kernel

end Query

end TeamLedger
