/-
The order in which the tables of a query are joined.

The tables are visited breadth first from the root, over neighbours that are part of the query. Each
visit joins a table to one that is there already. Every table is visited once, so as many rounds as
there are tables suffice.
-/
import TeamLedger.Query

set_option autoImplicit false

namespace TeamLedger

/-- One join: `table` is joined to `parent`, which is there already. -/
structure JoinStep where
  parent : Table
  table : Table
  kind : JoinKind
deriving DecidableEq, Repr

namespace JoinSet

/-- The tables next to `t` that are in the set and have not been visited. -/
def unvisited (s : JoinSet) (visited : List Table) (t : Table) : List Table :=
  t.neighbours.filter fun u => s.contains u && !visited.contains u

/-- The joins made while a queue of tables is worked off, in a number of rounds. -/
def walk (s : JoinSet) : Nat → List Table → List Table → List JoinStep
  | 0, _, _ => []
  | _ + 1, _, [] => []
  | n + 1, visited, t :: queue =>
    let next := s.unvisited visited t
    next.map (fun u => ⟨t, u, s.kind u⟩) ++ walk s n (visited ++ next) (queue ++ next)

end JoinSet

/-- The joins of a query, in order. -/
def Query.plan {root : Root} (q : Query root) : List JoinStep :=
  q.tables.walk Table.all.length [root.table] [root.table]

end TeamLedger
