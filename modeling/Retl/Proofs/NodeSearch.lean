import Mathlib
import Retl.Tree.Outline
/-!
# Finding nodes by kind

A listing of a tree prints one line per node, each node before its children and the children
in order (`Outline.dump`). Its lines are the outline's rows: every node with its depth, in the
order the listing prints them (`Outline.rows`, `Outline.dump_eq_rows`).

The search for the nodes of one kind walks a stack (`Outline.find`): it takes the top node off,
keeps it when it has the kind, and puts its children on, the first one on top. It lists the
nodes of the kind in the order of the listing's rows, each once (`Outline.find_eq_rows`): the
`i`-th node it finds is the node of the `i`-th listed line of that kind.
-/

namespace Retl

namespace Tree

namespace Outline

/-- The label of an outline's top node: what its line shows after the kind. -/
def label : Outline → String
  | .node _ l _ _ _ => l

/-- The line of the listing that shows a node at depth `d`. -/
def line (d : Nat) (o : Outline) : String :=
  String.ofList (List.replicate (2 * d) ' ') ++ o.kind ++ o.label ++ "\n"

mutual

/-- The rows of a listing from depth `d` on: each node with its depth, each before its
children, the children in order. -/
def rows (d : Nat) : Outline → List (Nat × Outline)
  | o@(.node _ _ _ _ cs) => (d, o) :: rowsAll (d + 1) cs

/-- The rows of a list of outlines at one depth. -/
def rowsAll (d : Nat) : List Outline → List (Nat × Outline)
  | [] => []
  | o :: os => rows d o ++ rowsAll d os

end

mutual

/-- A listing prints its rows' lines, in order. -/
theorem dump_eq_rows (d : Nat) : ∀ o : Outline,
    o.dump d = String.join ((o.rows d).map fun r => line r.1 r.2)
  | .node k l s p cs => by
    rw [dump, rows, List.map_cons, String.join_cons, dumpAll_eq_rowsAll (d + 1) cs]
    simp only [line, kind, label, String.append_assoc]

theorem dumpAll_eq_rowsAll (d : Nat) : ∀ os : List Outline,
    dumpAll d os = String.join ((rowsAll d os).map fun r => line r.1 r.2)
  | [] => by simp [dumpAll, rowsAll]
  | o :: os => by
    rw [dumpAll, rowsAll, List.map_append, String.join_append, dump_eq_rows d o,
      dumpAll_eq_rowsAll d os]

end

mutual

/-- The nodes of a kind, listed by recursion, are the rows of that kind. -/
theorem select_eq_rows (k : String) (d : Nat) : ∀ o : Outline,
    o.select k = ((o.rows d).filter fun r => r.2.kind == k).map Prod.snd
  | o@(.node k' l s p cs) => by
    rw [select, rows, selectAll_eq_rowsAll k (d + 1) cs, List.filter_cons]
    by_cases hk : k' = k <;> simp [hk, kind]

theorem selectAll_eq_rowsAll (k : String) (d : Nat) : ∀ os : List Outline,
    selectAll k os = ((rowsAll d os).filter fun r => r.2.kind == k).map Prod.snd
  | [] => by simp [selectAll, rowsAll]
  | o :: os => by
    rw [selectAll, rowsAll, List.filter_append, List.map_append, select_eq_rows k d o,
      selectAll_eq_rowsAll k d os]

end

theorem selectAll_append (k : String) (os os' : List Outline) :
    selectAll k (os ++ os') = selectAll k os ++ selectAll k os' := by
  induction os with
  | nil => simp [selectAll]
  | cons o os ih => simp only [List.cons_append, selectAll, ih, List.append_assoc]

/-- The walk over a stack finds, after what it found already, the nodes of the kind below the
outlines on the stack, top first: each outline before its children, and those before the rest
of the stack. -/
theorem findLoop_eq (k : String) (stack : List Outline) (found : Array Outline) :
    (findLoop k stack found).toList = found.toList ++ selectAll k stack := by
  fun_induction findLoop k stack found with
  | case1 found => simp [selectAll]
  | case2 found o rest ih =>
    rw [dite_eq_ite] at ih
    rw [ih, selectAll, selectAll_append]
    -- the top node is kept before its children, which go on the stack above the rest
    cases o with
    | node k' l s p cs =>
      by_cases hk : k' = k <;> simp [hk, kind, children, select]

/-- The walk over a stack finds what the recursion lists. -/
theorem find_eq_select (k : String) (o : Outline) : o.find k = o.select k := by
  simp [find, findLoop_eq, selectAll]

/-- The search lists the nodes of a kind in the order of the listing's rows, each once. -/
theorem find_eq_rows (k : String) (o : Outline) :
    o.find k = ((o.rows 0).filter fun r => r.2.kind == k).map Prod.snd := by
  rw [find_eq_select, select_eq_rows k 0]

end Outline

end Tree

end Retl
