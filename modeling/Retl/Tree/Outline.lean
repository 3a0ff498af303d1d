import Retl.Tree.Basic
import Retl.Text.Quoted
/-!
# Outlines of concrete trees

An outline is the listing view of a concrete tree: every node shows as its kind in
capitals, then a label in parentheses when the node carries a name, an operator or a
scalar, and then its children, in the order their text appears in the program. A
scalar label is quoted the way `Text.quote` quotes, and booleans print as `True` and
`False`. Names of bindings, loops and type patterns, and operator symbols, print bare.

`Outline.dump` prints one line per node, two spaces of indent per level. `Outline.find`
lists the nodes of one kind by a walk over a stack of nodes still to visit, and
`Outline.select` lists them by recursion, each node before its descendants.
-/

namespace Retl

namespace Tree

/-- The scalar payload of a node, where it has one. -/
inductive Scalar where
  | int (n : Int)
  | bool (b : Bool)
  | text (s : String)
  deriving DecidableEq, Repr

/-- A node as listings show it: kind, label, scalar payload, position and children. -/
inductive Outline where
  | node (kind label : String) (payload : Option Scalar) (pos : Position) (children : List Outline)

namespace Outline

/-- The kind of an outline's top node. -/
def kind : Outline → String
  | .node k _ _ _ _ => k

/-- The position of an outline's top node. -/
def pos : Outline → Position
  | .node _ _ _ p _ => p

/-- The scalar payload of an outline's top node. -/
def payload : Outline → Option Scalar
  | .node _ _ s _ _ => s

mutual

/-- One line per node, indented two spaces per level below `indent`. -/
def dump (indent : Nat) : Outline → String
  | .node k l _ _ cs =>
    String.ofList (List.replicate (2 * indent) ' ') ++ k ++ l ++ "\n" ++ dumpAll (indent + 1) cs

/-- The lines of a list of outlines at one level. -/
def dumpAll (indent : Nat) : List Outline → String
  | [] => ""
  | o :: os => dump indent o ++ dumpAll indent os

end

/-- The children of an outline's top node. -/
def children : Outline → List Outline
  | .node _ _ _ _ cs => cs

mutual

/-- The number of nodes of an outline. -/
def count : Outline → Nat
  | .node _ _ _ _ cs => countAll cs + 1

/-- The number of nodes of a list of outlines. -/
def countAll : List Outline → Nat
  | [] => 0
  | o :: os => count o + countAll os

end

theorem countAll_append (os os' : List Outline) :
    countAll (os ++ os') = countAll os + countAll os' := by
  induction os with
  | nil => simp [countAll]
  | cons o os ih => simp only [List.cons_append, countAll, ih, Nat.add_assoc]

/-- The nodes of kind `k` below the outlines of a stack, after those `found` already: the top
outline is taken off, kept when it has kind `k`, and its children are put on the stack so that
the first child is on top. -/
def findLoop (k : String) (stack : List Outline) (found : Array Outline) : Array Outline :=
  match stack with
  | [] => found
  | o :: rest => findLoop k (o.children ++ rest) (if o.kind == k then found.push o else found)
termination_by countAll stack
decreasing_by
  cases o
  simp only [children, countAll_append, countAll, count]
  omega

/-- The nodes of kind `k` in an outline, found by a walk over a stack that starts with the
outline alone. -/
def find (k : String) (o : Outline) : List Outline :=
  (findLoop k [o] #[]).toList

mutual

/-- The nodes of kind `k`, each before its descendants, in listing order. -/
def select (k : String) : Outline → List Outline
  | o@(.node k' _ _ _ cs) => (if k' == k then [o] else []) ++ selectAll k cs

/-- The nodes of kind `k` in a list of outlines. -/
def selectAll (k : String) : List Outline → List Outline
  | [] => []
  | o :: os => select k o ++ selectAll k os

end

end Outline

/-- A label in parentheses. -/
def paren (s : String) : String := "(" ++ s ++ ")"

/-- The outline of a literal. -/
def LitNode.outline (l : LitNode) : Outline :=
  match l.literal with
  | .int n => .node "INT" (paren (toString n)) (some (.int n)) l.pos []
  | .bool b => .node "BOOL" (paren (if b then "True" else "False")) (some (.bool b)) l.pos []
  | .null => .node "NULL" "" none l.pos []
  | .char c => .node "CHAR" (paren (Text.quote c.toString)) (some (.text c.toString)) l.pos []
  | .string s => .node "STRING" (paren (Text.quote s)) (some (.text s)) l.pos []

mutual

/-- The outline of a type expression. -/
def TypeExpr.outline : TypeExpr → Outline
  | .atom n p => .node "TYPE_ATOM" (paren (Text.quote n.keyword)) (some (.text n.keyword)) p []
  | .list e p => .node "TYPE_LIST" "" none p [e.outline]
  | .tuple es p => .node "TYPE_TUPLE" "" none p (TypeExpr.outlineAll es)
  | .dict k v p => .node "TYPE_DICT" "" none p [k.outline, v.outline]
  | .union ms p => .node "TYPE_UNION" "" none p (TypeExpr.outlineAll ms)
  | .func ps r p => .node "TYPE_LAMBDA" "" none p (TypeExpr.outlineAll ps ++ [r.outline])
  | .ref n p => .node "TYPE_REF" (paren (Text.quote n)) (some (.text n)) p []

/-- The outlines of a list of type expressions. -/
def TypeExpr.outlineAll : List TypeExpr → List Outline
  | [] => []
  | t :: ts => t.outline :: TypeExpr.outlineAll ts

end

/-- The outlines of the types of named columns or parameters. -/
def outlineNamedTypes (cs : List (String × TypeExpr)) : List Outline :=
  cs.map fun c => c.2.outline

mutual

/-- The outline of an expression node. -/
def Node.outline : Node → Outline
  | .lit l p => LitNode.outline ⟨l, p⟩
  | .ref n p => .node "REFERENCE" (paren (Text.quote n)) (some (.text n)) p []
  | .bind n t v k p =>
    .node "LET" (paren n) none p ((t.map TypeExpr.outline).toList ++ [v.outline] ++ Node.outlineOpt k)
  | .aliasType n t k p => .node "ALIAS" (paren n) none p (t.outline :: Node.outlineOpt k)
  | .lam ps r b p => .node "LAMBDA" "" none p (outlineNamedTypes ps ++ [r.outline, b.outline])
  | .branch c t e p => .node "BRANCH" "" none p ([c.outline, t.outline] ++ Node.outlineOpt e)
  | .matchOn s cs p => .node "MATCH" "" none p (s.outline :: Node.outlineCases cs)
  | .foreach n i b p => .node "FOREACH" (paren n) none p [i.outline, b.outline]
  | .schema cs p => .node "SCHEMA" "" none p (outlineNamedTypes cs)
  | .list es p => .node "LIST" "" none p (Node.outlineAll es)
  | .dict es p => .node "DICT" "" none p (Node.outlineEntries es)
  | .empty p => .node "EMPTY" "" none p []
  | .tuple es p => .node "TUPLE" "" none p (Node.outlineAll es)
  | .apply f as p => .node "APPLICATION" "" none p (f.outline :: Node.outlineAll as)
  | .access t _ p => .node "TUPLE_ACCESS" "" none p [t.outline]
  | .prim op l r p => .node "PRIMITIVE" (paren op.symbol) none p (l.outline :: Node.outlineOpt r)

/-- The outline of an optional node: nothing for an absent one. -/
def Node.outlineOpt : Option Node → List Outline
  | none => []
  | some n => [n.outline]

/-- The outlines of a list of nodes. -/
def Node.outlineAll : List Node → List Outline
  | [] => []
  | n :: ns => n.outline :: Node.outlineAll ns

/-- The outlines of dictionary entries: each key, then its value. -/
def Node.outlineEntries : List (LitNode × Node) → List Outline
  | [] => []
  | (k, v) :: es => k.outline :: v.outline :: Node.outlineEntries es

/-- The outlines of `match` cases: each pattern, then its body. -/
def Node.outlineCases : List (Pattern × Node) → List Outline
  | [] => []
  | (pat, b) :: cs => pat.outline :: b.outline :: Node.outlineCases cs

/-- The outline of a pattern. -/
def Pattern.outline : Pattern → Outline
  | .any p => .node "PATTERN_ANY" "" none p []
  | .range _ _ p => .node "PATTERN_RANGE" "" none p []
  | .multi ls p => .node "PATTERN_MULTI" "" none p (ls.map LitNode.outline)
  | .literal l => .node "PATTERN_LITERAL" "" none l.pos [l.outline]
  | .typed n t pr p => .node "PATTERN_TYPE" (paren n) none p (t.outline :: Node.outlineOpt pr)

end

/-- The listing of a tree: one line per node. -/
def Node.dump (n : Node) : String := n.outline.dump 0

end Tree

end Retl
