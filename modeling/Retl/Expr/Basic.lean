import Retl.Tree.Basic
import Retl.Types.Ty
/-!
# Analysed expressions

The tree that evaluation runs: the concrete tree with its written types resolved to
type terms, aliases resolved away, and every node's static type derivable from it
(`Expr.static`). Loops, lists, tuples, dictionaries and schemas have their own nodes;
the patterns of `match` cases become `Case`s.

The static type is what analysis knows before running: the type of a literal, a
function type from a lambda's annotations, `bool` for comparisons and logical
operators, `schema` for a schema, `null` for an empty block, and the static type of
its continuation for a `let` or an `alias` (`null` when nothing follows). A list has
the static type of its first element when no element's static type has an `unknown`;
a tuple, the tuple of its elements' static types on the same condition; a field access,
the field's type when the target is statically a tuple long enough. Everything else is
`unknown`.
-/

namespace Retl

/-- The type of a literal's value. -/
def Literal.type : Literal → Ty
  | .int _ => .int
  | .bool _ => .bool
  | .null => .null
  | .char _ => .char
  | .string _ => .string

open Retl.Tree (LitNode)

mutual

/-- An analysed expression. -/
inductive Expr where
  | lit (literal : Literal) (pos : Position)
  | ref (name : String) (pos : Position)
  | bind (name : String) (type : Ty) (value : Expr) (next : Option Expr) (pos : Position)
  | aliasType (name : String) (type : Ty) (next : Option Expr) (pos : Position)
  | lam (params : List (String × Ty)) (result : Ty) (body : Expr) (pos : Position)
  | apply (callee : Expr) (args : List Expr) (pos : Position)
  | prim (op : PrimOp) (left : Expr) (right : Option Expr) (pos : Position)
  | branch (cond thenBranch : Expr) (elseBranch : Option Expr) (pos : Position)
  | matchOn (subject : Expr) (cases : List (Case × Expr)) (pos : Position)
  | iter (name : String) (iterable body : Expr) (pos : Position)
  | list (elements : List Expr) (pos : Position)
  | tuple (elements : List Expr) (pos : Position)
  | access (target : Expr) (index : Nat) (pos : Position)
  | dict (pairs : List (LitNode × Expr)) (pos : Position)
  | schema (columns : List (String × Ty)) (pos : Position)
  | empty (pos : Position)

/-- An analysed pattern. -/
inductive Case where
  | typed (name : String) (type : Ty) (predicate : Option Expr) (pos : Position)
  | literal (lit : LitNode) (pos : Position)
  | multi (literals : List LitNode) (pos : Position)
  | range (low high : Int) (pos : Position)
  | any (pos : Position)

end

namespace Expr

/-- Where an expression starts. -/
def pos : Expr → Position
  | .lit _ p | .ref _ p | .bind _ _ _ _ p | .aliasType _ _ _ p | .lam _ _ _ p | .apply _ _ p
  | .prim _ _ _ p | .branch _ _ _ p | .matchOn _ _ p | .iter _ _ _ p | .list _ p | .tuple _ p
  | .access _ _ p | .dict _ p | .schema _ p | .empty p => p

/-- The name of an expression's kind, as traces and listings show it. -/
def kind : Expr → String
  | .lit _ _ => "LIT"
  | .ref _ _ => "REFERENCE"
  | .bind _ _ _ _ _ => "LET"
  | .aliasType _ _ _ _ => "ALIAS"
  | .lam _ _ _ _ => "LAMBDA"
  | .apply _ _ _ => "APPLICATION"
  | .prim _ _ _ _ => "PRIMITIVE"
  | .branch _ _ _ _ => "BRANCH"
  | .matchOn _ _ _ => "MATCH"
  | .iter _ _ _ _ => "ITER"
  | .list _ _ => "LIST_DEF"
  | .tuple _ _ => "TUPLE_DEF"
  | .access _ _ _ => "TUPLE_ACCESS"
  | .dict _ _ => "DICT_DEF"
  | .schema _ _ => "SCHEMA_DEF"
  | .empty _ => "EMPTY"

mutual

/-- The static type of an expression. -/
def static : Expr → Ty
  | .lit l _ => l.type
  | .bind _ _ _ next _ | .aliasType _ _ next _ => staticOpt next
  | .lam ps r _ _ => .func (ps.map Prod.snd) r
  | .prim op _ _ _ => if op.yieldsBool then .bool else .unknown
  | .list es _ => listStatic es
  | .tuple es _ => if anyUnknown es then .unknown else .tuple (statics es)
  | .access t i _ =>
    match t.static with
    | .tuple ts => ts[i]?.getD .unknown
    | _ => .unknown
  | .schema _ _ => .schema
  | .empty _ => .null
  | _ => .unknown

/-- The static type of what follows a `let` or an `alias`: `null` when nothing does. -/
def staticOpt : Option Expr → Ty
  | none => .null
  | some e => e.static

/-- The static type of a list literal with the given elements. -/
def listStatic : List Expr → Ty
  | [] => .unknown
  | e :: es => if e.static.hasUnknown || anyUnknown es then .unknown else .list e.static

/-- The static types of a list of expressions. -/
def statics : List Expr → List Ty
  | [] => []
  | e :: es => e.static :: statics es

/-- Whether some expression of the list has an `unknown` in its static type. -/
def anyUnknown : List Expr → Bool
  | [] => false
  | e :: es => e.static.hasUnknown || anyUnknown es

end

end Expr

end Retl
