import Retl.Expr.Basic
import Retl.Text.Quoted
/-!
# Listings of analysed expressions

One line per node, two spaces of indent per level: the node's kind, a colon and its
static type, then in parentheses its name, operator or field index and its declared
types, and then its children in order. A literal ends its line with `=` and its value
(`True`, `None`, `'c'`, quoted texts); a reference ends its line with its name. A range
pattern shows its bounds, or `empty` when its low end is above its high end.
-/

namespace Retl

namespace Expr

/-- A literal value as listings show it. -/
def literalText : Literal → String
  | .int n => toString n
  | .bool b => if b then "True" else "False"
  | .null => "None"
  | .char c => Text.quote c.toString
  | .string s => Text.quote s

/-- The indent of a listing level. -/
def indentOf (level : Nat) : String := String.ofList (List.replicate (2 * level) ' ')

/-- A header line: kind, static type and the annotations in parentheses, if any. -/
def headerLine (level : Nat) (kind : String) (static : Ty) (notes : List String) : String :=
  let base := indentOf level ++ kind ++ " : " ++ static.render
  (if notes.isEmpty then base else base ++ " (" ++ ", ".intercalate notes ++ ")") ++ "\n"

/-- The listing line of a literal. -/
def literalLine (level : Nat) (l : Literal) : String :=
  indentOf level ++ "LIT : " ++ l.type.render ++ " = " ++ literalText l ++ "\n"

mutual

/-- The listing of an expression at a level of indent. -/
def listing (level : Nat) (e : Expr) : String :=
  let below := level + 1
  match e with
  | .lit l _ => literalLine level l
  | .ref n _ => indentOf level ++ "REFERENCE : unknown " ++ n ++ "\n"
  | .bind n t v k _ =>
    headerLine level "LET" e.static ["ident=" ++ n, "let_type=" ++ t.render] ++
      listing below v ++ listingOpt below k
  | .aliasType n t k _ =>
    headerLine level "ALIAS" e.static ["ident=" ++ n, "alias_type=" ++ t.render] ++
      listingOpt below k
  | .lam _ r b _ => headerLine level "LAMBDA" e.static ["return_type=" ++ r.render] ++ listing below b
  | .apply f as _ => headerLine level "APPLICATION" e.static [] ++ listing below f ++ listingAll below as
  | .prim op l r _ =>
    headerLine level "PRIMITIVE" e.static ["op=" ++ op.symbol] ++ listing below l ++ listingOpt below r
  | .branch c t f _ =>
    headerLine level "BRANCH" e.static [] ++ listing below c ++ listing below t ++ listingOpt below f
  | .matchOn s cs _ => headerLine level "MATCH" e.static [] ++ listing below s ++ listingCases below cs
  | .iter n i b _ =>
    headerLine level "ITER" e.static ["ident=" ++ n] ++ listing below i ++ listing below b
  | .list es _ => headerLine level "LIST_DEF" e.static [] ++ listingAll below es
  | .tuple es _ => headerLine level "TUPLE_DEF" e.static [] ++ listingAll below es
  | .access t i _ => headerLine level "TUPLE_ACCESS" e.static ["index=" ++ toString i] ++ listing below t
  | .dict ps _ => headerLine level "DICT_DEF" e.static [] ++ listingPairs below ps
  | .schema _ _ => headerLine level "SCHEMA_DEF" e.static []
  | .empty _ => headerLine level "EMPTY" e.static []

/-- The listing of an optional expression: nothing for an absent one. -/
def listingOpt (level : Nat) : Option Expr → String
  | none => ""
  | some e => listing level e

/-- The listings of a list of expressions. -/
def listingAll (level : Nat) : List Expr → String
  | [] => ""
  | e :: es => listing level e ++ listingAll level es

/-- The listings of dictionary pairs: each key, then its value. -/
def listingPairs (level : Nat) : List (Tree.LitNode × Expr) → String
  | [] => ""
  | (k, v) :: ps => literalLine level k.literal ++ listing level v ++ listingPairs level ps

/-- The listings of `match` cases: each pattern, then its body. -/
def listingCases (level : Nat) : List (Case × Expr) → String
  | [] => ""
  | (c, b) :: cs => caseListing level c ++ listing level b ++ listingCases level cs

/-- The listing of a pattern. -/
def caseListing (level : Nat) : Case → String
  | .typed n t pr _ =>
    headerLine level "PATTERN_TYPE" .unknown ["ident=" ++ n, "case_type=" ++ t.render] ++
      listingOpt (level + 1) pr
  | .literal l _ => headerLine level "PATTERN_LITERAL" .unknown [] ++ literalLine (level + 1) l.literal
  | .multi ls _ =>
    headerLine level "PATTERN_MULTI" .unknown [] ++
      String.join (ls.map fun l => literalLine (level + 1) l.literal)
  | .range lo hi _ =>
    indentOf level ++ "PATTERN_RANGE " ++
      (if lo ≤ hi then toString lo ++ ".." ++ toString hi else "empty") ++ "\n"
  | .any _ => indentOf level ++ "PATTERN_ANY\n"

end

end Expr

end Retl
