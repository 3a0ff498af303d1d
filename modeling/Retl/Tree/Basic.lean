import Retl.Diagnostic
/-!
# Concrete trees

The tree a program reads into, before any analysis: one node per construct, each
with the position of its first token. Statements are already chained: a `let` or an
`alias` holds the rest of its block as its continuation, and an expression that is
followed by more statements is held by a `let` of a generated name.

Three kinds of node make up a tree: expressions (`Tree.Node`), the patterns of `match`
cases (`Tree.Pattern`) and written type expressions (`Tree.TypeExpr`).
-/

namespace Retl

/-- The value a literal token denotes. Integers are kept at full size here; whether
they fit in 32 bits is decided by the analysis. -/
inductive Literal where
  | int (n : Int)
  | bool (b : Bool)
  | null
  | char (c : Char)
  | string (s : String)
  deriving DecidableEq, Repr

/-- The operators of expressions: two prefix operators and the binary ones, from the
tightest to the loosest binding. -/
inductive PrimOp where
  | not
  | neg
  | mul
  | div
  | rem
  | concat
  | add
  | sub
  | le
  | ge
  | lt
  | gt
  | same
  | eq
  | ne
  | and
  | or
  deriving DecidableEq, Repr

namespace PrimOp

/-- The symbol that writes an operator. -/
def symbol : PrimOp → String
  | .not => "!"
  | .neg => "-"
  | .mul => "*"
  | .div => "/"
  | .rem => "%"
  | .concat => "++"
  | .add => "+"
  | .sub => "-"
  | .le => "<="
  | .ge => ">="
  | .lt => "<"
  | .gt => ">"
  | .same => "==="
  | .eq => "=="
  | .ne => "!="
  | .and => "&&"
  | .or => "||"

/-- Whether an operator always yields a boolean: comparisons, equalities and the
logical operators. -/
def yieldsBool : PrimOp → Bool
  | .not | .le | .ge | .lt | .gt | .same | .eq | .ne | .and | .or => true
  | _ => false

end PrimOp

/-- The name of a literal's kind, as listings show it. -/
def Literal.kind : Literal → String
  | .int _ => "INT"
  | .bool _ => "BOOL"
  | .null => "NULL"
  | .char _ => "CHAR"
  | .string _ => "STRING"

namespace Tree

/-- A literal token and where it stands. -/
structure LitNode where
  literal : Literal
  pos : Position
  deriving DecidableEq, Repr

/-- The scalar type keywords. -/
inductive ScalarName where
  | int
  | bool
  | char
  | string
  | null
  | schema
  | any
  deriving DecidableEq, Repr

namespace ScalarName

/-- How a scalar type keyword is written. -/
def keyword : ScalarName → String
  | .int => "int"
  | .bool => "bool"
  | .char => "char"
  | .string => "string"
  | .null => "null"
  | .schema => "schema"
  | .any => "any"

/-- The scalar type keywords, in the order the grammar tries them. -/
def all : List ScalarName := [.int, .bool, .char, .string, .null, .schema, .any]

end ScalarName

/-- A written type expression: a scalar keyword, the compound forms, or `ref`, which names
an alias. -/
inductive TypeExpr where
  | atom (name : ScalarName) (pos : Position)
  | list (element : TypeExpr) (pos : Position)
  | tuple (elements : List TypeExpr) (pos : Position)
  | dict (key value : TypeExpr) (pos : Position)
  | union (members : List TypeExpr) (pos : Position)
  | func (params : List TypeExpr) (result : TypeExpr) (pos : Position)
  | ref (name : String) (pos : Position)

mutual

/-- An expression, or a chain of statements headed by a `let` or an `alias`. -/
inductive Node where
  | lit (literal : Literal) (pos : Position)
  | ref (name : String) (pos : Position)
  | bind (name : String) (type : Option TypeExpr) (value : Node) (next : Option Node)
      (pos : Position)
  | aliasType (name : String) (type : TypeExpr) (next : Option Node) (pos : Position)
  | lam (params : List (String × TypeExpr)) (result : TypeExpr) (body : Node) (pos : Position)
  | branch (cond thenBranch : Node) (elseBranch : Option Node) (pos : Position)
  | matchOn (subject : Node) (cases : List (Pattern × Node)) (pos : Position)
  | foreach (name : String) (iterable body : Node) (pos : Position)
  | schema (columns : List (String × TypeExpr)) (pos : Position)
  | list (elements : List Node) (pos : Position)
  | dict (entries : List (LitNode × Node)) (pos : Position)
  | empty (pos : Position)
  | tuple (elements : List Node) (pos : Position)
  | apply (callee : Node) (args : List Node) (pos : Position)
  | access (target : Node) (index : Nat) (pos : Position)
  | prim (op : PrimOp) (left : Node) (right : Option Node) (pos : Position)

/-- The pattern of a `match` case. A `literal` pattern stands where its literal does. -/
inductive Pattern where
  | any (pos : Position)
  | range (low high : Int) (pos : Position)
  | multi (literals : List LitNode) (pos : Position)
  | literal (lit : LitNode)
  | typed (name : String) (type : TypeExpr) (predicate : Option Node) (pos : Position)

end

/-- The name of a node's kind, as listings show it. -/
def Node.kind : Node → String
  | .lit l _ => l.kind
  | .ref _ _ => "REFERENCE"
  | .bind _ _ _ _ _ => "LET"
  | .aliasType _ _ _ _ => "ALIAS"
  | .lam _ _ _ _ => "LAMBDA"
  | .branch _ _ _ _ => "BRANCH"
  | .matchOn _ _ _ => "MATCH"
  | .foreach _ _ _ _ => "FOREACH"
  | .schema _ _ => "SCHEMA"
  | .list _ _ => "LIST"
  | .dict _ _ => "DICT"
  | .empty _ => "EMPTY"
  | .tuple _ _ => "TUPLE"
  | .apply _ _ _ => "APPLICATION"
  | .access _ _ _ => "TUPLE_ACCESS"
  | .prim _ _ _ _ => "PRIMITIVE"

/-- Where a type expression starts. -/
def TypeExpr.pos : TypeExpr → Position
  | .atom _ p | .list _ p | .tuple _ p | .dict _ _ p | .union _ p | .func _ _ p | .ref _ p => p

/-- Where a node starts. -/
def Node.pos : Node → Position
  | .lit _ p | .ref _ p | .bind _ _ _ _ p | .aliasType _ _ _ p | .lam _ _ _ p
  | .branch _ _ _ p | .matchOn _ _ p | .foreach _ _ _ p | .schema _ p | .list _ p
  | .dict _ p | .empty p | .tuple _ p | .apply _ _ p | .access _ _ p | .prim _ _ _ p => p

/-- Where a pattern starts. -/
def Pattern.pos : Pattern → Position
  | .any p | .range _ _ p | .multi _ p | .typed _ _ _ p => p
  | .literal l => l.pos

end Tree

end Retl
