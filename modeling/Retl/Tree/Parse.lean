import Retl.Tree.Basic
import Retl.Tree.Scan
/-!
# The grammar

Reading a whole program into a concrete tree. The grammar is ordered: where a rule
has alternatives, the first that reads wins, and a repetition takes every item that
reads. Expressions are built from operands by prefix operators and eight levels of
binary operators, from the tightest:

* `!` and `-` in front of an operand (they nest to the right);
* `*`, `/`, `%`; then `++`, `+`, `-`; then `<=`, `>=`, `<`, `>`; then `===`, `==`, `!=`;
  then `&&`; then `||` (all grouping to the left);
* `|>`, which hands its left side to the call on its right as the last argument.

An operand is a primary construct followed by any number of calls `(a, b)` and field
accesses `.n`. A binary operation stands where its leftmost operand does, a call and
a field access where their primary does, and a prefix operation where its operator does.

Statements are separated by `;` (a last `;` may follow) and fold from the right into
a chain, each `let` and `alias` holding the statements after it.

Every rule that can hold a nested expression or block counts one level of nesting;
reading gives up past the number of levels its caller allows, the nesting the host's
stack leaves it.
-/

namespace Retl

namespace Tree

open Reader

/-- The readers a rule needs for the constructs nested inside it, one level deeper. -/
structure Nested where
  expr : Reader Node
  stmts : Reader Node
  type : Reader TypeExpr

/-- Read a type expression, nesting at most `depth` levels. -/
def typeExpr : Nat → Reader TypeExpr
  | 0 => tooDeep
  | d + 1 => do
    let p ← tokenPosition
    let inner := typeExpr d
    let members := do
      symbol "["
      let ts ← sepBy1 inner (symbol ",")
      symbol "]"
      pure ts
    (do keyword "list"; symbol "["; let e ← inner; symbol "]"; pure (.list e p))
    <|> (do keyword "tuple"; let ts ← members; pure (.tuple ts p))
    <|> (do
      keyword "dict"; symbol "["
      let k ← inner; symbol ":"
      let v ← inner; symbol "]"
      pure (.dict k v p))
    <|> (do keyword "union"; let ts ← members; pure (.union ts p))
    <|> (do
      keyword "lambda"; symbol "["
      let ps ← optional (sepBy1 inner (symbol ","))
      symbol "->"
      let r ← inner; symbol "]"
      pure (.func (ps.getD []) r p))
    <|> (do let n ← oneKeyword ScalarName.keyword ScalarName.all; pure (.atom n p))
    <|> (do let n ← identifier; pure (.ref n p))

/-- Read a literal: an unsigned integer, `true`, `false`, `null`, a character or a string. -/
def literal : Reader LitNode := do
  let p ← tokenPosition
  (do let n ← natural; pure ⟨.int n, p⟩)
  <|> (do let b ← oneKeyword id ["true", "false"]; pure ⟨.bool (b == "true"), p⟩)
  <|> (do keyword "null"; pure ⟨.null, p⟩)
  <|> (do let c ← charLiteral; pure ⟨.char c, p⟩)
  <|> (do let s ← stringLiteral; pure ⟨.string s, p⟩)

/-- Read a literal of a pattern, where integers may carry a minus sign. -/
def patternLiteral : Reader LitNode := do
  let p ← tokenPosition
  (do let n ← signed; pure ⟨.int n, p⟩)
  <|> (do let b ← oneKeyword id ["true", "false"]; pure ⟨.bool (b == "true"), p⟩)
  <|> (do keyword "null"; pure ⟨.null, p⟩)
  <|> (do let c ← charLiteral; pure ⟨.char c, p⟩)
  <|> (do let s ← stringLiteral; pure ⟨.string s, p⟩)

/-- Read a block `{ statements }`; an empty block is an empty node at its brace. -/
def block (g : Nested) : Reader Node := do
  let p ← tokenPosition
  symbol "\x7b"
  let body ← optional g.stmts
  symbol "\x7d"
  pure (body.getD (.empty p))

/-- Read a name with its type, `name: type`. -/
def typedName (g : Nested) : Reader (String × TypeExpr) := do
  let n ← identifier
  symbol ":"
  let t ← g.type
  pure (n, t)

/-- Read a function literal `\x: int, y: int -> int { body }`. -/
def lambda (g : Nested) : Reader Node := do
  let p ← tokenPosition
  symbol "\\"
  let ps ← optional (sepBy1 (typedName g) (symbol ","))
  symbol "->"
  let r ← g.type
  let body ← block g
  pure (.lam (ps.getD []) r body p)

/-- One `if cond { … }` arm of a conditional, at the position of its `if`. -/
def branchArm (g : Nested) : Reader (Position × Node × Node) := do
  let p ← tokenPosition
  keyword "if"
  let c ← g.expr
  let t ← block g
  pure (p, c, t)

/-- Chain conditional arms from the right: each arm's `else` is the next arm. -/
def foldArms : List (Position × Node × Node) → Option Node → Option Node
  | [], e => e
  | (p, c, t) :: arms, e => some (.branch c t (foldArms arms e) p)

/-- Read a conditional: an arm, then `else` arms, then at most one `else { … }`. -/
def branch (g : Nested) : Reader Node := do
  let first ← branchArm g
  let more ← many (do keyword "else"; branchArm g)
  let last ← optional (do keyword "else"; block g)
  let (p, c, t) := first
  pure (.branch c t (foldArms more last) p)

/-- Read the pattern of a `match` case. The alternatives are tried in order: `_`, a
range, several literals joined by `|`, one literal, and `name: type` with an optional
`if` guard. -/
def pattern (g : Nested) : Reader Pattern := do
  let p ← tokenPosition
  (do keyword "_"; pure (.any p))
  <|> (do let (lo, hi) ← rangeBounds; pure (.range lo hi p))
  <|> (do
    let first ← patternLiteral
    let rest ← many1 (do symbol "|"; patternLiteral)
    pure (.multi (first :: rest) p))
  <|> (do let l ← patternLiteral; pure (.literal l))
  <|> (do
    let (n, t) ← typedName g
    let guard ← optional (do keyword "if"; g.expr)
    pure (.typed n t guard p))

/-- Read one case `case pattern => statements`, with an optional trailing comma. -/
def matchCase (g : Nested) : Reader (Pattern × Node) := do
  keyword "case"
  let pat ← pattern g
  symbol "=>"
  let body ← g.stmts
  let _ ← optional (symbol ",")
  pure (pat, body)

/-- Read a `match subject { case … }` with at least one case. -/
def matchOn (g : Nested) : Reader Node := do
  let p ← tokenPosition
  keyword "match"
  let s ← g.expr
  symbol "\x7b"
  let cases ← many1 (matchCase g)
  symbol "\x7d"
  pure (.matchOn s cases p)

/-- Read a loop `foreach x in iterable { body }`. -/
def foreach (g : Nested) : Reader Node := do
  let p ← tokenPosition
  keyword "foreach"
  let n ← identifier
  keyword "in"
  let it ← g.expr
  let body ← block g
  pure (.foreach n it body p)

/-- Read a schema `schema { name: type, … }`; a trailing comma is allowed, and so is
a lone comma in place of the columns. -/
def schema (g : Nested) : Reader Node := do
  let p ← tokenPosition
  keyword "schema"
  symbol "\x7b"
  let cols ← optional (sepBy1 (typedName g) (symbol ","))
  let _ ← optional (symbol ",")
  symbol "\x7d"
  pure (.schema (cols.getD []) p)

/-- Read a comma-separated, possibly empty, list of expressions. -/
def exprList (g : Nested) : Reader (List Node) := do
  let es ← optional (sepBy1 g.expr (symbol ","))
  pure (es.getD [])

/-- Read a list literal `[a, b]`. -/
def listLiteral (g : Nested) : Reader Node := do
  let p ← tokenPosition
  symbol "["
  let es ← exprList g
  symbol "]"
  pure (.list es p)

/-- Read a dictionary literal `{key: value, …}`; keys are literals. -/
def dictLiteral (g : Nested) : Reader Node := do
  let p ← tokenPosition
  symbol "\x7b"
  let entry := do
    let k ← literal
    symbol ":"
    let v ← g.expr
    pure (k, v)
  let es ← optional (sepBy1 entry (symbol ","))
  symbol "\x7d"
  pure (.dict (es.getD []) p)

/-- Read what starts with `(`: the unit `()`, a tuple `(a,)` or `(a, b)`, or an
expression in parentheses. -/
def parenthesized (g : Nested) : Reader Node := do
  let p ← tokenPosition
  symbol "("
  (do symbol ")"; pure (.empty p))
  <|> (do
    let e ← g.expr
    (do
      symbol ","
      let rest ← exprList g
      symbol ")"
      pure (.tuple (e :: rest) p))
    <|> (do symbol ")"; pure e))

/-- Read a primary construct. -/
def primary (g : Nested) : Reader Node := do
  let p ← tokenPosition
  lambda g <|> branch g <|> matchOn g <|> foreach g <|> schema g <|> listLiteral g
    <|> dictLiteral g <|> parenthesized g
    <|> (do let l ← literal; pure (.lit l.literal l.pos))
    <|> (do let n ← identifier; pure (.ref n p))

/-- A call or a field access following an operand. -/
inductive Suffix where
  | call (args : List Node)
  | field (index : Nat)

/-- Read a primary construct and the calls and field accesses after it. -/
def withSuffixes (g : Nested) : Reader Node := do
  let head ← primary g
  let suffixes ← many
    ((do symbol "("; let args ← exprList g; symbol ")"; pure (Suffix.call args))
      <|> (do let k ← fieldIndex; pure (Suffix.field k)))
  let attach := fun (n : Node) (s : Suffix) =>
    match s with
    | .call args => Node.apply n args head.pos
    | .field k => Node.access n k head.pos
  pure (suffixes.foldl attach head)

/-- Read an operand with its prefix operators. -/
def prefixed (g : Nested) : Reader Node := do
  let ops ← many (do
    let p ← tokenPosition
    let op ← operator [("!", .not), ("-", .neg)]
    pure (op, p))
  let x ← withSuffixes g
  pure (ops.foldr (fun (op, p) acc => Node.prim op acc none p) x)

/-- Read one level of left-grouping binary operators over operands read by `next`. -/
def binaryLevel (ops : List (String × PrimOp)) (next : Reader Node) : Reader Node := do
  let first ← next
  let rest ← many (do
    let op ← operator ops
    let rhs ← next
    pure (op, rhs))
  pure (rest.foldl (fun acc (op, rhs) => Node.prim op acc (some rhs) first.pos) first)

/-- The binary operator levels, from the tightest to the loosest; within a level a
longer symbol is tried before its prefix. -/
def binaryLevels : List (List (String × PrimOp)) :=
  [[("*", .mul), ("/", .div), ("%", .rem)],
   [("++", .concat), ("+", .add), ("-", .sub)],
   [("<=", .le), (">=", .ge), ("<", .lt), (">", .gt)],
   [("===", .same), ("==", .eq), ("!=", .ne)],
   [("&&", .and)],
   [("||", .or)]]

/-- Hand `arg` to a call as its last argument; anything else is called with `arg`. -/
def pipeInto (arg target : Node) : Node :=
  match target with
  | .apply f args p => .apply f (args ++ [arg]) p
  | t => .apply t [arg] t.pos

/-- Read an expression: the binary levels over prefixed operands, then `|>`. -/
def operatorExpr (g : Nested) : Reader Node := do
  let level := binaryLevels.foldl (fun next ops => binaryLevel ops next) (prefixed g)
  let first ← level
  let rest ← many (do symbol "|>"; level)
  pure (rest.foldl pipeInto first)

/-- One statement: a `let`, an `alias` or an expression. -/
inductive Statement where
  | bind (name : String) (type : Option TypeExpr) (value : Node) (pos : Position)
  | aliasType (name : String) (type : TypeExpr) (pos : Position)
  | expr (e : Node)

/-- Read one statement. -/
def statement (g : Nested) : Reader Statement := do
  let p ← tokenPosition
  (do
    keyword "let"
    let n ← identifier
    let t ← optional (do symbol ":"; g.type)
    equalsSign
    let v ← g.expr
    pure (.bind n t v p))
  <|> (do
    keyword "alias"
    let n ← identifier
    equalsSign
    let t ← g.type
    pure (.aliasType n t p))
  <|> (do let e ← g.expr; pure (.expr e))

/-- The generated name that holds an expression statement followed by more statements. -/
def statementName (p : Position) : String :=
  "dummy$" ++ toString p.line ++ "_" ++ toString p.column

/-- Chain statements from the right: a `let` or an `alias` holds the rest as its
continuation; an expression followed by more statements is bound to a generated name. -/
def chain : List Statement → Option Node
  | [] => none
  | .bind n t v p :: rest => some (.bind n t v (chain rest) p)
  | .aliasType n t p :: rest => some (.aliasType n t (chain rest) p)
  | .expr e :: rest =>
    match chain rest with
    | none => some e
    | some k => some (.bind (statementName e.pos) none e (some k) e.pos)

/-- Read statements separated by `;`, with an optional last `;`. -/
def statementList (g : Nested) : Reader Node := do
  let ss ← sepBy1 (statement g) (symbol ";")
  let _ ← optional (symbol ";")
  match chain ss with
  | some n => pure n
  | none => fail

mutual

/-- Read an expression, nesting at most `depth` levels. -/
def expression : Nat → Reader Node
  | 0 => tooDeep
  | d + 1 => operatorExpr ⟨expression d, statements d, typeExpr d⟩

/-- Read a list of statements, nesting at most `depth` levels. -/
def statements : Nat → Reader Node
  | 0 => tooDeep
  | d + 1 => statementList ⟨expression d, statements d, typeExpr d⟩

end

/-- Why a program could not be read. -/
inductive ReadError where
  | invalid
  | stopped (why : Stop)
  deriving DecidableEq, Repr

/-- The diagnostic that reports a program that could not be read. -/
def ReadError.diagnostic : ReadError → Diagnostic
  | .invalid => { severity := .syntactic, message := "Invalid syntax" }
  | .stopped .tooDeep => { severity := .internal, message := "Program nested too deeply to parse" }
  | .stopped (.tooManyDigits n) =>
    { severity := .internal,
      message := "Internal parser error: ValueError: " ++ Text.digitLimitMessage n }

/-- Read a whole program, nesting at most `nesting` levels: statements up to the end of
the text, blanks and comments allowed around them. A program of blanks alone is an empty
node at line 1, column 1, with an empty line text. -/
def readProgram (nesting : Nat) (src : Source) : Except ReadError Node :=
  let start := skipBlank src 0
  if start ≥ src.chars.size then
    .ok (.empty { file := src.file, line := 1, column := 1, lineText := "" })
  else
    match statements nesting src start with
    | .read n j => if skipBlank src j ≥ src.chars.size then .ok n else .error .invalid
    | .miss => .error .invalid
    | .stop w => .error (.stopped w)

/-- Read a program text under the file name `file`, nesting at most `nesting` levels. -/
def parse (nesting : Nat) (file text : String) : Except ReadError Node :=
  readProgram nesting (Source.ofText file text)

end Tree

end Retl
