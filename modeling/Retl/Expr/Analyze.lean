import Retl.Expr.Basic
import Retl.Tree.Basic
import Retl.Types.Ty
import Retl.Diagnostic
/-!
# Analysis

Analysis turns a concrete tree into an analysed expression. It resolves every written
type against the aliases in scope, and it reports, without stopping:

* a type name that is no alias in scope (`Unknown type: T`), which resolves to `unknown`;
* an integer literal outside the signed 32-bit range;
* a parameter name used twice in one lambda, once per such name;
* a column name used twice in one schema, at each repetition;
* a field index past the end of a statically known tuple;
* a range pattern whose low end is above its high end.

An `alias` scopes over the statements after it; a program's own top-level aliases are
returned with its expression so that a session can keep them. In a dictionary literal a
repeated key keeps the place of its first occurrence and the value of its last. The
cases of a `match` are analysed before its subject.

Analysis nests one level per expression it enters, and gives up past the depth its
caller allows; the chain of a block's statements does not nest.
-/

namespace Retl

open Retl.Tree (Node Pattern TypeExpr LitNode)

/-- Type aliases in scope, in the order they were first declared. -/
abbrev Aliases := List (String × Ty)

namespace Aliases

/-- The type an alias stands for. -/
def lookup (as : Aliases) (name : String) : Option Ty :=
  (as.find? fun a => a.1 == name).map Prod.snd

/-- Declare an alias: a new name goes last, a redeclared one keeps its place. -/
def declare (as : Aliases) (name : String) (t : Ty) : Aliases :=
  if as.any (fun a => a.1 == name) then as.map fun a => if a.1 == name then (name, t) else a
  else as ++ [(name, t)]

end Aliases

/-- What analysis leaves behind: its diagnostics in the order found, and its trace. -/
structure AnalysisLog where
  diagnostics : Array Diagnostic
  trace : String

/-- Why analysis stopped before the end. -/
inductive AnalysisAbort where
  | tooDeep
  deriving DecidableEq, Repr

/-- An analysis step: it may report and trace, and it may give up. -/
abbrev Analysis := ExceptT AnalysisAbort (StateM AnalysisLog)

/-- What a step of analysis sees: the aliases in scope and whether to trace. -/
structure AnalysisScope where
  aliases : Aliases
  trace : Bool

namespace Analysis

/-- Report a semantic problem at a position. -/
def report (message : String) (pos : Position) : Analysis Unit :=
  modify fun log =>
    { log with diagnostics := log.diagnostics.push { severity := .semantic, message, position := some pos } }

/-- Add a line to the trace when tracing is on. -/
def note (sc : AnalysisScope) (line : String) : Analysis Unit :=
  if sc.trace then modify fun log => { log with trace := log.trace ++ line ++ "\n" } else pure ()

end Analysis

open Analysis

/-- The least and the greatest signed 32-bit integers. -/
def int32Min : Int := -2147483648
def int32Max : Int := 2147483647

/-- Whether an integer fits in 32 bits, signed. -/
def fitsInt32 (n : Int) : Bool := int32Min ≤ n && n ≤ int32Max

/-- The type a scalar keyword names. -/
def Tree.ScalarName.type : Tree.ScalarName → Ty
  | .int => .int
  | .bool => .bool
  | .char => .char
  | .string => .string
  | .null => .null
  | .schema => .schema
  | .any => .any

mutual

/-- Resolve a written type against the aliases in scope. -/
def resolveType (as : Aliases) : TypeExpr → Analysis Ty
  | .atom n _ => pure n.type
  | .list e _ => return .list (← resolveType as e)
  | .tuple es _ => return .tuple (← resolveTypes as es)
  | .dict k v _ => do
    let k ← resolveType as k
    let v ← resolveType as v
    pure (.dict k v)
  | .union ms _ => return .union (← resolveTypes as ms)
  | .func ps r _ => do
    let ps ← resolveTypes as ps
    let r ← resolveType as r
    pure (.func ps r)
  | .ref n p =>
    match as.lookup n with
    | some t => pure t
    | none => do report ("Unknown type: " ++ n) p; pure .unknown

/-- Resolve a list of written types, in order. -/
def resolveTypes (as : Aliases) : List TypeExpr → Analysis (List Ty)
  | [] => pure []
  | t :: ts => do
    let t ← resolveType as t
    let ts ← resolveTypes as ts
    pure (t :: ts)

end

/-- Resolve an optional written type; a missing one is `unknown`. -/
def resolveTypeOpt (as : Aliases) : Option TypeExpr → Analysis Ty
  | none => pure .unknown
  | some t => resolveType as t

/-- Check a literal: an integer must fit in 32 bits. -/
def checkLiteral (l : LitNode) : Analysis Unit :=
  match l.literal with
  | .int n =>
    if fitsInt32 n then pure ()
    else report ("Integer literal " ++ toString n ++ " does not fit in 32 bits") l.pos
  | _ => pure ()

/-- The names that occur more than once in a list, each once, in order of first
occurrence. -/
def repeatedNames (names : List String) : List String :=
  (names.filter fun n => names.count n > 1).eraseDups

/-- Keep one entry per literal key: at the place of its first occurrence, the last
entry with that key. -/
def lastPerKey (entries : List (LitNode × Expr)) : List (LitNode × Expr) :=
  let keys := (entries.map fun e => e.1.literal).eraseDups
  keys.filterMap fun k => (entries.reverse.find? fun e => e.1.literal == k)

mutual

/-- Analyse an expression with `budget` levels of nesting left. -/
def analyzeExpr (sc : AnalysisScope) (budget : Nat) (n : Node) : Analysis Expr := do
  if budget = 0 then throw .tooDeep
  note sc ("Analyzing: " ++ n.kind)
  let inner := budget - 1
  match n with
  | .lit l p => do
    checkLiteral ⟨l, p⟩
    pure (.lit l p)
  | .ref name p => pure (.ref name p)
  | .bind name t v next p => do
    let lt ← resolveTypeOpt sc.aliases t
    let e ← analyzeExpr sc inner v
    let (k, _) ← analyzeRest sc inner next
    pure (.bind name lt e k p)
  | .aliasType name t next p => do
    let aliasTy ← resolveType sc.aliases t
    let (k, _) ← analyzeRest { sc with aliases := sc.aliases.declare name aliasTy } inner next
    pure (.aliasType name aliasTy k p)
  | .lam ps r body p => do
    let ts ← resolveTypes sc.aliases (ps.map Prod.snd)
    let rt ← resolveType sc.aliases r
    for name in repeatedNames (ps.map Prod.fst) do
      report ("Duplicate parameter: " ++ name) p
    let b ← analyzeExpr sc inner body
    pure (.lam ((ps.map Prod.fst).zip ts) rt b p)
  | .apply f args p => do
    let f ← analyzeExpr sc inner f
    let args ← analyzeList sc inner args
    pure (.apply f args p)
  | .prim op l r p => do
    let l ← analyzeExpr sc inner l
    let r ← analyzeOpt sc inner r
    pure (.prim op l r p)
  | .branch c t e p => do
    let c ← analyzeExpr sc inner c
    let t ← analyzeExpr sc inner t
    let e ← analyzeOpt sc inner e
    pure (.branch c t e p)
  | .matchOn s cases p => do
    let cases ← analyzeCases sc inner cases
    let s ← analyzeExpr sc inner s
    pure (.matchOn s cases p)
  | .foreach name it body p => do
    let it ← analyzeExpr sc inner it
    let body ← analyzeExpr sc inner body
    pure (.iter name it body p)
  | .list es p => return .list (← analyzeList sc inner es) p
  | .tuple es p => return .tuple (← analyzeList sc inner es) p
  | .access t i p => do
    let t ← analyzeExpr sc inner t
    match t.static with
    | .tuple ts =>
      if i ≥ ts.length then
        report ("Tuple index " ++ toString i ++ " out of range for " ++ (Ty.tuple ts).render) p
    | _ => pure ()
    pure (.access t i p)
  | .dict entries p => do
    let entries ← analyzeEntries sc inner entries
    pure (.dict (lastPerKey entries) p)
  | .schema cols p => do
    let mut seen : List String := []
    let mut columns : List (String × Ty) := []
    for (name, t) in cols do
      if seen.contains name then report ("Duplicate column: " ++ name) p
      let ct ← resolveType sc.aliases t
      seen := seen ++ [name]
      columns := columns ++ [(name, ct)]
    pure (.schema columns p)
  | .empty p => pure (.empty p)

/-- Analyse what follows a link of a statement chain: further links without entering
a new level, and the final expression as an expression. Returns the aliases in scope
at the end of the chain. -/
def analyzeRest (sc : AnalysisScope) (budget : Nat) : Option Node → Analysis (Option Expr × Aliases)
  | none => pure (none, sc.aliases)
  | some (.bind name t v next p) => do
    let lt ← resolveTypeOpt sc.aliases t
    let e ← analyzeExpr sc budget v
    let (k, as) ← analyzeRest sc budget next
    pure (some (.bind name lt e k p), as)
  | some (.aliasType name t next p) => do
    let aliasTy ← resolveType sc.aliases t
    let (k, as) ← analyzeRest { sc with aliases := sc.aliases.declare name aliasTy } budget next
    pure (some (.aliasType name aliasTy k p), as)
  | some n => do
    let e ← analyzeExpr sc budget n
    pure (some e, sc.aliases)

/-- Analyse an optional expression. -/
def analyzeOpt (sc : AnalysisScope) (budget : Nat) : Option Node → Analysis (Option Expr)
  | none => pure none
  | some n => return some (← analyzeExpr sc budget n)

/-- Analyse a list of expressions, in order. -/
def analyzeList (sc : AnalysisScope) (budget : Nat) : List Node → Analysis (List Expr)
  | [] => pure []
  | n :: ns => do
    let e ← analyzeExpr sc budget n
    let es ← analyzeList sc budget ns
    pure (e :: es)

/-- Analyse dictionary entries, each key and then its value. -/
def analyzeEntries (sc : AnalysisScope) (budget : Nat) :
    List (LitNode × Node) → Analysis (List (LitNode × Expr))
  | [] => pure []
  | (k, v) :: es => do
    checkLiteral k
    let v ← analyzeExpr sc budget v
    let rest ← analyzeEntries sc budget es
    pure ((k, v) :: rest)

/-- Analyse `match` cases, each pattern and then its body. -/
def analyzeCases (sc : AnalysisScope) (budget : Nat) :
    List (Pattern × Node) → Analysis (List (Case × Expr))
  | [] => pure []
  | (pat, body) :: cs => do
    let c ← analyzePattern sc budget pat
    let b ← analyzeExpr sc budget body
    let rest ← analyzeCases sc budget cs
    pure ((c, b) :: rest)

/-- Analyse a pattern. -/
def analyzePattern (sc : AnalysisScope) (budget : Nat) : Pattern → Analysis Case
  | .typed name t pred p => do
    let ct ← resolveType sc.aliases t
    let pr ← analyzeOpt sc budget pred
    pure (.typed name ct pr p)
  | .literal l => do
    checkLiteral l
    pure (.literal l l.pos)
  | .multi ls p => do
    for l in ls do checkLiteral l
    pure (.multi ls p)
  | .range lo hi p => do
    if lo > hi then report ("Empty range pattern " ++ toString lo ++ ".." ++ toString hi) p
    pure (.range lo hi p)
  | .any p => pure (.any p)

end

/-- The outcome of analysing a program: the expression and the aliases in scope at
its end, or nothing when analysis gave up (its last diagnostic then says so); with the
diagnostics and the trace. -/
structure Analyzed where
  result : Option (Expr × Aliases)
  diagnostics : Array Diagnostic
  trace : String

/-- Analyse a program under the aliases a session has declared so far, nesting at most
`depth` levels. -/
def analyzeProgram (depth : Nat) (aliases : Aliases) (trace : Bool) (n : Node) : Analyzed :=
  let run := analyzeRest { aliases, trace } depth (some n)
  match run.run ⟨#[], ""⟩ with
  | (.ok (some e, as), log) => ⟨some (e, as), log.diagnostics, log.trace⟩
  | (.ok (none, _), log) => ⟨none, log.diagnostics, log.trace⟩
  | (.error .tooDeep, log) =>
    ⟨none, log.diagnostics.push
      { severity := .internal, message := "Program nested too deeply to analyze" }, log.trace⟩

end Retl
