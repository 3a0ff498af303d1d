import Retl.Eval.Builtins
/-!
# The interpreter

`Eval.eval fuel cfg env expected e` evaluates `e` in the scope `env` under the type its
context expects. Each nested evaluation and each function call spends one unit of
`fuel`; a run that nests deeper than its fuel halts with `Halt.tooDeep`, which the top
level reports as an internal diagnostic at the program's root.

One step of evaluation (`Eval.step`) sees the rest of the interpreter only through an
`Engine` one level deeper, so every form is a plain function of its operands'
evaluations, and the recursion is in the two-line `eval` / `call` pair alone.

The rules, per form:
* every value meets the type its context expects through `conformValue`;
* operands are evaluated left to right and the first error among them is the result,
  after all of them have been evaluated (their effects stay);
* `let` chains bind each link, errors included, and then evaluate what follows, or give
  `null` at the chain's head when nothing follows;
* a function literal captures its scope and is a new function each time;
* an application indexes a text, list, table or dictionary with one argument, or calls
  a function after checking its arity and evaluating every argument under its
  parameter's type;
* the first matching case of a `match` wins; a type pattern binds the subject unchanged,
  and its guard is evaluated under `bool`;
* `foreach` runs its body for each item, or `0 .. n-1` for an integer `n`;
* a list takes its element type from an expected union or from its first element; a
  dictionary its key and value types in the same way from its first pair.
-/

namespace Retl

/-- The name a function reports itself by: its builtin name, or `lambda`. -/
def FuncId.label : FuncId → String
  | .builtin b => b.name
  | .lambda _ => "lambda"

namespace Eval

/-- The value of a literal. -/
def literalValue : Literal → Value
  | .int n => .int n
  | .bool b => .bool b
  | .null => .null
  | .char c => .char c
  | .string s => .string s

/-- Whether a value is the literal: the same kind and the same content. -/
def literalMatches (v : Value) : Literal → Bool
  | .int n => match v with | .int m => m == n | _ => false
  | .bool b => match v with | .bool c => b == c | _ => false
  | .null => match v with | .null => true | _ => false
  | .char c => match v with | .char d => c == d | _ => false
  | .string s => match v with | .string t => s == t | _ => false

/-- The first error among values, if any. -/
def firstError (vs : List Value) : Option Value := vs.find? Value.isError

/-- "`fn` requires `n` arguments, got `m`". -/
def arityMessage (fn : String) (expected got : Nat) : String :=
  fn ++ " requires " ++ toString expected ++ " arguments, got " ++ toString got

/-- "`what` index `i` out of range for length `n`". -/
def indexMessage (what : String) (i : Int) (n : Nat) : String :=
  what ++ " index " ++ toString i ++ " out of range for length " ++ toString n

/-- Evaluate the links of a `let` chain: each binding's value, errors included, is bound
in a new scope, and aliases pass through. Gives what follows the chain and its scope. -/
def walkBindings (k : Engine) : Env → Option Expr → Eval (Option Expr × Env)
  | env, some (.bind name t value next _) => do
    let v ← k.eval env t value
    walkBindings k (env.bind name v) next
  | env, some (.aliasType _ _ next _) => walkBindings k env next
  | env, e => pure (e, env)

/-- How one case meets the subject of a `match`. -/
inductive CaseOutcome where
  | matched (env : Env)
  | skipped
  | failed (guard : Value)

/-- Try one case against the subject. -/
def tryCase (k : Engine) (env : Env) (subject : Value) : Case → Eval CaseOutcome
  | .any _ => pure (.matched env)
  | .typed name t predicate _ =>
    if !subject.type.conformsTo t then pure .skipped
    else
      let env' := env.bind name subject
      match predicate with
      | none => pure (.matched env')
      | some p => do
        match ← k.eval env' .bool p with
        | .bool true => pure (.matched env')
        | .bool false => pure .skipped
        | g => pure (.failed g)
  | .literal ln _ => pure (if literalMatches subject ln.literal then .matched env else .skipped)
  | .multi lits _ =>
    pure (if lits.any (fun ln => literalMatches subject ln.literal) then .matched env else .skipped)
  | .range lo hi _ =>
    pure (match subject with
      | .int n => if lo ≤ n && n ≤ hi then .matched env else .skipped
      | _ => .skipped)

/-- The cases of a `match`, tried in order; the first that matches evaluates its body. -/
def matchCases (k : Engine) (env : Env) (expected : Ty) (subject : Value) (pos : Position) :
    List (Case × Expr) → Eval Value
  | [] => fail ("No case matched value " ++ subject.render) pos
  | (c, body) :: rest => do
    match ← tryCase k env subject c with
    | .matched env' => k.eval env' expected body
    | .failed g => pure g
    | .skipped => matchCases k env expected subject pos rest

/-- Apply a value to argument expressions: index a text, a list, a table or a
dictionary with one argument, or call a function. -/
def applyTo (k : Engine) (env : Env) (expected : Ty) (callee : Value) (args : List Expr)
    (pos : Position) : Eval Value :=
  match callee, args with
  | .string s, [a] => do
    match ← k.eval env .int a with
    | .int i =>
      match (if 0 ≤ i then s.toList[i.toNat]? else none) with
      | some c => conformValue (.char c) expected pos
      | none => fail (indexMessage "String" i s.length) pos
    | bad => pure bad
  | .list es _, [a] | .table _ es _, [a] => do
    match ← k.eval env .int a with
    | .int i =>
      match (if 0 ≤ i then es[i.toNat]? else none) with
      | some v => conformValue v expected pos
      | none => fail (indexMessage "List" i es.length) pos
    | bad => pure bad
  | .dict ps t, [a] => do
    let keyTy := match t with
      | .dict kt _ => kt
      | _ => .unknown
    let key ← k.eval env keyTy a
    if key.isError then return key
    match ps.find? (fun (k', _) => Value.equal k' key) with
    | some (_, v) => conformValue v expected pos
    | none => fail ("Key not found: " ++ key.render) pos
  | .func id params _ _ _ _, _ =>
    if args.length != params.length then
      fail (arityMessage id.label params.length args.length) pos
    else do
      let vs ← (args.zip params).mapM fun (a, (_, t)) => k.eval env t a
      match firstError vs with
      | some bad => pure bad
      | none => conformValue (← k.call callee vs pos) expected pos
  | _, _ =>
    fail ("Cannot apply value of type " ++ callee.type.render ++ " to " ++ toString args.length ++
      " arguments") pos

/-- Bind call arguments to parameters in one frame. Each argument must conform to its
parameter's type: an error argument is the outcome, and one that does not conform is
reported as a type mismatch at the call and gives the builtin's message. -/
def bindArgs (fn : String) (pos : Position) :
    Frame → List Value → List (String × Ty) → Eval (Except Value Frame)
  | frame, v :: vs, (name, t) :: ps =>
    if v.isError then pure (.error v)
    else
      match v.type.conform? t with
      | some r => bindArgs fn pos (Env.Frame.set frame name (v.retype r)) vs ps
      | none => do
        record .type (Ty.mismatchMessage v.type t) (some pos)
        pure (.error (.error (Builtins.requires fn name t.render v)))
  | frame, _, _ => pure (.ok frame)

/-- Call a function value on evaluated arguments: bind them in a new frame on the
function's captured scope, then run the builtin or evaluate the body under the declared
result type. -/
def callStep (k : Engine) (cfg : RunConfig) (f : Value) (args : List Value) (pos : Position) :
    Eval Value :=
  match f with
  | .func id params result body closure _ =>
    if args.length != params.length then
      fail (arityMessage id.label params.length args.length) pos
    else do
      match ← bindArgs id.label pos [] args params with
      | .error v => pure v
      | .ok frame =>
        match id, body with
        | .builtin b, _ => do
          trace cfg ("Builtin: " ++ b.name)
          Builtins.run k b (params.filterMap fun (n, _) => (frame.find? (·.1 == n)).map Prod.snd) pos
        | .lambda _, some body => k.eval (frame :: closure) result body
        | .lambda _, none => pure .null
  | v => fail ("Cannot apply value of type " ++ v.type.render ++ " to " ++ toString args.length ++
      " arguments") pos

/-- Evaluate a dictionary literal's pairs: the first pair under the expected key and
value types, the rest under the types the first pair fixed (an expected union stays). -/
def dictPairs (k : Engine) (env : Env) (kt vt : Ty) :
    List (Tree.LitNode × Expr) → Eval (List (Value × Value) × Ty × Ty)
  | [] => pure ([], kt, vt)
  | (kn, ve) :: rest => do
    let key ← k.eval env kt (.lit kn.literal kn.pos)
    let val ← k.eval env vt ve
    let kt' := match kt with
      | .union _ => kt
      | _ => key.type
    let vt' := match vt with
      | .union _ => vt
      | _ => val.type
    let others ← rest.mapM fun (kn, ve) => do
      let key ← k.eval env kt' (.lit kn.literal kn.pos)
      let val ← k.eval env vt' ve
      pure (key, val)
    pure ((key, val) :: others, kt', vt')

/-- One step of evaluation: the form at the top of `e`, with its operands evaluated by
the engine `k`. -/
def step (k : Engine) (cfg : RunConfig) (env : Env) (expected : Ty) (e : Expr) : Eval Value := do
  trace cfg ("Evaluating: " ++ e.kind)
  match e with
  | .lit l pos => conformValue (literalValue l) expected pos
  | .bind _ _ _ _ pos | .aliasType _ _ _ pos => do
    match ← walkBindings k env (some e) with
    | (some rest, env') => k.eval env' expected rest
    | (none, _) => conformValue .null expected pos
  | .lam params result body pos => do
    let id ← freshLambda
    conformValue (.func id params result (some body) env (.func (params.map Prod.snd) result))
      expected pos
  | .apply callee args pos => do
    let f ← k.eval env .unknown callee
    if f.isError then pure f else applyTo k env expected f args pos
  | .matchOn subject cases pos => do
    let s ← k.eval env .unknown subject
    if s.isError then pure s else matchCases k env expected s pos cases
  | .prim op left right pos => do
    let l ← k.eval env .unknown left
    let r ← match right with
      | some e => some <$> k.eval env .unknown e
      | none => pure none
    match firstError (l :: r.toList) with
    | some bad => pure bad
    | none =>
      let v := Operators.apply op l r
      if let .error m := v then record .evaluation m (some pos)
      conformValue v expected pos
  | .ref name pos =>
    match env.lookup name with
    | some v => conformValue v expected pos
    | none => fail ("Unbound identifier: " ++ name) pos
  | .branch cond thenBranch elseBranch pos => do
    let ts := thenBranch.static
    let es := Expr.staticOpt elseBranch
    if !ts.hasUnknown && !es.hasUnknown && !ts.conformsTo es then
      record .type (Ty.mismatchMessage ts es) (some pos)
    match ← k.eval env .bool cond with
    | .bool true => k.eval env expected thenBranch
    | .bool false =>
      match elseBranch with
      | some e => k.eval env expected e
      | none => conformValue .null expected pos
    | bad => pure bad
  | .iter name iterable body pos => do
    let it ← k.eval env .unknown iterable
    if it.isError then return it
    let items := match it with
      | .int n => some ((List.range n.toNat).map fun i => Value.int (Int.ofNat i))
      | v => v.items?
    match items with
    | none => fail ("Cannot iterate over " ++ it.type.render) pos
    | some xs => do
      xs.forM fun x => discard <| k.eval (env.bind name x) .unknown body
      conformValue .null expected pos
  | .list es pos => do
    let ex := match expected with
      | .list t => t
      | _ => .unknown
    match es with
    | [] => conformValue (Value.listOf [] (if ex.hasUnknown then .any else ex)) expected pos
    | e :: rest => do
      let first ← k.eval env ex e
      let elemTy := match ex with
        | .union _ => ex
        | _ => first.type
      let others ← rest.mapM (k.eval env elemTy)
      match firstError (first :: others) with
      | some bad => pure bad
      | none => conformValue (Value.listOf (first :: others) elemTy) expected pos
  | .tuple es pos => do
    let slots := match expected with
      | .tuple ts => if ts.length == es.length then ts else es.map fun _ => Ty.unknown
      | _ => es.map fun _ => Ty.unknown
    let vs ← (es.zip slots).mapM fun (e, t) => k.eval env t e
    match firstError vs with
    | some bad => pure bad
    | none => conformValue (Value.tupleOf vs) expected pos
  | .access target index pos => do
    match ← k.eval env .unknown target with
    | .tuple vs _ =>
      match vs[index]? with
      | some v => conformValue v expected pos
      | none => fail (indexMessage "Tuple" index vs.length) pos
    | .error m => pure (.error m)
    | v => fail ("Cannot access field ." ++ toString index ++ " of " ++ v.type.render) pos
  | .dict pairs pos => do
    let (kt, vt) := match expected with
      | .dict a b => (a, b)
      | _ => (.unknown, .unknown)
    match pairs with
    | [] =>
      let empty := Value.dict [] (.dict (if kt.hasUnknown then .any else kt)
        (if vt.hasUnknown then .any else vt))
      conformValue empty expected pos
    | _ => do
      let (evaluated, kt', vt') ← dictPairs k env kt vt pairs
      match firstError (evaluated.flatMap fun (a, b) => [a, b]) with
      | some bad => pure bad
      | none => conformValue (.dict evaluated (.dict kt' vt')) expected pos
  | .schema columns pos => conformValue (.schema columns) expected pos
  | .empty pos => conformValue .null expected pos

mutual

/-- Evaluate an expression with `fuel` levels of nesting left. -/
def eval : Nat → RunConfig → Env → Ty → Expr → Eval Value
  | 0, _, _, _, _ => throw .tooDeep
  | n + 1, cfg, env, expected, e => step ⟨eval n cfg, call n cfg⟩ cfg env expected e

/-- Call a function value with `fuel` levels of nesting left. -/
def call : Nat → RunConfig → Value → List Value → Position → Eval Value
  | 0, _, _, _, _ => throw .tooDeep
  | n + 1, cfg, f, args, pos => callStep ⟨eval n cfg, call n cfg⟩ cfg f args pos

end

/-- The engine a run starts with: evaluation and calls with the run's whole depth left. -/
def topEngine (cfg : RunConfig) : Engine := ⟨eval cfg.depth cfg, call cfg.depth cfg⟩

/-- Report a halt at a program's root and give the error value it describes. -/
def reportHalt (root : Expr) (h : Halt) : Eval Value := do
  record .internal h.message (some root.pos)
  pure (.error h.message)

/-- Evaluate a whole program in a scope, reporting a halt as an internal diagnostic. -/
def runProgram (cfg : RunConfig) (env : Env) (e : Expr) : Eval Value :=
  tryCatch ((topEngine cfg).eval env .unknown e) (reportHalt e)

/-- Evaluate a program as a session's line: its `let` chain extends the session's
scope. A halt keeps the scope the session had. -/
def runTopLevel (cfg : RunConfig) (env : Env) (e : Expr) : Eval (Value × Env) :=
  tryCatch (do
      match ← walkBindings (topEngine cfg) env (some e) with
      | (none, env') => pure (.null, env')
      | (some rest, env') => pure (← (topEngine cfg).eval env' .unknown rest, env'))
    fun h => do pure (← reportHalt e h, env)

end Eval

end Retl
