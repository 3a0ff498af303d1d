import Retl.Proofs.SequenceAccess
import Retl.Proofs.EvalSimulation
import Retl.Proofs.FirstMatch
/-!
# Evaluation order

One step of evaluation evaluates the operands of a node from left to right, each once
and each from the machine the one before it left, and it evaluates all of them before it
looks at their values: the node's value is then the first error among them, and what the
operands after it printed or reported stays. The operands of each form, in order:

* an application: the callee, then its arguments;
* an operator: the left operand, then the right one, for `&&` and `||` as for the others;
* a list or tuple literal: its elements;
* a dictionary literal: its keys and values, interleaved;
* a `let` chain: the value of each link, errors included, then what follows the chain.

A step skips operands in these cases only: the arguments of an application whose callee
is an error, a function of another arity, or a value that cannot be applied to them; the
arm of a branch not taken, and both arms when the condition is not a boolean; every case
of a `match` whose subject is an error, the cases after the first that matches or whose
guard is not a boolean, and the bodies of the cases that do not match; and the body of a
loop over an error or over something that has no items. A loop is the one form that
evaluates an operand more than once: its body, once for each item, in order, keeping
nothing of what the body gives.

The rules hold for every engine, so at every depth of evaluation, and each is an exact
run: from the values and machines its operands' runs give, the step's outcome.
-/

namespace Retl

open Retl.Tree (LitNode)

namespace Expr

/-- The nodes that evaluate no operand: literals, references, function literals, schemas,
empty blocks, and the empty list and dictionary literals. -/
def isLeaf : Expr → Bool
  | .lit .. | .ref .. | .lam .. | .schema .. | .empty .. | .list [] _ | .dict [] _ => true
  | _ => false

end Expr

namespace Ty

/-- The types the elements `es` of a tuple literal are evaluated under: the members of an
expected tuple type of the same width, and `unknown` otherwise. -/
def slotsFor (E : Ty) (es : List Expr) : List Ty :=
  match E with
  | .tuple ts => if ts.length == es.length then ts else es.map fun _ => .unknown
  | _ => es.map fun _ => .unknown

/-- The type a dictionary of type `t` evaluates the key it is applied to under. -/
def keyType (t : Ty) : Ty :=
  match t with
  | .dict kt _ => kt
  | _ => .unknown

theorem keyType_of_ne_dict {t : Ty} (h : ∀ kt vt, t ≠ .dict kt vt) : t.keyType = .unknown := by
  unfold keyType
  split
  · exact absurd rfl (h _ _)
  · rfl

end Ty

namespace Value

/-- The values an application indexes when they are applied to one argument: texts,
lists, tables and dictionaries. -/
def indexable : Value → Bool
  | .string _ | .list .. | .table .. | .dict .. => true
  | _ => false

/-- What a loop runs its body over: `0, …, n - 1` for an integer `n`, and otherwise the
value's items. -/
def loopItems? : Value → Option (List Value)
  | .int n => some ((List.range n.toNat).map fun i => .int (Int.ofNat i))
  | v => v.items?

end Value

namespace Machine

/-- The machine a branch evaluates its condition from: entered, and with a type
diagnostic at the branch when the static types of both arms are known and disagree. -/
def enteringBranch (cfg : RunConfig) (c t : Expr) (el : Option Expr) (pos : Position)
    (m : Machine) : Machine :=
  let m₀ := m.entering cfg (.branch c t el pos)
  if !t.static.hasUnknown && !(Expr.staticOpt el).hasUnknown &&
      !t.static.conformsTo (Expr.staticOpt el) then
    let mismatch : Diagnostic := ⟨.type, Ty.mismatchMessage t.static (Expr.staticOpt el), some pos⟩
    { m₀ with diagnostics := m₀.diagnostics.push mismatch }
  else m₀

end Machine

namespace Eval

/-- "Cannot apply value of type `t` to `n` arguments". -/
def applyMessage (c : Value) (n : Nat) : String :=
  "Cannot apply value of type " ++ c.type.render ++ " to " ++ toString n ++ " arguments"

/-- What an operator node does once none of its operands is an error: the operator's
result, recorded as an evaluation diagnostic at the node when it is an error, met to the
expected type. -/
def operate (op : PrimOp) (a : Value) (b : Option Value) (E : Ty) (pos : Position) :
    Eval Value := do
  let v := Operators.apply op a b
  if let .error m := v then record .evaluation m (some pos)
  conformValue v E pos

variable {k : Engine} {cfg : RunConfig} {env : Env} {E : Ty} {pos : Position}
  {m m₁ m₂ m₃ : Machine}

/-- What a branch goes on with once its condition gave `v`: the first arm for `true`, the
second, or `null` when there is none, for `false`, and `v` itself for anything else. -/
def branchArm (k : Engine) (env : Env) (E : Ty) (t : Expr) (el : Option Expr) (pos : Position) :
    Value → Eval Value
  | .bool true => k.eval env E t
  | .bool false => el.elim (conformValue .null E pos) fun e => k.eval env E e
  | bad => pure bad

/-- A node without operands runs alike through every engine. -/
theorem step_leaf (k' : Engine) {e : Expr} (h : e.isLeaf = true) :
    step k cfg env E e = step k' cfg env E e := by
  cases e with
  | lit | ref | lam | schema | empty => rfl
  | list es => cases es with
    | nil => rfl
    | cons => simp [Expr.isLeaf] at h
  | dict ps => cases ps with
    | nil => rfl
    | cons => simp [Expr.isLeaf] at h
  | _ => simp [Expr.isLeaf] at h

theorem exec_step_apply {f : Expr} {args : List Expr} {c : Value}
    (hf : (k.eval env .unknown f).exec (m.entering cfg (.apply f args pos)) = (.ok c, m₁)) :
    (step k cfg env E (.apply f args pos)).exec m =
      if c.isError then (.ok c, m₁) else (applyTo k env E c args pos).exec m₁ := by
  unfold step
  rw [exec_trace_bind]
  dsimp only
  rw [exec_bind, hf]
  dsimp only
  cases c.isError <;> rfl

/-! ### Applications -/

section Application

variable {id : FuncId} {ps : List (String × Ty)} {r : Ty} {b : Option Expr} {cl : List Frame}
  {t : Ty} {args : List Expr} {a : Expr} {v : Value}

theorem exec_applyTo_call {vs : List Value} (hlen : args.length = ps.length)
    (hargs : RunsInOrder ((args.zip ps).map fun p => k.eval env p.2.2 p.1) m vs m₁) :
    (applyTo k env E (.func id ps r b cl t) args pos).exec m =
      poisonOr vs (k.call (.func id ps r b cl t) vs pos >>= fun w => conformValue w E pos) m₁ := by
  rw [applyTo.eq_6, if_neg (by simp [hlen]), exec_bind, RunsInOrder.exec_mapM (fun _ => rfl) hargs]
  dsimp only
  unfold poisonOr
  cases firstError vs <;> rfl

theorem exec_applyTo_arity (hlen : args.length ≠ ps.length) :
    (applyTo k env E (.func id ps r b cl t) args pos).exec m =
      (.ok (.error (arityMessage id.label ps.length args.length)),
        m.report (arityMessage id.label ps.length args.length) pos) := by
  rw [applyTo.eq_6, if_pos (by simpa using hlen)]
  exact exec_fail_report _ pos m

theorem exec_applyTo_other {c : Value} (hfunc : c.kindName ≠ "Func")
    (hidx : c.indexable = false ∨ args.length ≠ 1) :
    (applyTo k env E c args pos).exec m =
      (.ok (.error (applyMessage c args.length)), m.report (applyMessage c args.length) pos) := by
  -- every arm but the last needs a function, or an indexable value and one argument
  have hone : ∀ a, c.indexable = true → args ≠ [a] := by
    rintro a hc rfl
    simp [hc] at hidx
  rw [applyTo.eq_7]
  · exact exec_fail_report _ pos m
  all_goals
    intros
    subst_vars
    first
      | exact hfunc rfl
      | exact hone _ rfl rfl

theorem exec_applyTo_index_other {c : Value} {what : String} {items : List Value}
    (hseq : c.indexItems? = some (what, items)) (ha : (k.eval env .int a).exec m = (.ok v, m₁))
    (hv : ∀ i, v ≠ .int i) :
    (applyTo k env E c [a] pos).exec m = (.ok v, m₁) := by
  cases c
  case string | list | table =>
    simp only [applyTo.eq_1, applyTo.eq_2, applyTo.eq_3]
    rw [exec_bind, ha]
    dsimp only
    cases v <;> first | exact absurd rfl (hv _) | rfl
  all_goals simp [Value.indexItems?] at hseq

theorem exec_applyTo_key {ps : List (Value × Value)}
    (ha : (k.eval env t.keyType a).exec m = (.ok v, m₁)) :
    (applyTo k env E (.dict ps t) [a] pos).exec m =
      if v.isError then (.ok v, m₁)
      else ((ps.find? fun q => q.1.equal v).elim (fail ("Key not found: " ++ v.render) pos)
        fun q => conformValue q.2 E pos).exec m₁ := by
  -- `applyTo` reads the key type in two arms: a dictionary type, and any other type
  by_cases ht : ∃ kt vt, t = .dict kt vt
  case' pos =>
    obtain ⟨kt, vt, rfl⟩ := ht
    have ha' : (k.eval env kt a).exec m = (.ok v, m₁) := ha
    rw [applyTo.eq_4, exec_bind, ha']
  case' neg =>
    rw [Ty.keyType_of_ne_dict fun kt vt h => ht ⟨kt, vt, h⟩] at ha
    rw [applyTo.eq_5 _ _ _ _ _ _ _ fun kt vt h => ht ⟨kt, vt, h⟩, exec_bind, ha]
  all_goals
    dsimp only
    split
    · rfl
    · -- `applyTo` takes each pair apart by a pattern, `find?` here by projections
      split
      next q w hq =>
        have hq' : ps.find? (fun q => q.1.equal v) = some (q, w) := hq
        rw [hq']
        rfl
      next hq =>
        have hq' : ps.find? (fun q => q.1.equal v) = none := hq
        rw [hq']
        rfl

end Application

/-! ### Operators and literals -/

section Operands

variable {op : PrimOp} {l r : Expr} {a b : Value}

theorem exec_step_binary
    (hl : (k.eval env .unknown l).exec (m.entering cfg (.prim op l (some r) pos)) = (.ok a, m₁))
    (hr : (k.eval env .unknown r).exec m₁ = (.ok b, m₂)) :
    (step k cfg env E (.prim op l (some r) pos)).exec m =
      poisonOr [a, b] (operate op a (some b) E pos) m₂ := by
  unfold step
  rw [exec_trace_bind]
  dsimp only
  rw [exec_bind, hl]
  dsimp only
  rw [exec_bind, map_eq_pure_bind, exec_bind, hr]
  dsimp only
  rw [exec_pure]
  dsimp only
  rw [Option.toList_some]
  unfold poisonOr
  cases firstError [a, b] <;> rfl

theorem exec_step_unary
    (hl : (k.eval env .unknown l).exec (m.entering cfg (.prim op l none pos)) = (.ok a, m₁)) :
    (step k cfg env E (.prim op l none pos)).exec m = poisonOr [a] (operate op a none E pos) m₁ := by
  unfold step
  rw [exec_trace_bind]
  dsimp only
  rw [exec_bind, hl]
  dsimp only
  rw [exec_bind, exec_pure]
  dsimp only
  rw [Option.toList_none]
  unfold poisonOr
  cases firstError [a] <;> rfl

theorem exec_step_list {e : Expr} {rest : List Expr} {first : Value} {vs : List Value}
    (he : (k.eval env E.elementType e).exec (m.entering cfg (.list (e :: rest) pos)) =
      (.ok first, m₁))
    (hrest : RunsInOrder (rest.map (k.eval env (E.elementType.fixedBy first))) m₁ vs m₂) :
    (step k cfg env E (.list (e :: rest) pos)).exec m =
      poisonOr (first :: vs)
        (conformValue (Value.listOf (first :: vs) (E.elementType.fixedBy first)) E pos) m₂ := by
  unfold step
  rw [exec_trace_bind]
  dsimp only
  rw [exec_bind]
  erw [he]
  dsimp only
  rw [exec_bind, RunsInOrder.exec_mapM ?_ hrest]
  · dsimp only
    unfold poisonOr
    cases firstError (first :: vs) <;> rfl
  · exact fun _ => rfl

theorem exec_step_tuple {es : List Expr} {vs : List Value}
    (hes : RunsInOrder ((es.zip (E.slotsFor es)).map fun p => k.eval env p.2 p.1)
      (m.entering cfg (.tuple es pos)) vs m₁) :
    (step k cfg env E (.tuple es pos)).exec m =
      poisonOr vs (conformValue (Value.tupleOf vs) E pos) m₁ := by
  unfold step
  rw [exec_trace_bind]
  dsimp only
  rw [exec_bind]
  erw [RunsInOrder.exec_mapM ?_ hes]
  · dsimp only
    unfold poisonOr
    cases firstError vs <;> rfl
  · exact fun _ => rfl

theorem exec_step_dict {kn : LitNode} {ve : Expr} {rest : List (LitNode × Expr)} {key val : Value}
    {qs : List (Value × Value)}
    (hkey : (k.eval env E.dictParts.1 (.lit kn.literal kn.pos)).exec
      (m.entering cfg (.dict ((kn, ve) :: rest) pos)) = (.ok key, m₁))
    (hval : (k.eval env E.dictParts.2 ve).exec m₁ = (.ok val, m₂))
    (hrest : RunsInOrder (rest.flatMap fun p =>
        [k.eval env (E.dictParts.1.fixedBy key) (.lit p.1.literal p.1.pos),
          k.eval env (E.dictParts.2.fixedBy val) p.2]) m₂ (qs.flatMap fun q => [q.1, q.2]) m₃) :
    (step k cfg env E (.dict ((kn, ve) :: rest) pos)).exec m =
      poisonOr (key :: val :: qs.flatMap fun q => [q.1, q.2])
        (conformValue (.dict ((key, val) :: qs)
          (.dict (E.dictParts.1.fixedBy key) (E.dictParts.2.fixedBy val))) E pos) m₃ := by
  unfold step
  rw [exec_trace_bind]
  dsimp only
  rw [exec_bind, dictPairs, exec_bind]
  erw [hkey]
  dsimp only
  rw [exec_bind]
  erw [hval]
  dsimp only
  rw [exec_bind, RunsInOrder.exec_mapM (fun _ => rfl) (RunsInOrder.pairs ?_ hrest)]
  · dsimp only
    rw [exec_pure]
    dsimp only
    rw [List.flatMap_cons, List.cons_append, List.cons_append, List.nil_append]
    unfold poisonOr
    cases firstError (key :: val :: qs.flatMap fun q => [q.1, q.2]) <;> rfl
  · rintro ⟨kn', ve'⟩ m'
    rfl

end Operands

/-! ### Chains, branches, matches, loops and field access -/

section Control

theorem exec_walkBindings_bind {name : String} {t : Ty} {value : Expr} {next : Option Expr}
    {p : Position} {v : Value} (hv : (k.eval env t value).exec m = (.ok v, m₁)) :
    (walkBindings k env (some (.bind name t value next p))).exec m =
      (walkBindings k (env.bind name v) next).exec m₁ := by
  rw [walkBindings.eq_1, exec_bind, hv]

/-- The walk over a chain's links stops at what follows them and evaluates nothing of it. -/
theorem walkBindings_of_not_link {rest : Option Expr} (h : ∀ e ∈ rest, e.isLink = false) :
    walkBindings k env rest = pure (rest, env) := by
  cases rest with
  | none => exact walkBindings_none k env
  | some e => rw [walkBindings_some, walkLinks_of_isLink (h e rfl)]

theorem exec_step_link {e : Expr} {rest : Option Expr} {env' : Env} (he : e.isLink = true)
    (hw : (walkBindings k env (some e)).exec (m.entering cfg e) = (.ok (rest, env'), m₁)) :
    (step k cfg env E e).exec m =
      rest.elim ((conformValue .null E e.pos).exec m₁) fun r => (k.eval env' E r).exec m₁ := by
  cases e
  case bind | aliasType =>
    unfold step
    rw [exec_trace_bind]
    dsimp only
    rw [exec_bind, hw]
    cases rest <;> rfl
  all_goals simp [Expr.isLink] at he

/-- The static mismatch a branch reports leaves its condition to run from
`Machine.enteringBranch`. -/
theorem exec_step_branch {c t : Expr} {el : Option Expr} {v : Value}
    (hc : (k.eval env .bool c).exec (m.enteringBranch cfg c t el pos) = (.ok v, m₁)) :
    (step k cfg env E (.branch c t el pos)).exec m = (branchArm k env E t el pos v).exec m₁ := by
  unfold step
  rw [exec_trace_bind]
  dsimp only
  unfold Machine.enteringBranch at hc
  split
  case' isTrue hmis =>
    rw [if_pos hmis] at hc
    rw [exec_bind, record, exec_modify]
    dsimp only
    rw [exec_bind, hc]
  case' isFalse hmis =>
    rw [if_neg hmis] at hc
    rw [exec_bind, hc]
  -- both arms read the condition's value the way `branchArm` does
  all_goals
    dsimp only
    cases v with
    | bool b => cases b <;> cases el <;> rfl
    | _ => rfl

theorem exec_step_matchOn {s : Expr} {cases : List (Case × Expr)} {v : Value}
    (hs : (k.eval env .unknown s).exec (m.entering cfg (.matchOn s cases pos)) = (.ok v, m₁)) :
    (step k cfg env E (.matchOn s cases pos)).exec m =
      if v.isError then (.ok v, m₁) else (matchCases k env E v pos cases).exec m₁ := by
  unfold step
  rw [exec_trace_bind]
  dsimp only
  rw [exec_bind, hs]
  dsimp only
  cases v.isError <;> rfl

/-- A loop evaluates what it runs over once; an error there is the outcome, something
without items is reported, and otherwise the body runs for each item, in order, and the
loop gives `null`. -/
theorem exec_step_iter {x : String} {it body : Expr} {v : Value}
    (hit : (k.eval env .unknown it).exec (m.entering cfg (.iter x it body pos)) = (.ok v, m₁)) :
    (step k cfg env E (.iter x it body pos)).exec m =
      if v.isError then (.ok v, m₁)
      else v.loopItems?.elim ((fail ("Cannot iterate over " ++ v.type.render) pos).exec m₁)
        fun xs => ((xs.forM fun y => discard (k.eval (env.bind x y) .unknown body)) >>=
          fun _ => conformValue .null E pos).exec m₁ := by
  unfold step
  rw [exec_trace_bind]
  dsimp only
  rw [exec_bind, hit]
  dsimp only
  -- the items are read off the value's form, as `loopItems?` reads them
  cases v <;> rfl

theorem exec_step_iter_items {x : String} {it body : Expr} {v : Value} {xs ws : List Value}
    (hit : (k.eval env .unknown it).exec (m.entering cfg (.iter x it body pos)) = (.ok v, m₁))
    (hv : v.isError = false) (hxs : v.loopItems? = some xs)
    (hbody : RunsInOrder (xs.map fun y => k.eval (env.bind x y) .unknown body) m₁ ws m₂) :
    (step k cfg env E (.iter x it body pos)).exec m = (conformValue .null E pos).exec m₂ := by
  rw [exec_step_iter hit, hv, hxs]
  -- past the `if` and the items, the loop is the body's runs followed by `null`
  show Eval.exec ((xs.forM _) >>= _) m₁ = _
  rw [exec_bind, RunsInOrder.exec_forM hbody]

theorem exec_step_access_error {target : Expr} {j : Nat} {msg : String}
    (ht : (k.eval env .unknown target).exec (m.entering cfg (.access target j pos)) =
      (.ok (.error msg), m₁)) :
    (step k cfg env E (.access target j pos)).exec m = (.ok (.error msg), m₁) := by
  unfold step
  rw [exec_trace_bind]
  dsimp only
  rw [exec_bind, ht]
  rfl

theorem exec_step_access_other {target : Expr} {j : Nat} {v : Value}
    (ht : (k.eval env .unknown target).exec (m.entering cfg (.access target j pos)) = (.ok v, m₁))
    (htuple : ∀ vs t, v ≠ .tuple vs t) (hv : v.isError = false) :
    (step k cfg env E (.access target j pos)).exec m =
      (.ok (.error ("Cannot access field ." ++ toString j ++ " of " ++ v.type.render)),
        m₁.report ("Cannot access field ." ++ toString j ++ " of " ++ v.type.render) pos) := by
  unfold step
  rw [exec_trace_bind]
  dsimp only
  rw [exec_bind, ht]
  dsimp only
  cases v
  case tuple vs t => exact absurd rfl (htuple vs t)
  case error => simp [Value.isError] at hv
  all_goals exact exec_fail_report _ pos m₁

end Control

/-- The order in which one step of evaluation through the engine `k` evaluates the
operands of each form, and which of them it skips. Each rule is an exact run: from how the
evaluations of the operands it names run, each from the machine the one before it left,
the outcome of the step. An operand a rule does not name is not evaluated. -/
structure EvaluationOrder (k : Engine) (cfg : RunConfig) : Prop where
  /-- A node without operands evaluates nothing: it runs alike through every engine. -/
  leaf : ∀ (k' : Engine) env E e, e.isLeaf = true → step k cfg env E e = step k' cfg env E e
  /-- The callee first: an error callee is the outcome. -/
  callee : ∀ env E f args pos m c m₁,
    (k.eval env .unknown f).exec (m.entering cfg (.apply f args pos)) = (.ok c, m₁) →
    (step k cfg env E (.apply f args pos)).exec m =
      if c.isError then (.ok c, m₁) else (applyTo k env E c args pos).exec m₁
  /-- A function of the arguments' arity: the arguments in order, then the call unless
  one of them is an error. -/
  arguments : ∀ env E id ps r b cl t args pos m vs m₁, args.length = ps.length →
    RunsInOrder ((args.zip ps).map fun p => k.eval env p.2.2 p.1) m vs m₁ →
    (applyTo k env E (.func id ps r b cl t) args pos).exec m =
      poisonOr vs (k.call (.func id ps r b cl t) vs pos >>= fun w => conformValue w E pos) m₁
  /-- A function of another arity: no argument. -/
  arity : ∀ env E id ps r b cl t args pos m, args.length ≠ ps.length →
    (applyTo k env E (.func id ps r b cl t) args pos).exec m =
      (.ok (.error (arityMessage id.label ps.length args.length)),
        m.report (arityMessage id.label ps.length args.length) pos)
  /-- Neither a function nor an indexable value applied to one argument: no argument. -/
  not_applicable : ∀ env E (c : Value) args pos m, c.kindName ≠ "Func" →
    (c.indexable = false ∨ args.length ≠ 1) →
    (applyTo k env E c args pos).exec m =
      (.ok (.error (applyMessage c args.length)), m.report (applyMessage c args.length) pos)
  /-- A text, list or table indexed by a position that is an integer. -/
  position : ∀ env E (c : Value) what items a pos (i : Int) m m₁,
    c.indexItems? = some (what, items) → (k.eval env .int a).exec m = (.ok (.int i), m₁) →
    (applyTo k env E c [a] pos).exec m =
      if h : 0 ≤ i ∧ i < items.length then
        (conformValue (items.get ⟨i.toNat, toNat_lt_length h⟩) E pos).exec m₁
      else (.ok (.error (indexMessage what i items.length)),
        m₁.report (indexMessage what i items.length) pos)
  /-- A position that is no integer, an error included, is the outcome. -/
  position_other : ∀ env E (c : Value) what items a pos m (v : Value) m₁,
    c.indexItems? = some (what, items) → (k.eval env .int a).exec m = (.ok v, m₁) →
    (∀ i, v ≠ .int i) → (applyTo k env E c [a] pos).exec m = (.ok v, m₁)
  /-- A dictionary indexed: the key once; an error key is the outcome. -/
  key : ∀ env E ps t a pos m (v : Value) m₁, (k.eval env t.keyType a).exec m = (.ok v, m₁) →
    (applyTo k env E (.dict ps t) [a] pos).exec m =
      if v.isError then (.ok v, m₁)
      else ((ps.find? fun q => q.1.equal v).elim (fail ("Key not found: " ++ v.render) pos)
        fun q => conformValue q.2 E pos).exec m₁
  /-- Both operands of a binary operator, left then right, whatever the operator. -/
  binary : ∀ env E op l r pos m a m₁ b m₂,
    (k.eval env .unknown l).exec (m.entering cfg (.prim op l (some r) pos)) = (.ok a, m₁) →
    (k.eval env .unknown r).exec m₁ = (.ok b, m₂) →
    (step k cfg env E (.prim op l (some r) pos)).exec m =
      poisonOr [a, b] (operate op a (some b) E pos) m₂
  unary : ∀ env E op l pos m a m₁,
    (k.eval env .unknown l).exec (m.entering cfg (.prim op l none pos)) = (.ok a, m₁) →
    (step k cfg env E (.prim op l none pos)).exec m = poisonOr [a] (operate op a none E pos) m₁
  /-- The elements of a list literal, in order. -/
  list : ∀ env E e rest pos m first m₁ vs m₂,
    (k.eval env E.elementType e).exec (m.entering cfg (.list (e :: rest) pos)) =
      (.ok first, m₁) →
    RunsInOrder (rest.map (k.eval env (E.elementType.fixedBy first))) m₁ vs m₂ →
    (step k cfg env E (.list (e :: rest) pos)).exec m =
      poisonOr (first :: vs)
        (conformValue (Value.listOf (first :: vs) (E.elementType.fixedBy first)) E pos) m₂
  /-- The elements of a tuple literal, in order. -/
  tuple : ∀ env E es pos m vs m₁,
    RunsInOrder ((es.zip (E.slotsFor es)).map fun p => k.eval env p.2 p.1)
      (m.entering cfg (.tuple es pos)) vs m₁ →
    (step k cfg env E (.tuple es pos)).exec m =
      poisonOr vs (conformValue (Value.tupleOf vs) E pos) m₁
  /-- The keys and values of a dictionary literal, interleaved. -/
  dict : ∀ env E (kn : LitNode) ve rest pos m key m₁ val m₂ qs m₃,
    (k.eval env E.dictParts.1 (.lit kn.literal kn.pos)).exec
      (m.entering cfg (.dict ((kn, ve) :: rest) pos)) = (.ok key, m₁) →
    (k.eval env E.dictParts.2 ve).exec m₁ = (.ok val, m₂) →
    RunsInOrder (rest.flatMap fun p =>
        [k.eval env (E.dictParts.1.fixedBy key) (.lit p.1.literal p.1.pos),
          k.eval env (E.dictParts.2.fixedBy val) p.2]) m₂ (qs.flatMap fun q => [q.1, q.2]) m₃ →
    (step k cfg env E (.dict ((kn, ve) :: rest) pos)).exec m =
      poisonOr (key :: val :: qs.flatMap fun q => [q.1, q.2])
        (conformValue (.dict ((key, val) :: qs)
          (.dict (E.dictParts.1.fixedBy key) (E.dictParts.2.fixedBy val))) E pos) m₃
  /-- A binding link: its value once, bound whatever it is, then the rest of the chain. -/
  link : ∀ env name t value next p m v m₁, (k.eval env t value).exec m = (.ok v, m₁) →
    (walkBindings k env (some (.bind name t value next p))).exec m =
      (walkBindings k (env.bind name v) next).exec m₁
  /-- An alias link evaluates nothing. -/
  alias_link : ∀ env name t next p, walkBindings k env (some (.aliasType name t next p)) =
    walkBindings k env next
  /-- What follows the links is left to the chain's node. -/
  chain_end : ∀ env (rest : Option Expr), (∀ e ∈ rest, e.isLink = false) →
    walkBindings k env rest = pure (rest, env)
  /-- The links of a chain, then what follows it. -/
  chain : ∀ env E e m rest env' m₁, e.isLink = true →
    (walkBindings k env (some e)).exec (m.entering cfg e) = (.ok (rest, env'), m₁) →
    (step k cfg env E e).exec m =
      rest.elim ((conformValue .null E e.pos).exec m₁) fun r => (k.eval env' E r).exec m₁
  /-- The condition, then the first arm only. -/
  branch_true : ∀ env E c t el pos m m₁,
    (k.eval env .bool c).exec (m.enteringBranch cfg c t el pos) = (.ok (.bool true), m₁) →
    (step k cfg env E (.branch c t el pos)).exec m = (k.eval env E t).exec m₁
  /-- The condition, then the second arm only. -/
  branch_false : ∀ env E c t el pos m m₁,
    (k.eval env .bool c).exec (m.enteringBranch cfg c t el pos) = (.ok (.bool false), m₁) →
    (step k cfg env E (.branch c t el pos)).exec m =
      el.elim ((conformValue .null E pos).exec m₁) fun e => (k.eval env E e).exec m₁
  /-- A condition that is no boolean is the outcome: no arm. -/
  branch_other : ∀ env E c t el pos m v m₁,
    (k.eval env .bool c).exec (m.enteringBranch cfg c t el pos) = (.ok v, m₁) →
    (∀ b, v ≠ .bool b) → (step k cfg env E (.branch c t el pos)).exec m = (.ok v, m₁)
  /-- The subject of a `match` first: an error subject is the outcome. -/
  subject : ∀ env E s cases pos m v m₁,
    (k.eval env .unknown s).exec (m.entering cfg (.matchOn s cases pos)) = (.ok v, m₁) →
    (step k cfg env E (.matchOn s cases pos)).exec m =
      if v.isError then (.ok v, m₁) else (matchCases k env E v pos cases).exec m₁
  /-- The cases, by the first-match rules: guards and bodies only up to the case that
  decides. -/
  match_cases : ∀ env E v pos cases m r, MatchRun k env E v pos cases m r →
    (matchCases k env E v pos cases).exec m = r
  /-- What a loop runs over first: an error there is the outcome. -/
  loop_error : ∀ env E x it body pos m v m₁,
    (k.eval env .unknown it).exec (m.entering cfg (.iter x it body pos)) = (.ok v, m₁) →
    v.isError = true → (step k cfg env E (.iter x it body pos)).exec m = (.ok v, m₁)
  /-- The body once for each item, in order, keeping nothing of what it gives. -/
  loop : ∀ env E x it body pos m v m₁ xs ws m₂,
    (k.eval env .unknown it).exec (m.entering cfg (.iter x it body pos)) = (.ok v, m₁) →
    v.isError = false → v.loopItems? = some xs →
    RunsInOrder (xs.map fun y => k.eval (env.bind x y) .unknown body) m₁ ws m₂ →
    (step k cfg env E (.iter x it body pos)).exec m = (conformValue .null E pos).exec m₂
  /-- Something without items: no body. -/
  loop_without_items : ∀ env E x it body pos m v m₁,
    (k.eval env .unknown it).exec (m.entering cfg (.iter x it body pos)) = (.ok v, m₁) →
    v.isError = false → v.loopItems? = none →
    (step k cfg env E (.iter x it body pos)).exec m =
      (.ok (.error ("Cannot iterate over " ++ v.type.render)),
        m₁.report ("Cannot iterate over " ++ v.type.render) pos)
  /-- The target of a field access once: an error target is the outcome. -/
  target_error : ∀ env E target j pos m msg m₁,
    (k.eval env .unknown target).exec (m.entering cfg (.access target j pos)) =
      (.ok (.error msg), m₁) →
    (step k cfg env E (.access target j pos)).exec m = (.ok (.error msg), m₁)
  field : ∀ env E target (j : Nat) pos m vs t m₁,
    (k.eval env .unknown target).exec (m.entering cfg (.access target j pos)) =
      (.ok (.tuple vs t), m₁) →
    (step k cfg env E (.access target j pos)).exec m =
      if h : j < vs.length then (conformValue (vs.get ⟨j, h⟩) E pos).exec m₁
      else (.ok (.error (indexMessage "Tuple" j vs.length)),
        m₁.report (indexMessage "Tuple" j vs.length) pos)
  target_other : ∀ env E target (j : Nat) pos m v m₁,
    (k.eval env .unknown target).exec (m.entering cfg (.access target j pos)) = (.ok v, m₁) →
    (∀ vs t, v ≠ .tuple vs t) → v.isError = false →
    (step k cfg env E (.access target j pos)).exec m =
      (.ok (.error ("Cannot access field ." ++ toString j ++ " of " ++ v.type.render)),
        m₁.report ("Cannot access field ." ++ toString j ++ " of " ++ v.type.render) pos)

/-- Every engine evaluates operands in source order, each once and each from the machine
the one before it left, all of them before the first error among them decides the
outcome; operands are skipped only where `EvaluationOrder` says, and a loop's body is the
one operand evaluated more than once, once for each item. -/
theorem operands_run_left_to_right (k : Engine) (cfg : RunConfig) : EvaluationOrder k cfg where
  leaf k' _ _ _ h := step_leaf k' h
  callee _ _ _ _ _ _ _ _ hf := exec_step_apply hf
  arguments _ _ _ _ _ _ _ _ _ _ _ _ _ hlen hargs := exec_applyTo_call hlen hargs
  arity _ _ _ _ _ _ _ _ _ _ _ hlen := exec_applyTo_arity hlen
  not_applicable _ _ _ _ _ _ hfunc hidx := exec_applyTo_other hfunc hidx
  position _ _ _ _ _ _ _ _ _ _ hseq hi := exec_applyTo_index hseq hi
  position_other _ _ _ _ _ _ _ _ _ _ hseq ha hv := exec_applyTo_index_other hseq ha hv
  key _ _ _ _ _ _ _ _ _ ha := exec_applyTo_key ha
  binary _ _ _ _ _ _ _ _ _ _ _ hl hr := exec_step_binary hl hr
  unary _ _ _ _ _ _ _ _ hl := exec_step_unary hl
  list _ _ _ _ _ _ _ _ _ _ he hrest := exec_step_list he hrest
  tuple _ _ _ _ _ _ _ hes := exec_step_tuple hes
  dict _ _ _ _ _ _ _ _ _ _ _ _ _ hkey hval hrest := exec_step_dict hkey hval hrest
  link _ _ _ _ _ _ _ _ _ hv := exec_walkBindings_bind hv
  alias_link _ _ _ _ _ := walkBindings.eq_2 _ _ _ _ _ _
  chain_end _ _ h := walkBindings_of_not_link h
  chain _ _ _ _ _ _ _ he hw := exec_step_link he hw
  branch_true _ _ _ _ _ _ _ _ hc := exec_step_branch hc
  branch_false _ _ _ _ _ _ _ _ hc := by
    rw [exec_step_branch hc]
    cases ‹Option Expr› <;> rfl
  branch_other _ _ _ _ _ _ _ v _ hc hv := by
    rw [exec_step_branch hc]
    cases v with
    | bool b => exact absurd rfl (hv b)
    | _ => rfl
  subject _ _ _ _ _ _ _ _ hs := exec_step_matchOn hs
  match_cases _ _ _ _ _ _ _ hr := MatchRun.exec_eq hr
  loop_error _ _ _ _ _ _ _ _ _ hit hv := by
    rw [exec_step_iter hit, if_pos hv]
  loop _ _ _ _ _ _ _ _ _ _ _ _ hit hv hxs hbody := exec_step_iter_items hit hv hxs hbody
  loop_without_items _ _ _ _ _ _ _ _ _ hit hv hxs := by
    rw [exec_step_iter hit, hv, hxs]
    exact exec_fail_report _ _ _
  target_error _ _ _ _ _ _ _ _ ht := exec_step_access_error ht
  field _ _ _ _ _ _ _ _ _ ht := exec_step_access cfg ht
  target_other _ _ _ _ _ _ _ _ ht htuple hv := exec_step_access_other ht htuple hv

end Eval

/-- Two programs where an operand is not evaluated exactly once: a loop's body runs once
for each item, so `println(x)` prints twice over `[1, 2]`; and a `match` whose subject is
an error tries no case, so `println(1)` never runs and the subject's error is the value. -/
theorem loop_body_repeats_and_error_subject_skips_cases :
    (runSource ⟨1000, 1000, 1000⟩ "<input>" "foreach x in [1, 2] { println(x) }" false
      (Machine.start [] FileStore.empty)).2.output = "1\n2\n" ∧
    let r := runSource ⟨1000, 1000, 1000⟩ "<input>" "match 1 / 0 { case _ => println(1) }" false
      (Machine.start [] FileStore.empty)
    r.2.output = "" ∧ r.1.map Value.isError = some true := by
  constructor
  · decide +kernel
  · decide +kernel

end Retl
