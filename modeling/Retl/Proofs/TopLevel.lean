import Retl.Proofs.Depth
import Retl.Proofs.EvaluationOrder
/-!
# A session's line runs as the program it is

A program is evaluated in two ways. As a whole program, its evaluation dispatches on its
form; a statement chain walks its links and evaluates what follows them, or gives `null`
met to the expected type when nothing does. As a session's line (`runTopLevel`), the walk
over the chain is done first and directly, and the line gives the value of what follows
the links, or a bare `null`, together with the scope the chain built, which the session
keeps for its next lines.

The two agree. `ChainWalk` gives the walk over a chain's links as rules: a binding's value
is evaluated under its declared type in the scope so far and bound in a new innermost
scope; an alias adds nothing; the walk stops at the first node that is not a link. A line
whose program finishes, with the trace off, gives the program's value on the program's
machine, and the scope that the walk over its chain built (`runTopLevel_of_eval`). The
line's walk evaluates at the depth of the session itself, one level more than the
program's walk inside its own evaluation, so the agreement rests on more depth keeping a
finished answer (`Depth`).

The walk is also the recursive reading of the chain (`readChain`): a binding evaluates its
value and reads the rest in the scope it extends, and an alias reads the rest. Where the
chain ends in a link, `null` is met to the expected type at the chain's *first* link, the
position of the statement that was evaluated, and not at the last link, which reading the
rest as a program of its own would use (`chain_end_reported_at_first_link`).
-/

namespace Retl

namespace Eval

/-- A walk over a statement chain's links that finishes: from a scope and a machine, to what
follows the links, the scope they built and the machine left. -/
inductive ChainWalk (k : Engine) : Env → Option Expr → Machine → Option Expr → Env → Machine → Prop
  /-- A binding's value, evaluated under its declared type, is bound in a new innermost
  scope for the rest of the chain. -/
  | bind {env name t value next pos m v m₁ rest env' m₂}
      (hv : (k.eval env t value).exec m = (.ok v, m₁))
      (hr : ChainWalk k (env.bind name v) next m₁ rest env' m₂) :
      ChainWalk k env (some (.bind name t value next pos)) m rest env' m₂
  /-- An alias adds nothing to the scope. -/
  | typeAlias {env name t next pos m rest env' m'} (hr : ChainWalk k env next m rest env' m') :
      ChainWalk k env (some (.aliasType name t next pos)) m rest env' m'
  /-- The walk stops at the chain's end, or at the first node that is not a link. -/
  | stop {env rest m} (h : ∀ e ∈ rest, e.isLink = false) : ChainWalk k env rest m rest env m

/-- A statement chain read as a recursion over its links. `pos` is where `null` is met to the
expected type when the chain ends in a link. -/
def readChain (k : Engine) (E : Ty) (pos : Position) : Env → Option Expr → Eval Value
  | env, some (.bind name t value next _) => do
    let v ← k.eval env t value
    readChain k E pos (env.bind name v) next
  | env, some (.aliasType _ _ next _) => readChain k E pos env next
  | env, some e => k.eval env E e
  | _, none => conformValue .null E pos

/-- What a chain's evaluation does once its links are walked: evaluate what follows them in
the scope they built, or meet `null` to the expected type at `pos`. -/
def finishChain (k : Engine) (E : Ty) (pos : Position) : Option Expr × Env → Eval Value
  | (some rest, env') => k.eval env' E rest
  | (none, _) => conformValue .null E pos

section Engine

variable {k : Engine}

/-- Every rule derives what the walk does. -/
theorem ChainWalk.exec_eq {env env' : Env} {o rest : Option Expr} {m m' : Machine}
    (h : ChainWalk k env o m rest env' m') :
    (walkBindings k env o).exec m = (.ok (rest, env'), m') := by
  induction h with
  | bind hv _ ih => rw [exec_walkBindings_bind hv]; exact ih
  | typeAlias _ ih => rw [walkBindings.eq_2]; exact ih
  | stop h => rw [walkBindings_of_not_link h]; rfl

/-- What the walk does when it finishes, the rules derive. -/
theorem ChainWalk.of_exec {env env' : Env} {o rest : Option Expr} {m m' : Machine}
    (h : (walkBindings k env o).exec m = (.ok (rest, env'), m')) :
    ChainWalk k env o m rest env' m' := by
  induction env, o using walkBindings.induct generalizing m with
  | case1 env name t value next pos ih =>
    rw [walkBindings.eq_1, exec_bind] at h
    rcases hv : (k.eval env t value).exec m with ⟨_ | v, m₁⟩ <;> rw [hv] at h
    · cases h
    · exact .bind hv (ih v h)
  | case2 env name t next pos ih =>
    rw [walkBindings.eq_2] at h
    exact .typeAlias (ih h)
  | case3 env o hbind halias =>
    rw [walkBindings.eq_3 k env o hbind halias, exec_pure] at h
    simp only [Prod.mk.injEq, Except.ok.injEq] at h
    obtain ⟨⟨rfl, rfl⟩, rfl⟩ := h
    -- a node the walk stops at is neither a binding nor an alias
    refine .stop fun e he => ?_
    cases he
    cases e
    case bind => exact (hbind _ _ _ _ _ rfl).elim
    case aliasType => exact (halias _ _ _ _ rfl).elim
    all_goals rfl

/-- A line that is not a chain builds no scope: the walk stops at once. -/
theorem ChainWalk.of_not_link {env env' : Env} {e : Expr} {rest : Option Expr} {m m' : Machine}
    (he : e.isLink = false) (h : ChainWalk k env (some e) m rest env' m') :
    rest = some e ∧ env' = env ∧ m' = m := by
  cases h with
  | bind => simp [Expr.isLink] at he
  | typeAlias => simp [Expr.isLink] at he
  | stop => exact ⟨rfl, rfl, rfl⟩

/-- Walking a chain's links and then finishing is the recursive reading of the chain. -/
theorem walkBindings_bind_finish (E : Ty) (pos : Position) (env : Env) (o : Option Expr) :
    walkBindings k env o >>= finishChain k E pos = readChain k E pos env o := by
  induction env, o using walkBindings.induct with
  | case1 env name t value next p ih =>
    rw [walkBindings.eq_1, bind_assoc, readChain]
    exact congrArg _ (funext ih)
  | case2 env name t next p ih =>
    rw [walkBindings.eq_2, ih, readChain]
  | case3 env o hbind halias =>
    rw [walkBindings.eq_3 k env o hbind halias, pure_bind]
    cases o with
    | none => rw [readChain]; rfl
    | some e =>
      rw [readChain.eq_3 k E pos env e (fun _ _ _ _ _ h => hbind _ _ _ _ _ (congrArg some h))
        (fun _ _ _ _ h => halias _ _ _ _ (congrArg some h))]
      rfl

/-- With the trace off, a statement chain's evaluation step walks its links and finishes,
meeting `null` at the chain's first link. -/
theorem step_eq_walk {cfg : RunConfig} (htrace : cfg.trace = false) (env : Env) (E : Ty)
    {e : Expr} (he : e.isLink = true) :
    step k cfg env E e = walkBindings k env (some e) >>= finishChain k E e.pos := by
  cases e
  case bind | aliasType =>
    unfold step
    simp only [trace, htrace, Bool.false_eq_true, if_false, pure_bind]
    rfl
  all_goals simp [Expr.isLink] at he

/-- With the trace off, a statement chain's evaluation step is the recursive reading of the
chain, with `null` met at the chain's first link. -/
theorem step_eq_readChain {cfg : RunConfig} (htrace : cfg.trace = false) (env : Env) (E : Ty)
    {e : Expr} (he : e.isLink = true) : step k cfg env E e = readChain k E e.pos env (some e) := by
  rw [step_eq_walk htrace env E he, walkBindings_bind_finish]

end Engine

/-- `null` met to no expected type stays `null`, and nothing is reported. -/
theorem conformValue_null_unknown (pos : Position) :
    conformValue .null .unknown pos = pure .null := by
  have hnull : Ty.null.conform? .unknown = some .null := by simp [Ty.conform?, Ty.unify]
  simp [conformValue, Value.isError, hnull]

/-- Finishing a chain through a deepening engine deepens. -/
theorem finishChain_deepens {k k' : Engine} (hk : EngineDeepens k k') (E : Ty) (pos : Position)
    (r : Option Expr × Env) : Deepens (finishChain k E pos r) (finishChain k' E pos r) := by
  rcases r with ⟨_ | rest, env'⟩
  · exact Deepens.refl _
  · exact hk.eval env' E rest

/-- A line whose walk ends, and whose finish gives `v`, gives `v` with the scope the walk
built. -/
theorem runTopLevel_of_walk {cfg : RunConfig} {env env' : Env} {e : Expr} {rest : Option Expr}
    {m m₁ m' : Machine} {v : Value}
    (hwalk : (walkBindings (topEngine cfg) env (some e)).exec m = (.ok (rest, env'), m₁))
    (hfinish : (finishChain (topEngine cfg) .unknown e.pos (rest, env')).exec m₁ = (.ok v, m')) :
    (runTopLevel cfg env e).exec m = (.ok (v, env'), m') := by
  rw [runTopLevel, exec_tryCatch, exec_bind, hwalk]
  cases rest with
  | none =>
    -- the line gives a bare `null`, which is what meeting `null` to no type gives
    rw [finishChain, conformValue_null_unknown, exec_pure] at hfinish
    simp only [Prod.mk.injEq, Except.ok.injEq] at hfinish
    obtain ⟨rfl, rfl⟩ := hfinish
    rfl
  | some rest =>
    rw [finishChain] at hfinish
    dsimp only
    rw [exec_bind, hfinish]
    rfl

/-- A line whose program finishes, with the trace off, gives the program's value on the
program's machine, with the scope the walk over its chain built. -/
theorem runTopLevel_of_eval {cfg : RunConfig} {env : Env} {e : Expr} {m m' : Machine} {v : Value}
    (htrace : cfg.trace = false)
    (hrun : ((topEngine cfg).eval env .unknown e).exec m = (.ok v, m')) :
    ∃ rest env' m₁, ChainWalk (topEngine cfg) env (some e) m rest env' m₁ ∧
      (runTopLevel cfg env e).exec m = (.ok (v, env'), m') := by
  by_cases hlink : e.isLink = true
  case neg =>
    -- a line that is not a chain is evaluated as it is, in the session's scope
    have hstop : ∀ x ∈ some e, x.isLink = false := by
      intro x hx
      cases hx
      simpa using hlink
    have hwalk : (walkBindings (topEngine cfg) env (some e)).exec m = (.ok (some e, env), m) := by
      rw [walkBindings_of_not_link hstop]
      rfl
    exact ⟨some e, env, m, .stop hstop, runTopLevel_of_walk hwalk hrun⟩
  case pos =>
    -- a run that finished had a level of depth to spend
    obtain ⟨d, hd⟩ : ∃ d, cfg.depth = d + 1 := by
      cases h : cfg.depth with
      | zero =>
        simp only [topEngine, h, eval, exec_throw] at hrun
        cases hrun
      | succ d => exact ⟨d, rfl⟩
    -- the program's evaluation is one step through the engine one level shallower
    let k₀ : Engine := ⟨eval d cfg, call d cfg⟩
    have hdeep : EngineDeepens k₀ (topEngine cfg) :=
      deeper_evaluation_keeps_answers cfg (show d ≤ cfg.depth by omega)
    have hstep : (topEngine cfg).eval env .unknown e =
        walkBindings k₀ env (some e) >>= finishChain k₀ .unknown e.pos := by
      show eval cfg.depth cfg env .unknown e = _
      rw [hd]
      exact step_eq_walk htrace env .unknown hlink
    rw [hstep, exec_bind] at hrun
    rcases hw : (walkBindings k₀ env (some e)).exec m with ⟨_ | ⟨rest, env'⟩, m₁⟩ <;>
      rw [hw] at hrun <;> dsimp only at hrun
    · cases hrun
    -- the line walks the same links, and finishes, one level deeper, to the same ends
    have hwalk : (walkBindings (topEngine cfg) env (some e)).exec m = (.ok (rest, env'), m₁) := by
      rw [walkBindings_deepens hdeep env (some e) m (by simp [hw]), hw]
    have hfinish : (finishChain (topEngine cfg) .unknown e.pos (rest, env')).exec m₁ =
        (.ok v, m') := by
      rw [finishChain_deepens hdeep .unknown e.pos _ m₁ (by simp [hrun]), hrun]
    exact ⟨rest, env', m₁, .of_exec hwalk, runTopLevel_of_walk hwalk hfinish⟩

/-- How a session's line relates to the program it is. -/
structure LineReading (cfg : RunConfig) : Prop where
  /-- A line whose program finishes, with the trace off, gives the program's value on the
  program's machine, together with the scope the walk over its chain built. -/
  line : ∀ env e m v m', cfg.trace = false →
    ((topEngine cfg).eval env .unknown e).exec m = (.ok v, m') →
    ∃ rest env' m₁, ChainWalk (topEngine cfg) env (some e) m rest env' m₁ ∧
      (runTopLevel cfg env e).exec m = (.ok (v, env'), m')
  /-- A line that is not a chain builds no scope. -/
  not_chain : ∀ env e m rest env' m', e.isLink = false →
    ChainWalk (topEngine cfg) env (some e) m rest env' m' → rest = some e ∧ env' = env ∧ m' = m
  /-- A chain's evaluation is the recursive reading of its links, with `null` met to the
  expected type at the chain's first link when the chain ends in a link. -/
  chain : ∀ (k : Engine) env E (e : Expr), cfg.trace = false → e.isLink = true →
    step k cfg env E e = readChain k E e.pos env (some e)

theorem toplevel_line_runs_as_program (cfg : RunConfig) : LineReading cfg where
  line _ _ _ _ _ htrace hrun := runTopLevel_of_eval htrace hrun
  not_chain _ _ _ _ _ _ he h := ChainWalk.of_not_link he h
  chain _ env E _ htrace he := step_eq_readChain htrace env E he

/-- A chain that ends in a link meets `null` to the expected type at its first link. The
body `let a = 1; let b = 2` of a function declared to give `int` is reported at `let a`;
reading its rest `let b = 2` as a program of its own, in the scope `let a` built, reports
at `let b` instead. -/
theorem chain_end_reported_at_first_link :
    let first : Position := ⟨"<input>", 1, 26, ""⟩
    let last : Position := ⟨"<input>", 1, 37, ""⟩
    let rest := Expr.bind "b" .int (.lit (.int 2) last) none last
    let reported := fun (env : Env) (e : Expr) =>
      (((topEngine ⟨false, 1000⟩).eval env .int e).exec (Machine.start [] FileStore.empty)).2.diagnostics
    reported [] (.bind "a" .int (.lit (.int 1) first) (some rest) first) =
        #[⟨.type, "Type mismatch, null vs. int", some first⟩] ∧
      reported (Env.bind [] "a" (.int 1)) rest = #[⟨.type, "Type mismatch, null vs. int", some last⟩] := by
  intro first last rest reported
  -- both are chains, so both evaluations walk their links; the walk computes outright
  simp only [reported, topEngine]
  rw [show (1000 : Nat) = 999 + 1 from rfl, eval, eval, step_eq_walk rfl _ _ rfl,
    step_eq_walk rfl _ _ rfl, walkBindings_some, walkBindings_some]
  decide +kernel

end Eval

end Retl
