import Retl.Proofs.DroppedLines
/-!
# More nesting depth keeps a finished answer

Evaluation is given a depth: how deeply evaluations and calls may nest before the run halts
with `Halt.tooDeep`. A run that ends at some depth, with a value or with any other halt,
ends the same way, on the same machine, at every greater depth: more depth only turns
running out into an answer.

`Deepens x y` says that `y` ends as `x` does wherever `x` does not run out of depth. The
rules below take it through the ways the evaluator composes steps, and an engine deepens
another when its evaluations and calls do (`EngineDeepens`). The code of a step names its
engine only where it evaluates an operand or calls a function, so one step, one call and
every builtin through deepening engines deepen (`step_deepens`, `callStep_deepens`,
`Builtins.run_deepens`); by induction on the depth, evaluation at a depth is deepened by
evaluation at any greater one (`deeper_evaluation_keeps_answers`).
-/

namespace Retl

namespace Eval

variable {α β σ ρ : Type}

/-- `y` ends as `x` does, from every machine where `x` does not run out of depth. -/
def Deepens (x y : Eval α) : Prop :=
  ∀ m, (x.exec m).1 ≠ .error .tooDeep → y.exec m = x.exec m

namespace Deepens

theorem refl (x : Eval α) : Deepens x x := fun _ _ => rfl

/-- Running out of depth is deepened by anything. -/
theorem tooDeep (y : Eval α) : Deepens (throw .tooDeep) y := fun _ h => absurd rfl h

theorem bind {x y : Eval α} {f g : α → Eval β} (hx : Deepens x y)
    (hf : ∀ a, Deepens (f a) (g a)) : Deepens (x >>= f) (y >>= g) := by
  intro m h
  rw [exec_bind] at h
  rw [exec_bind, exec_bind]
  rcases hxm : x.exec m with ⟨e | a, m₁⟩
  · -- a halt of `x` that is not running out is a halt of `y` too
    rw [hxm] at h
    have he : e ≠ .tooDeep := by
      rintro rfl
      exact h rfl
    rw [hx m (by simpa [hxm] using he), hxm]
  · rw [hxm] at h
    rw [hx m (by simp [hxm]), hxm]
    exact hf a m₁ h

theorem map {x y : Eval α} (f : α → β) (hx : Deepens x y) : Deepens (f <$> x) (f <$> y) := by
  simp only [map_eq_pure_bind]
  exact hx.bind fun a => refl _

theorem discard {x y : Eval α} (hx : Deepens x y) : Deepens (discard x) (discard y) :=
  show Deepens (x >>= fun _ => pure ()) (y >>= fun _ => pure ()) from hx.bind fun _ => refl _

theorem ite {c : Prop} [Decidable c] {x₁ x₂ y₁ y₂ : Eval α} (h₁ : Deepens x₁ y₁)
    (h₂ : Deepens x₂ y₂) : Deepens (if c then x₁ else x₂) (if c then y₁ else y₂) := by
  split
  · exact h₁
  · exact h₂

/-- A step run after an optional first step that deepens: the form of a report made only
when a condition holds. -/
theorem ite_then {c : Prop} [Decidable c] {x : Eval PUnit} {f g : PUnit → Eval α}
    (hf : ∀ u, Deepens (f u) (g u)) :
    Deepens (if c then x >>= f else f ()) (if c then x >>= g else g ()) :=
  ite ((refl x).bind hf) (hf ())

/-- A loop is deepened pass by pass. -/
theorem forIn {xs : List ρ} {b : σ} {f g : ρ → σ → Eval (ForInStep σ)}
    (hf : ∀ x s, Deepens (f x s) (g x s)) : Deepens (ForIn.forIn xs b f) (ForIn.forIn xs b g) := by
  induction xs generalizing b with
  | nil => exact refl _
  | cons x xs ih =>
    rw [List.forIn_cons, List.forIn_cons]
    refine (hf x b).bind fun r => ?_
    cases r with
    | done s => exact refl _
    | yield s => exact ih

theorem mapM {xs : List ρ} {f g : ρ → Eval α} (hf : ∀ x, Deepens (f x) (g x)) :
    Deepens (xs.mapM f) (xs.mapM g) := by
  induction xs with
  | nil => exact refl _
  | cons x xs ih =>
    rw [List.mapM_cons, List.mapM_cons]
    exact (hf x).bind fun _ => ih.bind fun _ => refl _

theorem forM {xs : List ρ} {f g : ρ → Eval PUnit} (hf : ∀ x, Deepens (f x) (g x)) :
    Deepens (xs.forM f) (xs.forM g) := by
  induction xs with
  | nil => exact refl _
  | cons x xs ih =>
    rw [List.forM.eq_2, List.forM.eq_2]
    exact (hf x).bind fun _ => ih

end Deepens

end Eval

open Eval

/-- `k'` evaluates and calls as `k` does, wherever `k` does not run out of depth. -/
structure EngineDeepens (k k' : Engine) : Prop where
  eval : ∀ env t e, Deepens (k.eval env t e) (k'.eval env t e)
  call : ∀ f args pos, Deepens (k.call f args pos) (k'.call f args pos)

namespace Builtins

variable {k k' : Engine}

theorem map_deepens (hk : EngineDeepens k k') (f xs : Value) (pos : Position) :
    Deepens (map k f xs pos) (map k' f xs pos) := by
  unfold map
  rcases xs.asList? with _ | ⟨items, t⟩
  · exact Deepens.refl _
  rcases signature? f with _ | ⟨params, result⟩
  · exact Deepens.refl _
  exact (Deepens.forIn fun x _ => (hk.call f [x] pos).bind fun _ => Deepens.refl _).bind
    fun _ => Deepens.refl _

theorem filter_deepens (hk : EngineDeepens k k') (f xs : Value) (pos : Position) :
    Deepens (filter k f xs pos) (filter k' f xs pos) := by
  unfold filter
  rcases signature? f with _ | ⟨params, result⟩
  · exact Deepens.refl _
  refine Deepens.ite (Deepens.refl _) ?_
  rcases xs.asList? with _ | ⟨items, t⟩
  · exact Deepens.refl _
  exact (Deepens.forIn fun x _ => (hk.call f [x] pos).bind fun _ => Deepens.refl _).bind
    fun _ => Deepens.refl _

theorem fold_deepens (hk : EngineDeepens k k') (name : String) (fromRight : Bool)
    (init xs f : Value) (pos : Position) :
    Deepens (fold k name fromRight init xs f pos) (fold k' name fromRight init xs f pos) := by
  unfold fold
  rcases xs.asList? with _ | ⟨items, t⟩
  · exact Deepens.refl _
  rcases signature? f with _ | ⟨params, result⟩
  · exact Deepens.refl _
  refine Deepens.ite (Deepens.refl _) (Deepens.ite (Deepens.refl _) ?_)
  exact (Deepens.forIn fun _ _ => (hk.call f _ pos).bind fun _ => Deepens.refl _).bind
    fun _ => Deepens.refl _

/-- Only `map`, `filter`, `foldl` and `foldr` call through the engine; every other builtin
runs alike with any engine. -/
theorem run_deepens (hk : EngineDeepens k k') (b : Builtin) (args : List Value)
    (pos : Position) : Deepens (run k b args pos) (run k' b args pos) := by
  unfold run
  split
  · exact map_deepens hk _ _ pos
  · exact filter_deepens hk _ _ pos
  · exact fold_deepens hk _ _ _ _ _ pos
  · exact fold_deepens hk _ _ _ _ _ pos
  all_goals exact Deepens.refl _

end Builtins

namespace Eval

variable {k k' : Engine}

theorem walkBindings_deepens (hk : EngineDeepens k k') (env : Env) (e : Option Expr) :
    Deepens (walkBindings k env e) (walkBindings k' env e) := by
  fun_induction walkBindings k env e with
  | case1 env name t value next pos ih =>
    rw [walkBindings.eq_1]
    exact (hk.eval env t value).bind ih
  | case2 env name t next pos ih =>
    rw [walkBindings.eq_2]
    exact ih
  | case3 env e hbind halias =>
    rw [walkBindings.eq_3 k' env e hbind halias]
    exact Deepens.refl _

theorem tryCase_deepens (hk : EngineDeepens k k') (env : Env) (subject : Value) (c : Case) :
    Deepens (tryCase k env subject c) (tryCase k' env subject c) := by
  cases c
  case typed name t predicate pos =>
    unfold tryCase
    refine Deepens.ite (Deepens.refl _) ?_
    -- only a guard is evaluated
    cases predicate with
    | none => exact Deepens.refl _
    | some p => exact (hk.eval _ .bool p).bind fun _ => Deepens.refl _
  all_goals exact Deepens.refl _

theorem matchCases_deepens (hk : EngineDeepens k k') (env : Env) (E : Ty) (subject : Value)
    (pos : Position) :
    ∀ cases, Deepens (matchCases k env E subject pos cases) (matchCases k' env E subject pos cases) := by
  intro cs
  induction cs with
  | nil => exact Deepens.refl _
  | cons cb rest ih =>
    obtain ⟨c, body⟩ := cb
    unfold matchCases
    refine (tryCase_deepens hk env subject c).bind fun o => ?_
    cases o with
    | matched env' => exact hk.eval env' E body
    | skipped => exact ih
    | failed g => exact Deepens.refl _

theorem applyTo_deepens (hk : EngineDeepens k k') (env : Env) (E : Ty) (callee : Value)
    (args : List Expr) (pos : Position) :
    Deepens (applyTo k env E callee args pos) (applyTo k' env E callee args pos) := by
  -- an index is evaluated and the rest reads it; a call evaluates its arguments and calls
  cases callee
  case string | list | table | dict =>
    rcases args with _ | ⟨a, _ | ⟨_, _⟩⟩
    any_goals exact Deepens.refl _
    exact (hk.eval env _ a).bind fun _ => Deepens.refl _
  case func id params result body closure t =>
    unfold applyTo
    refine Deepens.ite (Deepens.refl _) ?_
    refine (Deepens.mapM fun ⟨a, _, t⟩ => hk.eval env t a).bind fun vs => ?_
    cases firstError vs with
    | some bad => exact Deepens.refl _
    | none => exact (hk.call _ vs pos).bind fun _ => Deepens.refl _
  all_goals exact Deepens.refl _

theorem callStep_deepens (hk : EngineDeepens k k') (cfg : RunConfig) (f : Value)
    (args : List Value) (pos : Position) :
    Deepens (callStep k cfg f args pos) (callStep k' cfg f args pos) := by
  cases f
  case func id params result body closure t =>
    unfold callStep
    refine Deepens.ite (Deepens.refl _) ((Deepens.refl _).bind fun r => ?_)
    cases r with
    | error v => exact Deepens.refl _
    | ok frame =>
      cases id with
      | builtin b => exact (Deepens.refl _).bind fun _ => Builtins.run_deepens hk b _ pos
      | lambda n =>
        cases body with
        | none => exact Deepens.refl _
        | some body => exact hk.eval _ result body
  all_goals exact Deepens.refl _

theorem dictPairs_deepens (hk : EngineDeepens k k') (env : Env) (kt vt : Ty) :
    ∀ pairs, Deepens (dictPairs k env kt vt pairs) (dictPairs k' env kt vt pairs) := by
  intro pairs
  cases pairs with
  | nil => exact Deepens.refl _
  | cons kv _ =>
    obtain ⟨_, ve⟩ := kv
    refine (hk.eval env kt _).bind fun _ => (hk.eval env vt ve).bind fun _ =>
      (Deepens.mapM fun kv' => ?_).bind fun _ => Deepens.refl _
    obtain ⟨_, ve'⟩ := kv'
    exact (hk.eval env _ _).bind fun _ => (hk.eval env _ ve').bind fun _ => Deepens.refl _

/-- One step of evaluation through deepening engines deepens. -/
theorem step_deepens (hk : EngineDeepens k k') (cfg : RunConfig) (env : Env) (E : Ty) (e : Expr) :
    Deepens (step k cfg env E e) (step k' cfg env E e) := by
  unfold step
  refine (Deepens.refl _).bind fun _ => ?_
  -- one case per form, each evaluating its operands through the engines
  cases e
  case bind | aliasType =>
    refine (walkBindings_deepens hk env _).bind fun r => ?_
    rcases r with ⟨_ | rest, env'⟩
    · exact Deepens.refl _
    · exact hk.eval env' E rest
  case apply callee args pos =>
    exact (hk.eval env .unknown callee).bind fun f =>
      Deepens.ite (Deepens.refl _) (applyTo_deepens hk env E f args pos)
  case matchOn subject cases pos =>
    exact (hk.eval env .unknown subject).bind fun s =>
      Deepens.ite (Deepens.refl _) (matchCases_deepens hk env E s pos cases)
  case prim op left right pos =>
    refine (hk.eval env .unknown left).bind fun _ => ?_
    cases right with
    | none => exact Deepens.refl _
    | some r => exact ((hk.eval env .unknown r).map _).bind fun _ => Deepens.refl _
  case branch cond thenBranch elseBranch pos =>
    refine Deepens.ite_then fun _ => (hk.eval env .bool cond).bind fun v => ?_
    cases v
    case bool b =>
      cases b
      · cases elseBranch with
        | none => exact Deepens.refl _
        | some e => exact hk.eval env E e
      · exact hk.eval env E thenBranch
    all_goals exact Deepens.refl _
  case iter name iterable body pos =>
    -- the body's runs over the items, whichever items they are
    have hruns : ∀ xs : List Value,
        Deepens ((xs.forM fun x => discard (k.eval (env.bind name x) .unknown body)) >>=
            fun _ => conformValue .null E pos)
          ((xs.forM fun x => discard (k'.eval (env.bind name x) .unknown body)) >>=
            fun _ => conformValue .null E pos) := fun xs =>
      (Deepens.forM fun x => (hk.eval _ .unknown body).discard).bind fun _ => Deepens.refl _
    refine (hk.eval env .unknown iterable).bind fun v => Deepens.ite (Deepens.refl _) ?_
    -- a count and the values with items run the body; the rest report and run nothing
    cases v
    case int | string | list | tuple | dict | table => exact hruns _
    all_goals exact Deepens.refl _
  case list es pos =>
    cases es with
    | nil => exact Deepens.refl _
    | cons e rest =>
      exact (hk.eval env _ e).bind fun _ =>
        (Deepens.mapM fun x => hk.eval env _ x).bind fun _ => Deepens.refl _
  case tuple es pos =>
    exact (Deepens.mapM fun ⟨e, t⟩ => hk.eval env t e).bind fun _ => Deepens.refl _
  case access target index pos =>
    exact (hk.eval env .unknown target).bind fun _ => Deepens.refl _
  case dict pairs pos =>
    cases pairs with
    | nil => exact Deepens.refl _
    | cons p rest => exact (dictPairs_deepens hk env _ _ (p :: rest)).bind fun _ => Deepens.refl _
  all_goals exact Deepens.refl _

/-- Evaluation at a depth is deepened by evaluation at any greater depth: a run that does not
run out of depth ends the same way, on the same machine, with more depth. -/
theorem deeper_evaluation_keeps_answers (cfg : RunConfig) : ∀ {n n' : Nat}, n ≤ n' →
    EngineDeepens ⟨eval n cfg, call n cfg⟩ ⟨eval n' cfg, call n' cfg⟩
  | 0, _, _ => ⟨fun _ _ _ => Deepens.tooDeep _, fun _ _ _ => Deepens.tooDeep _⟩
  | n + 1, 0, h => absurd h (Nat.not_succ_le_zero n)
  | _ + 1, _ + 1, h =>
    have ih := deeper_evaluation_keeps_answers cfg (Nat.le_of_succ_le_succ h)
    ⟨fun env t e => step_deepens ih cfg env t e,
      fun f args pos => callStep_deepens ih cfg f args pos⟩

end Eval

end Retl
