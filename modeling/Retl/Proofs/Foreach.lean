import Retl.Proofs.EvaluationOrder
/-!
# A `foreach` runs its body once for each item

A loop `foreach x in c { body }` evaluates `c` once, under no expected type. An error
there is the loop's outcome. An integer `n` makes the loop count: the body runs with `x`
bound to `0, 1, …, n - 1`, and not at all when `n ≤ 0`. A text, a list, a tuple, a
dictionary or a table makes it run over its items (`Value.items?`): the characters, the
elements, the pairs as two-element tuples, the rows. Nothing else can be iterated over.

`LoopRun` gives the runs of the body as rules, from a machine to the loop's outcome and
the machine left. The `i`-th run evaluates the body with `x` bound to the `i`-th item in a
new innermost scope of the loop's own scope, so nothing one run binds reaches the next
one or the code after the loop. What a run gives is dropped, an error included, and the
next run starts from the machine it left; a run that halts halts the loop. When no item
is left, the loop gives `null` met to the type its context expects.

`foreach_runs_body_per_item` shows that this is exactly what a loop does, with every
engine, so at every depth of evaluation.
-/

namespace Retl

namespace Value

/-- A value with items is not an integer, so the loop runs over those items. -/
theorem loopItems?_of_items? {v : Value} {xs : List Value} (h : v.items? = some xs) :
    v.loopItems? = some xs := by
  cases v <;> cases h <;> rfl

/-- A value with items is not an error. -/
theorem isError_of_items? {v : Value} {xs : List Value} (h : v.items? = some xs) :
    v.isError = false := by
  cases v <;> cases h <;> rfl

/-- The values with items are the texts, lists, tuples, dictionaries and tables. -/
theorem items?_isSome_iff (v : Value) :
    v.items?.isSome ↔ v.kindName ∈ ["String", "List", "Tuple", "Dict", "Table"] := by
  cases v <;> simp [items?, kindName]

/-- A value of no kind with items, and not an integer, gives the loop nothing to run over. -/
theorem loopItems?_eq_none {v : Value}
    (h : v.kindName ∉ ["Int", "String", "List", "Tuple", "Dict", "Table"]) :
    v.loopItems? = none := by
  cases v <;> simp_all [kindName, loopItems?, items?]

end Value

namespace Eval

/-- The rules of a loop's runs of its body over the items that remain, from a machine to
the loop's outcome and the machine left. -/
inductive LoopRun (k : Engine) (env : Env) (x : String) (body : Expr) (E : Ty) (pos : Position) :
    List Value → Machine → Except Halt Value × Machine → Prop
  /-- No item is left: the loop gives `null` met to the expected type. -/
  | done (m : Machine) : LoopRun k env x body E pos [] m ((conformValue .null E pos).exec m)
  /-- The body runs with the name bound to the item, and whatever it gives, the loop
  goes on from the machine it left. -/
  | next {y ys m w m' r} (hy : (k.eval (env.bind x y) .unknown body).exec m = (.ok w, m'))
      (hr : LoopRun k env x body E pos ys m' r) : LoopRun k env x body E pos (y :: ys) m r
  /-- A run of the body that halts halts the loop. -/
  | halt {y ys m h m'} (hy : (k.eval (env.bind x y) .unknown body).exec m = (.error h, m')) :
      LoopRun k env x body E pos (y :: ys) m (.error h, m')

section Engine

variable {k : Engine} {env : Env} {x : String} {body : Expr} {E : Ty} {pos : Position}

/-- The runs of the body over the items, then `null` for the loop. -/
def loopRuns (k : Engine) (env : Env) (x : String) (body : Expr) (E : Ty) (pos : Position)
    (ys : List Value) : Eval Value :=
  (ys.forM fun y => discard (k.eval (env.bind x y) .unknown body)) >>= fun _ =>
    conformValue .null E pos

/-- One run of the body, then the runs over the items after it. -/
theorem exec_loopRuns_cons (y : Value) (ys : List Value) (m : Machine) :
    (loopRuns k env x body E pos (y :: ys)).exec m =
      match (k.eval (env.bind x y) .unknown body).exec m with
      | (.ok _, m') => (loopRuns k env x body E pos ys).exec m'
      | (.error h, m') => (.error h, m') := by
  -- `discard` is a bind that drops the value
  show (((k.eval (env.bind x y) .unknown body >>= fun _ => pure ()) >>=
      fun _ => ys.forM fun y => discard (k.eval (env.bind x y) .unknown body)) >>=
      fun _ => conformValue .null E pos).exec m = _
  rw [bind_assoc, bind_assoc, exec_bind]
  rcases (k.eval (env.bind x y) .unknown body).exec m with ⟨_ | _, m'⟩
  · rfl
  · exact exec_bind _ _ _

/-- Every rule derives what the loop's runs do. -/
theorem LoopRun.exec_eq {ys : List Value} {m : Machine} {r : Except Halt Value × Machine}
    (hr : LoopRun k env x body E pos ys m r) : (loopRuns k env x body E pos ys).exec m = r := by
  induction hr with
  | done m => rfl
  | next hy _ ih => rw [exec_loopRuns_cons, hy]; exact ih
  | halt hy => rw [exec_loopRuns_cons, hy]

/-- What the loop's runs do, the rules derive. -/
theorem LoopRun.of_exec (ys : List Value) (m : Machine) :
    LoopRun k env x body E pos ys m ((loopRuns k env x body E pos ys).exec m) := by
  -- one rule per item, picked by whether its run halts
  induction ys generalizing m with
  | nil => exact .done m
  | cons y ys ih =>
    rw [exec_loopRuns_cons]
    rcases hy : (k.eval (env.bind x y) .unknown body).exec m with ⟨_ | w, m'⟩
    · exact .halt hy
    · exact .next hy (ih m')

theorem loopRuns_iff (ys : List Value) (m : Machine) (r : Except Halt Value × Machine) :
    (loopRuns k env x body E pos ys).exec m = r ↔ LoopRun k env x body E pos ys m r :=
  ⟨fun h => h ▸ LoopRun.of_exec ys m, LoopRun.exec_eq⟩

/-- Whatever the body gives, the loop's outcome is `null` met to the expected type, unless
a run halts. -/
theorem LoopRun.outcome {ys : List Value} {m : Machine} {r : Except Halt Value × Machine}
    (hr : LoopRun k env x body E pos ys m r) :
    (∃ m', r = (conformValue .null E pos).exec m') ∨ ∃ h m', r = (.error h, m') := by
  induction hr with
  | done m => exact .inl ⟨m, rfl⟩
  | next _ _ ih => exact ih
  | halt _ => exact .inr ⟨_, _, rfl⟩

variable {cfg : RunConfig} {it : Expr} {m m₁ : Machine}

/-- Over an integer `n`, the loop is the body's runs over `0, 1, …, n - 1`. -/
theorem iter_counts_iff {n : Int}
    (hit : (k.eval env .unknown it).exec (m.entering cfg (.iter x it body pos)) = (.ok (.int n), m₁))
    (r : Except Halt Value × Machine) :
    (step k cfg env E (.iter x it body pos)).exec m = r ↔
      LoopRun k env x body E pos ((List.range n.toNat).map fun i : Nat => .int (i : Int)) m₁ r := by
  rw [exec_step_iter hit]
  exact @loopRuns_iff k env x body E pos _ m₁ r

/-- Over an integer that is not positive, no body runs. -/
theorem iter_counts_none {n : Int}
    (hit : (k.eval env .unknown it).exec (m.entering cfg (.iter x it body pos)) = (.ok (.int n), m₁))
    (hn : n ≤ 0) :
    (step k cfg env E (.iter x it body pos)).exec m = (conformValue .null E pos).exec m₁ := by
  have hnone : (List.range n.toNat).map (fun i : Nat => Value.int (i : Int)) = [] := by
    simp [Int.toNat_eq_zero.mpr hn]
  exact (iter_counts_iff hit _).mpr (hnone ▸ .done m₁)

/-- Over a value with items, the loop is the body's runs over them, in order. -/
theorem iter_items_iff {v : Value} {xs : List Value}
    (hit : (k.eval env .unknown it).exec (m.entering cfg (.iter x it body pos)) = (.ok v, m₁))
    (hxs : v.items? = some xs) (r : Except Halt Value × Machine) :
    (step k cfg env E (.iter x it body pos)).exec m = r ↔ LoopRun k env x body E pos xs m₁ r := by
  rw [exec_step_iter hit, v.isError_of_items? hxs, v.loopItems?_of_items? hxs]
  exact @loopRuns_iff k env x body E pos xs m₁ r

end Engine

/-- What a loop `foreach x in it { body }` does, with an engine `k` for what it evaluates
inside. -/
structure ForeachRules (k : Engine) (cfg : RunConfig) : Prop where
  /-- An error where the items should be is the outcome, and no body runs. -/
  error : ∀ env E x it body pos m v m₁,
    (k.eval env .unknown it).exec (m.entering cfg (.iter x it body pos)) = (.ok v, m₁) →
    v.isError = true → (step k cfg env E (.iter x it body pos)).exec m = (.ok v, m₁)
  /-- An integer `n` runs the body over `0, 1, …, n - 1`. -/
  counts : ∀ env E x it body pos m n m₁ r,
    (k.eval env .unknown it).exec (m.entering cfg (.iter x it body pos)) = (.ok (.int n), m₁) →
    ((step k cfg env E (.iter x it body pos)).exec m = r ↔
      LoopRun k env x body E pos ((List.range n.toNat).map fun i : Nat => .int (i : Int)) m₁ r)
  /-- An integer that is not positive runs no body. -/
  counts_none : ∀ env E x it body pos m n m₁,
    (k.eval env .unknown it).exec (m.entering cfg (.iter x it body pos)) = (.ok (.int n), m₁) →
    n ≤ 0 → (step k cfg env E (.iter x it body pos)).exec m = (conformValue .null E pos).exec m₁
  /-- A value with items runs the body over them, in order. -/
  items : ∀ env E x it body pos m v xs m₁ r,
    (k.eval env .unknown it).exec (m.entering cfg (.iter x it body pos)) = (.ok v, m₁) →
    v.items? = some xs →
    ((step k cfg env E (.iter x it body pos)).exec m = r ↔ LoopRun k env x body E pos xs m₁ r)
  /-- The values with items are the texts, lists, tuples, dictionaries and tables. -/
  iterable : ∀ v : Value, v.items?.isSome ↔ v.kindName ∈ ["String", "List", "Tuple", "Dict", "Table"]
  /-- Anything else is reported at the loop, and no body runs. -/
  not_iterable : ∀ env E x it body pos m v m₁,
    (k.eval env .unknown it).exec (m.entering cfg (.iter x it body pos)) = (.ok v, m₁) →
    v.isError = false → v.kindName ∉ ["Int", "String", "List", "Tuple", "Dict", "Table"] →
    (step k cfg env E (.iter x it body pos)).exec m =
      (.ok (.error ("Cannot iterate over " ++ v.type.render)),
        m₁.report ("Cannot iterate over " ++ v.type.render) pos)
  /-- What the runs give is dropped, errors included: unless a run halts, the loop gives
  `null` met to the expected type. -/
  outcome : ∀ env E x body pos xs m r, LoopRun k env x body E pos xs m r →
    (∃ m', r = (conformValue .null E pos).exec m') ∨ ∃ h m', r = (.error h, m')

theorem foreach_runs_body_per_item (k : Engine) (cfg : RunConfig) : ForeachRules k cfg where
  error _ _ _ _ _ _ _ _ _ hit hv := by
    rw [exec_step_iter hit, if_pos hv]
  counts _ _ _ _ _ _ _ _ _ r hit := iter_counts_iff hit r
  counts_none _ _ _ _ _ _ _ _ _ hit hn := iter_counts_none hit hn
  items _ _ _ _ _ _ _ _ _ _ r hit hxs := iter_items_iff hit hxs r
  iterable := Value.items?_isSome_iff
  not_iterable _ _ _ _ _ _ _ _ _ hit hv hkind := by
    rw [exec_step_iter hit, hv, Value.loopItems?_eq_none hkind]
    exact exec_fail_report _ _ _
  outcome _ _ _ _ _ _ _ _ hr := hr.outcome

end Eval

end Retl
