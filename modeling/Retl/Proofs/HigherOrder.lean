import Retl.Proofs.FirstMatch
/-!
# The higher-order builtins follow their list definitions

`map`, `filter`, `foldl` and `foldr` call a function once for each element of a list, or
each row of a table, in order, each call from the machine the one before it left. They are
the list combinators `List.mapM`, `List.filterM`, `List.foldlM` and `List.foldrM`, run in
the monad where a call that gives an error value ends the run (`Eval.orStop`): the
builtin then calls the function on no further element and gives that error. `filter`
also ends on a predicate result that is no boolean, reporting it.

* `map f xs` is the list of `f(x₁), …, f(xₙ)`, typed as a list of `f`'s declared result;
* `filter p xs` keeps, in order, the elements `p` answers `true` for, typed as a list of
  `xs`'s element type; a predicate whose declared result does not conform to `bool` is
  refused before any call;
* `foldl a xs f` is `f(…f(f(a, x₁), x₂)…, xₙ)` and `foldr a xs f` is
  `f(…f(f(a, xₙ), xₙ₋₁)…, x₁)`: the accumulator is always the first argument. A list of
  characters folded into a text by a function that takes texts passes each character as
  a one-character text (`Builtins.passedType`, `Builtins.passedAs`). A fold whose types do
  not fit (`Builtins.FoldFits`) is refused before any call.

The calls go through an engine, so the rules hold at every depth of evaluation, for
builtin and function-literal arguments alike (`higher_order_builtins_follow_list_definitions`).
-/

namespace Retl

/-- `filterM` on a list with a head: the predicate on the head first, then on the rest. -/
theorem filterM_cons {m : Type → Type} [Monad m] [LawfulMonad m] {α : Type} (p : α → m Bool)
    (a : α) (l : List α) :
    (a :: l).filterM p = p a >>= fun b => l.filterM p >>= fun r => pure (if b then a :: r else r) := by
  -- `filterM` collects the kept elements in reverse, on an accumulator
  have hacc : ∀ (l : List α) (acc : List α),
      List.filterAuxM p l acc = (· ++ acc) <$> List.filterAuxM p l [] := by
    intro l
    induction l with
    | nil => intro acc; simp [List.filterAuxM]
    | cons h t ih =>
      intro acc
      simp only [List.filterAuxM, map_bind]
      refine congrArg (p h >>= ·) (funext fun b => ?_)
      rw [ih, ih (cond b [h] [])]
      cases b <;> simp
  simp only [List.filterM, List.filterAuxM, bind_assoc]
  refine congrArg (p a >>= ·) (funext fun b => ?_)
  rw [hacc]
  cases b <;> simp

namespace Eval

/-- A call whose error result ends the run with it. -/
def orStop (x : Eval Value) : ExceptT Value Eval Value := do
  let r ← x
  if r.isError then throw r else pure r

/-- The value of a run an error may have ended: that error, or what `g` makes of the
run's result. -/
def settle {α : Type} (g : α → Value) : Except Value α → Value
  | .ok a => g a
  | .error e => e

theorem run_orStop_bind {β : Type} (x : Eval Value) (f : Value → ExceptT Value Eval β) :
    (orStop x >>= f).run = x >>= fun r => if r.isError then pure (.error r) else (f r).run := by
  have hlift : (liftM x : ExceptT Value Eval Value) = ExceptT.lift x := rfl
  simp only [orStop, bind_assoc, hlift, ExceptT.run_bind_lift]
  refine congrArg (x >>= ·) (funext fun r => ?_)
  cases r.isError
  · simp only [Bool.false_eq_true, if_false, pure_bind]
  · simp only [if_true]
    rfl

/-- A run that throws what a step gives ends with it. -/
theorem run_lift_throw_bind {α β : Type} (x : Eval Value) (f : α → ExceptT Value Eval β) :
    (liftM x >>= fun e => (throw e : ExceptT Value Eval α) >>= f).run =
      x >>= fun e => pure (.error e) := by
  have hlift : (liftM x : ExceptT Value Eval Value) = ExceptT.lift x := rfl
  rw [hlift, ExceptT.run_bind_lift]
  rfl

end Eval

namespace Builtins

open Eval

/-- The answer of a predicate call: a boolean; an error ends the run with it, and any
other value ends it with the report that `filter` needs a boolean. -/
def predicateAnswer (x : Eval Value) (pos : Position) : ExceptT Value Eval Bool := do
  match ← orStop x with
  | .bool b => pure b
  | r => throw (← fail (requires "filter" "predicate result" "bool" r) pos)

/-- The type of the elements a fold passes its function, from the accumulator's type,
the list's element type and the function's element parameter: characters folded into a
text by a function that takes texts are passed as texts. -/
def passedType (acc elem param : Ty) : Ty :=
  if elem = .char ∧ acc = .string ∧ Ty.string.conformsTo param = true then .string else elem

/-- An element as a fold passes it when it passes elements of type `t`: a character as a
one-character text when `t` is `string`. -/
def passedAs (t : Ty) (x : Value) : Value :=
  match t, x with
  | .string, .char c => .string c.toString
  | _, x => x

/-- The types of a fold fit: the accumulator conforms to the elements' type, unless
characters are folded into a text, and the function takes the accumulator and the
elements as passed. -/
def FoldFits (acc elem accParam elemParam : Ty) : Prop :=
  (elem = .char ∧ acc = .string ∨ acc.conformsTo (passedType acc elem elemParam) = true) ∧
    acc.conformsTo accParam = true ∧ (passedType acc elem elemParam).conformsTo elemParam = true

/-! ### The loops -/

section Loops

variable {c : Value → Eval Value} {g : List Value → Value}

/-- A loop that gathers call results until one is an error, then gives the gathered list
to `g`, is `mapM` run until an error. -/
theorem forIn_gather_eq
    {body : Value → Option Value × Array Value → Eval (ForInStep (Option Value × Array Value))}
    (hbody : ∀ x s, body x s = c x >>= fun r =>
      if r.isError then pure (.done (some r, s.2)) else pure (.yield (none, s.2.push r)))
    {fin : Option Value × Array Value → Eval Value}
    (hsome : ∀ r out, fin (some r, out) = pure r) (hnone : ∀ out, fin (none, out) = pure (g out.toList))
    (items : List Value) (out : Array Value) :
    forIn items (none, out) body >>= fin =
      settle (fun rs => g (out.toList ++ rs)) <$> (items.mapM fun x => orStop (c x)).run := by
  induction items generalizing out with
  | nil => simp [hnone, settle]
  | cons x xs ih =>
    rw [List.forIn_cons, hbody, List.mapM_cons, run_orStop_bind, map_bind, bind_assoc, bind_assoc]
    refine congrArg (c x >>= ·) (funext fun r => ?_)
    cases r.isError
    · -- the result joins the gathered ones and the loop goes on
      simp only [Bool.false_eq_true, if_false, pure_bind]
      rw [ih (out.push r), bind_pure_comp, ExceptT.run_map, Functor.map_map]
      congr 1
      funext e
      cases e <;> simp [settle, Except.map]
    · simp only [if_true, pure_bind, hsome, map_pure, settle]

/-- A loop that keeps the elements a predicate call answers `true` for, and ends on an
error or on an answer that is no boolean, is `filterM` run until it ends. -/
theorem forIn_keep_eq (pos : Position)
    {body : Value → Option Value × Array Value → Eval (ForInStep (Option Value × Array Value))}
    {step : Value → Value → Option Value × Array Value →
      Eval (ForInStep (Option Value × Array Value))}
    (hbody : ∀ x s, body x s = c x >>= fun r =>
      if r.isError then pure (.done (some r, s.2)) else step x r s)
    (htrue : ∀ x s, step x (.bool true) s = pure (.yield (none, s.2.push x)))
    (hfalse : ∀ x s, step x (.bool false) s = pure (.yield (none, s.2)))
    (hother : ∀ x r s, (∀ b, r ≠ .bool b) → step x r s =
      fail (requires "filter" "predicate result" "bool" r) pos >>= fun e =>
        pure (.done (some e, s.2)))
    {fin : Option Value × Array Value → Eval Value}
    (hsome : ∀ r kept, fin (some r, kept) = pure r)
    (hnone : ∀ kept, fin (none, kept) = pure (g kept.toList))
    (items : List Value) (kept : Array Value) :
    forIn items (none, kept) body >>= fin =
      settle (fun rs => g (kept.toList ++ rs)) <$>
        (items.filterM fun x => predicateAnswer (c x) pos).run := by
  induction items generalizing kept with
  | nil => simp [hnone, settle, List.filterM, List.filterAuxM]
  | cons x xs ih =>
    rw [List.forIn_cons, hbody, filterM_cons, predicateAnswer]
    simp only [bind_assoc]
    rw [run_orStop_bind, map_bind]
    refine congrArg (c x >>= ·) (funext fun r => ?_)
    cases r.isError
    · simp only [Bool.false_eq_true, if_false]
      -- the predicate's answer: `true`, `false`, or no boolean
      rcases Value.bool_trichotomy r with rfl | rfl | hr
      · rw [htrue, pure_bind]
        dsimp only
        rw [ih (kept.push x)]
        simp only [pure_bind, if_true, bind_pure_comp, ExceptT.run_map, Functor.map_map]
        congr 1
        funext e
        cases e <;> simp [settle, Except.map]
      · rw [hfalse, pure_bind]
        dsimp only
        rw [ih kept]
        simp only [pure_bind, Bool.false_eq_true, if_false, bind_pure]
      · rw [hother x r _ hr]
        cases r
        case bool b => exact absurd rfl (hr b)
        all_goals
          dsimp only
          simp only [bind_assoc, pure_bind, hsome, bind_pure]
          rw [run_lift_throw_bind, map_bind]
          simp only [map_pure, settle, bind_pure]
    · simp only [if_true, pure_bind, hsome, map_pure, settle]

/-- A loop that threads an accumulator through calls until one gives an error is
`foldlM` run until an error. -/
theorem forIn_fold_eq {c : Value → Value → Eval Value}
    {body : Value → Option Value × Value → Eval (ForInStep (Option Value × Value))}
    (hbody : ∀ x s, body x s = c s.2 x >>= fun a =>
      if a.isError then pure (.done (some a, a)) else pure (.yield (none, a)))
    {fin : Option Value × Value → Eval Value}
    (hsome : ∀ r a, fin (some r, a) = pure r) (hnone : ∀ a, fin (none, a) = pure a)
    (items : List Value) (acc : Value) :
    forIn items (none, acc) body >>= fin =
      settle id <$> (items.foldlM (fun a x => orStop (c a x)) acc).run := by
  induction items generalizing acc with
  | nil => simp [hnone, settle]
  | cons x xs ih =>
    rw [List.forIn_cons, hbody, List.foldlM_cons, run_orStop_bind, map_bind, bind_assoc,
      bind_assoc]
    refine congrArg (c acc x >>= ·) (funext fun a => ?_)
    cases a.isError
    · simp only [Bool.false_eq_true, if_false, pure_bind]
      exact ih a
    · simp only [if_true, pure_bind, hsome, map_pure, settle]

end Loops

/-! ### The builtins -/

section Builtins

variable {k : Engine} {f xs : Value} {r t : Ty} {items : List Value} {pos : Position}

theorem map_eq {ps : List (String × Ty)} (hf : signature? f = some (ps, r))
    (hxs : xs.asList? = some (items, t)) :
    map k f xs pos =
      settle (Value.listOf · r) <$> (items.mapM fun x => orStop (k.call f [x] pos)).run := by
  unfold map
  rw [hxs]
  dsimp only
  rw [hf]
  dsimp only
  refine (forIn_gather_eq (c := fun x => k.call f [x] pos) (g := fun rs => Value.listOf rs r)
    ?_ ?_ ?_ items #[]).trans ?_
  · exact fun _ _ => rfl
  · exact fun _ _ => rfl
  · exact fun _ => rfl
  · simp only [List.nil_append]

theorem filter_eq {ps : List (String × Ty)} (hf : signature? f = some (ps, r))
    (hbool : r.conformsTo .bool = true) (hxs : xs.asList? = some (items, t)) :
    filter k f xs pos = settle (Value.listOf · t.elementType) <$>
      (items.filterM fun x => predicateAnswer (k.call f [x] pos) pos).run := by
  unfold filter
  rw [hf]
  dsimp only
  rw [hbool]
  simp only [Bool.not_true, Bool.false_eq_true, if_false]
  rw [hxs]
  dsimp only
  refine (forIn_keep_eq (c := fun x => k.call f [x] pos) (g := fun rs => Value.listOf rs t.elementType)
    pos (fun _ _ => rfl) ?_ ?_ ?_ ?_ ?_ items #[]).trans ?_
  · exact fun _ _ => rfl
  · exact fun _ _ => rfl
  · intro x r s hr
    cases r
    case bool b => exact absurd rfl (hr b)
    all_goals rfl
  · exact fun _ _ => rfl
  · exact fun _ => rfl
  · simp only [List.nil_append]

theorem filter_refused {ps : List (String × Ty)} (hf : signature? f = some (ps, r))
    (hbool : r.conformsTo .bool = false) :
    filter k f xs pos = fail ("filter requires a predicate returning bool, got " ++ r.render) pos := by
  unfold filter
  rw [hf]
  dsimp only
  rw [hbool]
  rfl

theorem passedType_eq (acc elem param : Ty) :
    (if ((elem == .char && acc == .string) && Ty.string.conformsTo param) = true then Ty.string
      else elem) = passedType acc elem param := by
  simp only [passedType, Bool.and_eq_true, beq_iff_eq, and_assoc]

theorem fold_eq {init : Value} {name : String} {fromRight : Bool} {a b : String} {ta tb : Ty}
    (hf : signature? f = some ([(a, ta), (b, tb)], r)) (hxs : xs.asList? = some (items, t))
    (hfits : FoldFits init.type t.elementType ta tb) :
    fold k name fromRight init xs f pos =
      settle id <$> ((if fromRight then items.reverse else items).foldlM (fun acc x =>
        orStop (k.call f [acc, passedAs (passedType init.type t.elementType tb) x] pos)) init).run := by
  obtain ⟨hcover, hacc, helem⟩ := hfits
  unfold fold
  rw [hxs]
  dsimp only
  rw [hf]
  dsimp only
  rw [passedType_eq]
  -- both type checks pass
  have hfirst : (!(t.elementType == .char && init.type == .string) &&
      !init.type.conformsTo (passedType init.type t.elementType tb)) = false := by
    rcases hcover with ⟨hc, hs⟩ | hc
    · simp [hc, hs]
    · simp [hc]
  have hsecond : (!init.type.conformsTo ta ||
      !(passedType init.type t.elementType tb).conformsTo tb) = false := by
    simp [hacc, helem]
  rw [hfirst, hsecond]
  simp only [Bool.false_eq_true, if_false]
  generalize passedType init.type t.elementType tb = T
  refine forIn_fold_eq (c := fun acc x => k.call f [acc, passedAs T x] pos) ?_ ?_ ?_ _ init
  · intro x s
    cases T <;> cases x <;> rfl
  · exact fun _ _ => rfl
  · exact fun _ => rfl

theorem fold_refused {init : Value} {name : String} {fromRight : Bool} {a b : String}
    {ta tb : Ty} (hf : signature? f = some ([(a, ta), (b, tb)], r))
    (hxs : xs.asList? = some (items, t)) (hfits : ¬FoldFits init.type t.elementType ta tb) :
    ∃ msg, fold k name fromRight init xs f pos = fail msg pos := by
  unfold fold
  rw [hxs]
  dsimp only
  rw [hf]
  dsimp only
  rw [passedType_eq]
  split
  · exact ⟨_, rfl⟩
  · split
    · exact ⟨_, rfl⟩
    · -- both checks passed, so the types fit
      rename_i hfirst hsecond
      simp only [Bool.and_eq_true, Bool.not_eq_eq_eq_not, Bool.not_true, not_and, Bool.or_eq_true,
        not_or, Bool.not_eq_false] at hfirst hsecond
      refine absurd ⟨?_, hsecond.1, hsecond.2⟩ hfits
      by_cases hcs : t.elementType = .char ∧ init.type = .string
      · exact .inl hcs
      · exact .inr (hfirst (Bool.eq_false_iff.mpr fun h => hcs (by simpa using h)))

end Builtins

end Builtins

open Builtins Eval in
/-- The higher-order builtins run through an engine `k` by their list definitions, for a
function `f` with declared parameters `ps` and result `r`, and a list or a table whose
elements or rows are `items` and whose type is `t`. -/
structure ListDefinitions (k : Engine) (pos : Position) : Prop where
  /-- `f` on each element in order, until a result is an error. -/
  map : ∀ f xs ps r items t, signature? f = some (ps, r) → xs.asList? = some (items, t) →
    run k .map [f, xs] pos =
      settle (Value.listOf · r) <$> (items.mapM fun x => orStop (k.call f [x] pos)).run
  /-- The elements the predicate answers `true` for, in order, until an answer is no
  boolean. -/
  filter : ∀ f xs ps r items t, signature? f = some (ps, r) → r.conformsTo .bool = true →
    xs.asList? = some (items, t) →
    run k .filter [f, xs] pos = settle (Value.listOf · t.elementType) <$>
      (items.filterM fun x => predicateAnswer (k.call f [x] pos) pos).run
  /-- A predicate whose declared result does not conform to `bool` is refused before
  any call. -/
  filter_refused : ∀ f xs ps r, signature? f = some (ps, r) → r.conformsTo .bool = false →
    run k .filter [f, xs] pos =
      fail ("filter requires a predicate returning bool, got " ++ r.render) pos
  /-- `f(…f(f(init, x₁), x₂)…, xₙ)`, until a result is an error. -/
  foldl : ∀ init xs f a ta b tb r items t, signature? f = some ([(a, ta), (b, tb)], r) →
    xs.asList? = some (items, t) → FoldFits init.type t.elementType ta tb →
    run k .foldl [init, xs, f] pos = settle id <$> (items.foldlM (fun acc x =>
      orStop (k.call f [acc, passedAs (passedType init.type t.elementType tb) x] pos)) init).run
  /-- `f(…f(f(init, xₙ), xₙ₋₁)…, x₁)`, until a result is an error. -/
  foldr : ∀ init xs f a ta b tb r items t, signature? f = some ([(a, ta), (b, tb)], r) →
    xs.asList? = some (items, t) → FoldFits init.type t.elementType ta tb →
    run k .foldr [init, xs, f] pos = settle id <$> (items.foldrM (fun x acc =>
      orStop (k.call f [acc, passedAs (passedType init.type t.elementType tb) x] pos)) init).run
  /-- A fold whose types do not fit is refused before any call. -/
  fold_refused : ∀ fb init xs f a ta b tb r items t, (fb = .foldl ∨ fb = .foldr) →
    signature? f = some ([(a, ta), (b, tb)], r) → xs.asList? = some (items, t) →
    ¬FoldFits init.type t.elementType ta tb → ∃ msg, run k fb [init, xs, f] pos = fail msg pos

/-- `map`, `filter`, `foldl` and `foldr` are the list combinators `mapM`, `filterM`,
`foldlM` and `foldrM` run until a call gives an error, with every call made through the
engine, in order, and no call after the one that ends the run. -/
theorem higher_order_builtins_follow_list_definitions (k : Engine) (pos : Position) :
    ListDefinitions k pos where
  map _ _ _ _ _ _ hf hxs := Builtins.map_eq hf hxs
  filter _ _ _ _ _ _ hf hbool hxs := Builtins.filter_eq hf hbool hxs
  filter_refused _ _ _ _ hf hbool := Builtins.filter_refused hf hbool
  foldl _ _ _ _ _ _ _ _ _ _ hf hxs hfits := Builtins.fold_eq hf hxs hfits
  foldr _ _ _ _ _ _ _ _ _ _ hf hxs hfits := Builtins.fold_eq hf hxs hfits
  fold_refused _ _ _ _ _ _ _ _ _ _ _ hfb hf hxs hfits := by
    rcases hfb with rfl | rfl
    · exact Builtins.fold_refused hf hxs hfits
    · exact Builtins.fold_refused hf hxs hfits

end Retl
