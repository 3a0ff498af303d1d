import Retl.Proofs.StepTyping
/-!
# Type safety of evaluation

One step of evaluation keeps the invariant when the engine it calls keeps it
(`Eval.step_fits`, `Eval.callStep_good`), so by induction on the nesting budget the
evaluator keeps it at every depth. From there: programs that analyse without diagnostics
evaluate to good values, the values a scope binds stay well typed, and every value a
builtin receives is one it is written for.
-/

namespace Retl

open Eval

namespace Ty

/-- The element type a list literal expects: that of an expected list, or `unknown`. -/
theorem Admissible.expectedElement {E : Ty} (h : E.Admissible) :
    (match E with
      | .list t => t
      | _ => .unknown).Admissible := by
  split
  · exact h.list
  · exact .unknown

/-- The element type a list literal takes: an expected union, or its first element's type. -/
theorem Admissible.literalElement {ex : Ty} (hex : ex.Admissible) {first : Value}
    (hfirst : first.Good) :
    (match ex with
      | .union _ => ex
      | _ => first.type).Admissible := by
  split
  · exact hex
  · exact admissible_type_of_good hfirst

/-- An empty literal types its elements as expected, or as `any` when that has an
`unknown` in it. -/
theorem hasUnknown_emptyElement (t : Ty) :
    (if t.hasUnknown = true then Ty.any else t).hasUnknown = false := by
  split
  · rfl
  next h => simpa using h

theorem literalElement_hasUnknown {ex : Ty} (hex : ex.Admissible) {first : Value}
    (hfirst : first.WellTyped) :
    (match ex with
      | .union _ => ex
      | _ => first.type).hasUnknown = false := by
  split
  · exact hex.hasUnknown (by simp)
  · exact hfirst.type_ok

/-- The types a tuple literal expects of its elements: those of an expected tuple of the
same length, or `unknown` for each. -/
theorem Admissible.tupleSlot {E : Ty} (es : List Expr) {t : Ty}
    (ht : t ∈ match E with
      | .tuple ts => if ts.length == es.length then ts else es.map fun _ => Ty.unknown
      | _ => es.map fun _ => Ty.unknown) (hE : E.Admissible) : t.Admissible := by
  split at ht
  next ts =>
    split at ht
    · exact .of_hasUnknown (hasUnknown_of_mem (by simpa using hE.hasUnknown (by simp)) t ht)
    · obtain ⟨_, -, rfl⟩ := List.mem_map.mp ht
      exact .unknown
  next =>
    obtain ⟨_, -, rfl⟩ := List.mem_map.mp ht
    exact .unknown

theorem Admissible.dictParts {a b : Ty} (h : (Ty.dict a b).Admissible) :
    a.Admissible ∧ b.Admissible := by
  have hab : a.hasUnknown = false ∧ b.hasUnknown = false := by
    simpa using h.hasUnknown (by simp)
  exact ⟨.of_hasUnknown hab.1, .of_hasUnknown hab.2⟩

end Ty

namespace Eval

theorem firstError_pairs_eq_none {ps : List (Value × Value)}
    (h : firstError (ps.flatMap fun (a, b) => [a, b]) = none) :
    ∀ p ∈ ps, p.1.isError = false ∧ p.2.isError = false := by
  have hok := firstError_eq_none h
  intro ⟨a, b⟩ hp
  exact ⟨hok a (List.mem_flatMap.mpr ⟨_, hp, by simp⟩),
    hok b (List.mem_flatMap.mpr ⟨_, hp, by simp⟩)⟩

theorem freshLambda_lambda : Returns freshLambda fun id => ∀ b, id ≠ .builtin b :=
  fun m id m' h => by
    simp only [freshLambda, exec_modifyGet, Prod.mk.injEq, Except.ok.injEq] at h
    intro b hb
    rw [← h.1] at hb
    cases hb

section Engine

variable {k : Engine} (hk : k.Sound)
include hk

/-- One step of evaluation keeps the invariant: from a well-typed scope, a resolved
expression evaluated under an admissible type gives an outcome that fits the type. -/
theorem step_fits (cfg : RunConfig) {env : Env} {E : Ty} {e : Expr} (henv : env.WellTyped)
    (he : e.resolved = true) (hE : E.Admissible) :
    Returns (step k cfg env E e) (Value.Fits E) := by
  unfold step
  refine Returns.bind Returns.trivial fun _ _ => ?_
  cases e with
  | lit l pos => exact conformValue_fits (Value.good_of_wellTyped (.literalValue l)) E pos
  | bind name t value next pos | aliasType name t next pos =>
    refine Returns.bind (walkBindings_wellTyped hk henv he) fun r hr => ?_
    split
    next rest env' => exact hk.eval hr.1 (by simpa [Expr.resolvedOpt] using hr.2) hE
    next => exact conformValue_fits (Value.good_of_wellTyped .null) E pos
  | lam params result body pos =>
    simp only [Expr.resolved, Bool.and_eq_true, List.all_eq_true, Bool.not_eq_eq_eq_not,
      Bool.not_true] at he
    obtain ⟨⟨hps, hr⟩, hbody⟩ := he
    refine Returns.bind freshLambda_lambda fun id hid => conformValue_fits ?_ E pos
    refine Value.good_of_wellTyped (.func (by simp) (Ty.anyUnknown_map_snd hps) hr hps hr
      (fun b hb => absurd hb (hid b)) (fun b hb => ?_) henv)
    cases hb
    exact hbody
  | apply callee args pos =>
    simp only [Expr.resolved, Bool.and_eq_true] at he
    refine Returns.bind (hk.eval henv he.1 .unknown) fun f hf => ?_
    split
    next herr => exact Returns.pure (Value.fits_of_isError herr E)
    next herr => exact applyTo_fits hk pos henv (hf (by simpa using herr)).1 he.2
  | matchOn subject cases pos =>
    simp only [Expr.resolved, Bool.and_eq_true] at he
    refine Returns.bind (hk.eval henv he.1 .unknown) fun s hs => ?_
    split
    next herr => exact Returns.pure (Value.fits_of_isError herr E)
    next herr => exact matchCases_fits hk pos henv (hs (by simpa using herr)).1 hE he.2
  | prim op left right pos =>
    simp only [Expr.resolved, Bool.and_eq_true] at he
    dsimp only
    refine Returns.bind (hk.eval henv he.1 .unknown) fun l hl => ?_
    -- the right operand, when there is one, is good; both ways the operands are checked next
    split
    all_goals refine Returns.bind (P := fun r => ∀ b, r = some b → Value.Good b) ?_ fun r hr => ?_
    · refine Returns.map (hk.eval henv (by simpa [Expr.resolvedOpt] using he.2) .unknown)
        fun v hv b hb => ?_
      cases hb
      exact hv.good
    pick_goal 2
    · exact Returns.pure fun b hb => by cases hb
    all_goals
      split
      next bad hbad => exact Returns.pure (Value.fits_of_isError (firstError_eq_some hbad) E)
      next hnone =>
        have hok := firstError_eq_none hnone
        have hl' : l.WellTyped := (hl (hok l List.mem_cons_self)).1
        have hr' : ∀ b, r = some b → b.WellTyped := fun b hb =>
          hr b hb (hok b (List.mem_cons_of_mem l (by simp [hb])))
        have hv := Operators.apply_good op hl' hr'
        split
        · exact Returns.bind Returns.trivial fun _ _ => conformValue_fits hv E pos
        · exact conformValue_fits hv E pos
  | ref name pos =>
    simp only
    split
    next v hv => exact conformValue_fits (henv.lookup hv) E pos
    next => exact fail_fits _ _ _
  | branch c t e pos =>
    simp only [Expr.resolved, Bool.and_eq_true] at he
    obtain ⟨⟨hc, ht⟩, he'⟩ := he
    dsimp only
    -- a mismatch of the two branches' static types is only reported
    refine Returns.ite (Returns.bind Returns.trivial fun _ _ => ?_) ?_
    all_goals
      refine Returns.bind (hk.eval henv hc (.of_hasUnknown rfl)) fun v hv => ?_
      split
      · exact hk.eval henv ht hE
      · split
        next e' => exact hk.eval henv (by simpa [Expr.resolvedOpt] using he') hE
        next => exact conformValue_fits (Value.good_of_wellTyped .null) E pos
      next hne₁ hne₂ =>
        refine Returns.pure (Value.fits_of_isError (hv.isError_of_not_bool fun b hb => ?_) E)
        cases b
        · exact hne₂ hb
        · exact hne₁ hb
  | iter name iterable body pos =>
    dsimp only
    refine Returns.bind Returns.trivial fun it _ => ?_
    split
    next herr => exact Returns.pure (Value.fits_of_isError herr E)
    split
    · exact fail_fits _ _ _
    · exact Returns.bind Returns.trivial fun _ _ =>
        conformValue_fits (Value.good_of_wellTyped .null) E pos
  | list es pos =>
    have hres := Expr.resolved_of_mem (by simpa [Expr.resolved] using he)
    dsimp only
    split
    · exact conformValue_fits
        (Value.good_of_wellTyped (.listOf (Ty.hasUnknown_emptyElement _) (by simp))) E pos
    next e rest =>
      have hex := hE.expectedElement
      refine Returns.bind (hk.eval henv (hres e List.mem_cons_self) hex) fun first hfirst => ?_
      have helem := hex.literalElement hfirst.good
      refine Returns.bind (Returns.mapM_forall (Q := Value.Good) fun x hx =>
        (hk.eval henv (hres x (List.mem_cons_of_mem e hx)) helem).mono fun v hv => hv.good)
        fun others hothers => ?_
      split
      next bad hbad => exact Returns.pure (Value.fits_of_isError (firstError_eq_some hbad) E)
      next hnone =>
        have hall : ∀ v ∈ first :: others, v.WellTyped := by
          refine wellTyped_of_firstError (fun v hv => ?_) hnone
          rcases List.mem_cons.mp hv with rfl | hv
          · exact hfirst.good
          · exact hothers.2 v hv
        have hty := Ty.literalElement_hasUnknown hex (hall first List.mem_cons_self)
        exact conformValue_fits (Value.good_of_wellTyped (.listOf hty hall)) E pos
  | tuple es pos =>
    have hres := Expr.resolved_of_mem (by simpa [Expr.resolved] using he)
    dsimp only
    refine Returns.bind (Returns.mapM_forall (Q := Value.Good) fun p hp => ?_) fun vs hvs => ?_
    · obtain ⟨e, t⟩ := p
      have hmem := List.of_mem_zip hp
      exact (hk.eval henv (hres e hmem.1) (Ty.Admissible.tupleSlot es hmem.2 hE)).mono
        fun v hv => hv.good
    split
    next bad hbad => exact Returns.pure (Value.fits_of_isError (firstError_eq_some hbad) E)
    next hnone =>
      exact conformValue_fits
        (Value.good_of_wellTyped (.tupleOf (wellTyped_of_firstError hvs.2 hnone))) E pos
  | access target index pos =>
    refine Returns.bind (hk.eval henv (by simpa [Expr.resolved] using he) .unknown)
      fun v hv => ?_
    split
    next vs t =>
      cases (hv rfl).1 with
      | tuple _ _ hes =>
        split
        next x hx => exact conformValue_fits (Value.good_of_wellTyped (hes x
          (List.mem_of_getElem? hx))) E pos
        next => exact fail_fits _ _ _
    next m => exact Returns.pure (Value.fits_error E m)
    next => exact fail_fits _ _ _
  | dict pairs pos =>
    dsimp only
    split
    · -- the key and value types of an empty literal never keep an unknown
      split
      all_goals exact conformValue_fits (Value.good_of_wellTyped (.dict
        (Ty.hasUnknown_emptyElement _) (Ty.hasUnknown_emptyElement _) (by simp) (by simp))) _ pos
    next hne =>
      -- the key and value types expected: those of an expected dictionary, or unknown
      split
      case' h_1 a b => have hkv : a.Admissible ∧ b.Admissible := hE.dictParts
      case' h_2 => have hkv : Ty.unknown.Admissible ∧ Ty.unknown.Admissible :=
        ⟨.unknown, .unknown⟩
      all_goals
        refine Returns.bind (dictPairs_good hk henv hkv.1 hkv.2 (fun h => hne h) he)
          fun r hr => ?_
        split
        next bad hbad => exact Returns.pure (Value.fits_of_isError (firstError_eq_some hbad) _)
        next hnone =>
          have hok := firstError_pairs_eq_none hnone
          refine conformValue_fits (Value.good_of_wellTyped (.dict
            (hr.2.1 fun p hp => (hok p hp).1) (hr.2.2 fun p hp => (hok p hp).2)
            (fun p hp => ?_) fun p hp => ?_)) _ pos
          · exact (hr.1 p hp).1 (hok p hp).1
          · exact (hr.1 p hp).2 (hok p hp).2
  | schema columns pos =>
    simp only [Expr.resolved, List.all_eq_true, Bool.not_eq_eq_eq_not, Bool.not_true] at he
    exact conformValue_fits (Value.good_of_wellTyped (.schema he)) E pos
  | empty pos => exact conformValue_fits (Value.good_of_wellTyped .null) E pos

end Engine

/-- The evaluator keeps the invariant at every nesting budget. -/
theorem engine_sound (cfg : RunConfig) : ∀ n, Engine.Sound ⟨eval n cfg, call n cfg⟩
  | 0 => ⟨fun _ _ _ => Returns.throw, fun _ _ => Returns.throw⟩
  | n + 1 =>
    have hk := engine_sound cfg n
    ⟨fun henv he hE => step_fits hk cfg henv he hE,
      fun hf hargs => callStep_good hk cfg _ hf hargs⟩

theorem reportHalt_good (root : Expr) (h : Halt) : Returns (reportHalt root h) Value.Good :=
  Returns.bind Returns.trivial fun _ _ => Returns.pure (Value.good_error _)

/-- A resolved program run in a well-typed scope gives a good value. -/
theorem runProgram_good (cfg : RunConfig) {env : Env} {e : Expr} (henv : env.WellTyped)
    (he : e.resolved = true) : Returns (runProgram cfg env e) Value.Good :=
  Returns.tryCatch (((engine_sound cfg cfg.depth).eval henv he .unknown).mono fun _ hv => hv.good)
    fun h => reportHalt_good e h

/-- A session line keeps the session's scope well typed, and its value is good. -/
theorem runTopLevel_good (cfg : RunConfig) {env : Env} {e : Expr} (henv : env.WellTyped)
    (he : e.resolved = true) :
    Returns (runTopLevel cfg env e) fun r => r.1.Good ∧ r.2.WellTyped := by
  refine Returns.tryCatch ?_ fun h =>
    Returns.bind (reportHalt_good e h) fun v hv => Returns.pure ⟨hv, henv⟩
  refine Returns.bind (walkBindings_wellTyped (engine_sound cfg cfg.depth) henv he)
    fun r hr => ?_
  split
  next env' => exact Returns.pure ⟨Value.good_of_wellTyped .null, hr.1⟩
  next rest env' =>
    have hrest : rest.resolved = true := by simpa [Expr.resolvedOpt] using hr.2
    exact Returns.bind ((engine_sound cfg cfg.depth).eval hr.1 hrest .unknown) fun v hv =>
      Returns.pure ⟨hv.good, hr.1⟩

end Eval

namespace Env

/-- Every builtin of the root scope is a well-typed function value. -/
theorem wellTyped_ofBuiltin (b : Builtin) : (Value.ofBuiltin b).WellTyped := by
  cases b <;> refine .func (List.length_map _) (by decide) (by decide) (by decide) (by decide)
    (fun b hb => by cases hb; rfl) (fun _ hb => by cases hb) (fun _ hf => by cases hf)

theorem root_wellTyped : Env.root.WellTyped := by
  intro f hf b hb
  simp only [Env.root, List.mem_singleton] at hf
  subst hf
  obtain ⟨b', -, rfl⟩ := List.mem_map.mp hb
  exact Value.good_of_wellTyped (wellTyped_ofBuiltin b')

end Env

namespace Eval

/-- Values meet the types their contexts expect. From a well-typed scope, a resolved
expression evaluated under an admissible type (a written type with no `unknown` in it,
or `unknown` itself) gives an error or a value whose type conforms to that type; so
does the value of every `let` under its written type. Binding arguments to parameters
with distinct names gives each parameter a value whose type conforms to the parameter's,
and a call of a function literal gives an error or a value whose type conforms to its
declared result type. -/
theorem evaluation_conforms_to_expected (cfg : RunConfig) :
    (∀ n env E e, Env.WellTyped env → Expr.resolved e = true → Ty.Admissible E →
      Returns (eval n cfg env E e) fun v => v.isError = true ∨ v.type.conformsTo E = true) ∧
    (∀ (fn : String) (pos : Position) (args : List Value) (ps : List (String × Ty)),
      (∀ a ∈ args, a.Good) → (ps.map Prod.fst).Nodup → args.length = ps.length →
      Returns (bindArgs fn pos [] args ps) fun r => ∀ f, r = .ok f →
        List.Forall₂ (fun v p => v.type.conformsTo p.2 = true)
          (ps.filterMap fun (n, _) => (f.find? (·.1 == n)).map Prod.snd) ps) ∧
    (∀ n id ps r body closure t args pos,
      (Value.func (.lambda id) ps r (some body) closure t).WellTyped → (∀ a ∈ args, a.Good) →
      Returns (call n cfg (.func (.lambda id) ps r (some body) closure t) args pos)
        fun v => v.isError = true ∨ v.type.conformsTo r = true) := by
  refine ⟨fun n env E e henv he hE => ?_, fun fn pos args ps hargs hnames hlen => ?_,
    fun n id ps r body closure t args pos hf hargs => ?_⟩
  · refine ((engine_sound cfg n).eval henv he hE).mono fun v hv => ?_
    by_cases herr : v.isError = true
    · exact Or.inl herr
    · exact Or.inr (hv (by simpa using herr)).2
  · refine (bindArgs_extends fn pos hnames (by simp) hargs hlen).mono fun o ho f hf => ?_
    obtain ⟨extra, rfl, hextra⟩ := ho f hf
    exact (lookup_binds hextra hnames [] (by simp)).imp fun _ _ h => h.2
  · cases n with
    | zero => exact Returns.throw
    | succ n =>
      refine (callStep_lambda_fits (engine_sound cfg n) cfg pos hf hargs).mono fun v hv => ?_
      by_cases herr : v.isError = true
      · exact Or.inl herr
      · exact Or.inr (hv (by simpa using herr)).2

end Eval

end Retl
