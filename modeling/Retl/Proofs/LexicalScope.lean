import Retl.Proofs.TypeSafety
import Retl.Proofs.ElementTyping
/-!
# Calls are lexically scoped

A function literal evaluated in a scope `D` gives a new function that captures `D` and
nothing else: no name bound after it, not even the `let` that binds the function itself.
A call of it evaluates the body in one new frame on `D`, which binds each parameter to
its argument retyped as the argument's type conforms to the parameter's (`callFrame`),
under the declared result type. The scope of the call site plays no part in this: there
the arguments are evaluated, each under its parameter's type, and the call depends on
the call site only through what those evaluations give. A call with the wrong number of
arguments fails before any of them is evaluated.

Builtins reach the functions they are given (`map`, `filter`, `foldl`, `foldr`) only by
calling them (`run_uses_only_call`), so the same holds of the calls they make.
-/

namespace Retl

namespace Eval

/-- The frame a call binds: each parameter to its argument, retyped as the argument's type
conforms to the parameter's. A name given twice keeps its first place and its last value. -/
def callFrame (ps : List (String × Ty)) (vs : List Value) : Frame :=
  (ps.zip vs).foldl (fun frame (p, v) => Env.Frame.set frame p.1 (v.retype (v.type.unify p.2))) []

/-- Binding arguments that are no errors and conform to their parameters records nothing
and gives the frame each binding sets in turn. -/
theorem bindArgs_of_conforms (fn : String) (pos : Position) {frame : Frame} {vs : List Value}
    {ps : List (String × Ty)} (hvs : ∀ v ∈ vs, v.isError = false)
    (hc : List.Forall₂ (fun v p => v.type.conformsTo p.2 = true) vs ps) :
    bindArgs fn pos frame vs ps = pure (.ok ((ps.zip vs).foldl
      (fun frame (p, v) => Env.Frame.set frame p.1 (v.retype (v.type.unify p.2))) frame)) := by
  induction hc generalizing frame with
  | nil => rfl
  | @cons v p vs ps hv _ ih =>
    obtain ⟨name, t⟩ := p
    have herr : v.isError = false := hvs v List.mem_cons_self
    have hconf : v.type.conform? t = some (v.type.unify t) :=
      Ty.conform?_eq_some.mpr ⟨rfl, Ty.conformsTo_iff.mp hv⟩
    rw [bindArgs, if_neg (Bool.eq_false_iff.mp herr), hconf]
    exact ih fun w hw => hvs w (List.mem_cons_of_mem v hw)

/-- A call of a function literal on arguments that are no errors and conform to its
parameters evaluates its body in `callFrame` on the scope it captured, under its declared
result type. -/
theorem call_lambda (cfg : RunConfig) (n i : Nat) {ps : List (String × Ty)} {R : Ty}
    {body : Expr} {D : Env} {t : Ty} {vs : List Value} (pos : Position)
    (hvs : ∀ v ∈ vs, v.isError = false)
    (hc : List.Forall₂ (fun v p => v.type.conformsTo p.2 = true) vs ps) :
    call (n + 1) cfg (.func (.lambda i) ps R (some body) D t) vs pos =
      eval n cfg (callFrame ps vs :: D) R body := by
  have hlen : (vs.length != ps.length) = false := by simp [hc.length_eq]
  rw [call, callStep, if_neg (by simp [hlen]), bindArgs_of_conforms _ pos hvs hc, pure_bind]
  rfl

section Engine

variable {k : Engine} {i : Nat} {ps : List (String × Ty)} {R : Ty} {b : Option Expr} {D : Env}
  {t : Ty}

/-- A call with the wrong number of arguments fails at once: no argument is evaluated. -/
theorem applyTo_arity (env : Env) (E : Ty) {args : List Expr} (pos : Position)
    (hlen : args.length ≠ ps.length) :
    applyTo k env E (.func (.lambda i) ps R b D t) args pos =
      fail (arityMessage "lambda" ps.length args.length) pos := by
  simp only [applyTo, bne_iff_ne, ne_eq, hlen, not_false_eq_true, if_true]
  rfl

/-- A call evaluates its arguments in the scope of the call site, each under its
parameter's type; that scope plays no other part, so from one machine, two call sites
whose argument evaluations give the same values and the same machine give the same call. -/
theorem exec_applyTo_congr {env₁ env₂ : Env} (E : Ty) (args : List Expr) (pos : Position)
    {m : Machine}
    (hargs : ((args.zip ps).mapM fun p => k.eval env₁ p.2.2 p.1).exec m =
      ((args.zip ps).mapM fun p => k.eval env₂ p.2.2 p.1).exec m) :
    (applyTo k env₁ E (.func (.lambda i) ps R b D t) args pos).exec m =
      (applyTo k env₂ E (.func (.lambda i) ps R b D t) args pos).exec m := by
  by_cases hlen : args.length = ps.length
  · simp only [applyTo, bne_iff_ne, ne_eq, hlen, not_true_eq_false, if_false]
    rw [exec_bind, exec_bind, hargs]
  · rw [applyTo_arity env₁ E pos hlen, applyTo_arity env₂ E pos hlen]

/-- A call whose arguments evaluate, in the call site's scope, to values that are no errors
goes on, from the machine the arguments left, as the call on those values conformed to the
expected type. -/
theorem exec_applyTo_of_args (env : Env) (E : Ty) {args : List Expr} (pos : Position)
    {m m' : Machine} {vs : List Value} (hlen : args.length = ps.length)
    (hargs : ((args.zip ps).mapM fun p => k.eval env p.2.2 p.1).exec m = (.ok vs, m'))
    (hvs : ∀ v ∈ vs, v.isError = false) :
    (applyTo k env E (.func (.lambda i) ps R b D t) args pos).exec m =
      (k.call (.func (.lambda i) ps R b D t) vs pos >>= fun r => conformValue r E pos).exec m' := by
  have hnone : firstError vs = none :=
    List.find?_eq_none.mpr fun v hv => Bool.eq_false_iff.mp (hvs v hv)
  simp only [applyTo, bne_iff_ne, ne_eq, hlen, not_true_eq_false, if_false]
  rw [exec_bind]
  simp only [hargs, hnone]

/-- In a well-typed scope, resolved arguments evaluated each under its parameter's type, a
type with no `unknown` in it, give values that conform to the parameters wherever none of
them is an error. -/
theorem args_conform (hk : k.Sound) {env : Env} {args : List Expr} (henv : env.WellTyped)
    (hres : ∀ a ∈ args, a.resolved = true) (hps : ∀ q ∈ ps, q.2.hasUnknown = false)
    (hlen : args.length = ps.length) :
    Returns ((args.zip ps).mapM fun q => k.eval env q.2.2 q.1) fun vs =>
      (∀ v ∈ vs, v.isError = false) →
        List.Forall₂ (fun v q => v.type.conformsTo q.2 = true) vs ps := by
  refine (Returns.mapM (P := fun q v => v.Fits q.2.2) fun q hq => ?_).mono fun vs hvs hok => ?_
  · have hmem := List.of_mem_zip hq
    exact hk.eval henv (hres q.1 hmem.1) (.of_hasUnknown (hps q.2 hmem.2))
  -- each value sits against its pair of the zip, whose second parts are the parameters
  have hfits : List.Forall₂ (fun v q => v.Fits q.2) vs ps := by
    rw [← @List.map_snd_zip _ _ args ps hlen.ge]
    exact List.forall₂_map_right_iff.mpr (List.Forall₂.flip (R := fun (v : Value) (q : Expr × String × Ty) => v.Fits q.2.2) hvs)
  exact (List.forall₂_and_left vs ps |>.mpr ⟨hok, hfits⟩).imp fun v q h => (h.2 h.1).2

end Engine

/-- A function literal evaluated in a scope gives an error or a new function value that
captures that scope, its parameters, result type and body. -/
theorem eval_lam_captures (cfg : RunConfig) (n : Nat) (D : Env) (E : Ty)
    (ps : List (String × Ty)) (R : Ty) (body : Expr) (p : Position) :
    Returns (eval (n + 1) cfg D E (.lam ps R body p)) fun f =>
      f.isError = true ∨ ∃ i t, f = .func (.lambda i) ps R (some body) D t := by
  simp only [eval]
  unfold step
  refine Returns.bind Returns.trivial fun _ _ => ?_
  refine Returns.bind freshLambda_lambda fun id hid => ?_
  refine (conformValue_retype _ E p).mono fun w hw => ?_
  rcases hw with herr | rfl
  · exact Or.inl herr
  · cases id with
    | builtin b' => exact absurd rfl (hid b')
    | lambda i => exact Or.inr ⟨i, _, rfl⟩

/-- A builtin reaches the functions it is given only by calling them: it evaluates no
expression of its own, so its run depends on the engine only through `call`. -/
theorem run_uses_only_call (e₁ e₂ : Env → Ty → Expr → Eval Value)
    (c : Value → List Value → Position → Eval Value) (b : Builtin) (args : List Value)
    (pos : Position) :
    Builtins.run ⟨e₁, c⟩ b args pos = Builtins.run ⟨e₂, c⟩ b args pos :=
  rfl

/-- Calls are lexically scoped. A function literal evaluated in a scope `D` gives an error
or a function that captures `D`. A call of that function with the wrong number of
arguments fails before evaluating any of them. Otherwise the arguments are evaluated in
the scope of the call site, each under its parameter's type, and that scope matters only
through what they give: when they give values that are no errors, the call goes on as the
call on those values, conformed to the expected type. In a well-typed scope, with resolved
arguments and parameter types with no `unknown` in them, those values conform to the
parameters, and the call evaluates the body in `callFrame` on `D` under the declared result
type. Every call of the function on conforming values runs its body so, also from a
builtin, which reaches the function only through `call`. -/
theorem calls_are_lexically_scoped (cfg : RunConfig) (n : Nat) (D : Env)
    (ps : List (String × Ty)) (R : Ty) (body : Expr) :
    (∀ E p, Returns (eval (n + 1) cfg D E (.lam ps R body p)) fun f =>
      f.isError = true ∨ ∃ i t, f = .func (.lambda i) ps R (some body) D t) ∧
    ∀ i t, let f := Value.func (.lambda i) ps R (some body) D t
      (∀ C E (args : List Expr) pos, args.length ≠ ps.length →
        applyTo ⟨eval (n + 1) cfg, call (n + 1) cfg⟩ C E f args pos =
          fail (arityMessage "lambda" ps.length args.length) pos) ∧
      (∀ C₁ C₂ E (args : List Expr) pos m,
        ((args.zip ps).mapM fun q => eval (n + 1) cfg C₁ q.2.2 q.1).exec m =
          ((args.zip ps).mapM fun q => eval (n + 1) cfg C₂ q.2.2 q.1).exec m →
        (applyTo ⟨eval (n + 1) cfg, call (n + 1) cfg⟩ C₁ E f args pos).exec m =
          (applyTo ⟨eval (n + 1) cfg, call (n + 1) cfg⟩ C₂ E f args pos).exec m) ∧
      (∀ C E (args : List Expr) pos m vs m', args.length = ps.length →
        ((args.zip ps).mapM fun q => eval (n + 1) cfg C q.2.2 q.1).exec m = (.ok vs, m') →
        (∀ v ∈ vs, v.isError = false) →
        (applyTo ⟨eval (n + 1) cfg, call (n + 1) cfg⟩ C E f args pos).exec m =
          (call (n + 1) cfg f vs pos >>= fun r => conformValue r E pos).exec m') ∧
      (∀ C E (args : List Expr) pos m vs m', C.WellTyped → (∀ a ∈ args, a.resolved = true) →
        (∀ q ∈ ps, q.2.hasUnknown = false) → args.length = ps.length →
        ((args.zip ps).mapM fun q => eval (n + 1) cfg C q.2.2 q.1).exec m = (.ok vs, m') →
        (∀ v ∈ vs, v.isError = false) →
        List.Forall₂ (fun v q => v.type.conformsTo q.2 = true) vs ps ∧
        (applyTo ⟨eval (n + 1) cfg, call (n + 1) cfg⟩ C E f args pos).exec m =
          (eval n cfg (callFrame ps vs :: D) R body >>= fun r => conformValue r E pos).exec m') ∧
      (∀ vs pos, (∀ v ∈ vs, v.isError = false) →
        List.Forall₂ (fun v q => v.type.conformsTo q.2 = true) vs ps →
        call (n + 1) cfg f vs pos = eval n cfg (callFrame ps vs :: D) R body) ∧
      (∀ e b args pos, Builtins.run ⟨e, call (n + 1) cfg⟩ b args pos =
        Builtins.run ⟨eval (n + 1) cfg, call (n + 1) cfg⟩ b args pos) := by
  refine ⟨fun E p => eval_lam_captures cfg n D E ps R body p,
    fun i t => ⟨?_, ?_, ?_, ?_, ?_, ?_⟩⟩
  · intro C E args pos hlen
    exact applyTo_arity C E pos hlen
  · intro C₁ C₂ E args pos m hargs
    exact exec_applyTo_congr E args pos hargs
  · intro C E args pos m vs m' hlen hargs hvs
    exact exec_applyTo_of_args C E pos hlen hargs hvs
  · intro C E args pos m vs m' hC hres hps hlen hargs hvs
    have hc := args_conform (engine_sound cfg (n + 1)) hC hres hps hlen m vs m' hargs hvs
    refine ⟨hc, ?_⟩
    rw [exec_applyTo_of_args C E pos hlen hargs hvs]
    -- the call site's engine calls one level down, where the body runs
    show (call (n + 1) cfg (.func (.lambda i) ps R (some body) D t) vs pos >>= fun r =>
      conformValue r E pos).exec m' = _
    rw [call_lambda cfg n i pos hvs hc]
  · intro vs pos hvs hc
    exact call_lambda cfg n i pos hvs hc
  · intro e b args pos
    exact run_uses_only_call e _ _ b args pos

end Eval

end Retl
