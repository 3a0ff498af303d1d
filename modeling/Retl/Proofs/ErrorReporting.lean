import Retl.Proofs.BuiltinReporting
import Retl.Proofs.StepTyping
/-!
# No silent failure

Evaluation never gives an error value without saying why. Run in a scope from which no
error can be reached, every evaluation step either gives a clean value or records a
diagnostic on the way; a function call does the same when the function and its arguments
are clean. The proof is one pass over the forms of the interpreter: every error value is
made next to the diagnostic that reports it (a failure, a mismatch at a boundary, an
operator that does not apply, an argument that does not conform, a halt reported at the
root), and every other result is built from clean parts.

A `let` chain binds even the errors of its links, so the scope the rest of the chain sees
may be unclean; but then the link that gave the error recorded a diagnostic, and the
blame passes on to everything after it.

Consequently a program run from the root scope gives an error value only with a
diagnostic, and an interactive session, which keeps a line's bindings only when the
line recorded nothing, never binds an error.
-/

namespace Retl

open Eval

namespace Operators

theorem intResult_reported (name : String) (n : Int) :
    (intResult name n).Clean ∨ (intResult name n).isError = true := by
  unfold intResult
  split
  · exact Or.inl (.int n)
  · exact Or.inr rfl

theorem arithmetic_reported (name : String) (f : Int → Int → Int) (divides : Bool)
    (a b : Value) :
    (arithmetic name f divides a b).Clean ∨ (arithmetic name f divides a b).isError = true := by
  unfold arithmetic
  split
  · split
    · exact Or.inr rfl
    · exact intResult_reported _ _
  · exact Or.inr rfl

theorem compare_reported (f : Ordering → Bool) (a b : Value) :
    (compare f a b).Clean ∨ (compare f a b).isError = true := by
  unfold compare
  split
  all_goals first
    | exact Or.inl (.bool _)
    | exact Or.inr rfl

theorem logical_reported (name : String) (f : Bool → Bool → Bool) (a b : Value) :
    (logical name f a b).Clean ∨ (logical name f a b).isError = true := by
  unfold logical
  split
  · exact Or.inl (.bool _)
  · exact Or.inr rfl

theorem concat_reported {a b : Value} (ha : a.Clean) (hb : b.Clean) :
    (concat a b).Clean ∨ (concat a b).isError = true := by
  unfold concat
  split
  · exact Or.inl (.string _)
  split
  next xs tx ys ty hx hy =>
    dsimp only
    split
    · exact Or.inr rfl
    · refine Or.inl (.listOf (fun v hv => ?_) _)
      rcases List.mem_append.mp hv with hv | hv
      · exact ha.asList? hx v hv
      · exact hb.asList? hy v hv
  · exact Or.inr rfl

theorem unary_reported (op : PrimOp) (a : Value) :
    (unary op a).Clean ∨ (unary op a).isError = true := by
  unfold unary
  split
  · exact intResult_reported _ _
  all_goals first
    | exact Or.inl (.bool _)
    | exact Or.inr rfl

theorem apply_reported (op : PrimOp) {a : Value} {b : Option Value} (ha : a.Clean)
    (hb : ∀ b', b = some b' → b'.Clean) :
    (apply op a b).Clean ∨ (apply op a b).isError = true := by
  cases b with
  | none => exact unary_reported op a
  | some b =>
    have hb' := hb b rfl
    simp only [apply]
    cases op <;> simp only [binary]
    all_goals first
      | exact arithmetic_reported _ _ _ a b
      | exact compare_reported _ a b
      | exact logical_reported _ _ a b
      | exact concat_reported ha hb'
      | exact Or.inl (.bool _)
      | exact Or.inr rfl

end Operators

theorem Eval.literalValue_clean (l : Literal) : (literalValue l).Clean := by
  cases l <;> constructor

/-- What a case of a `match` gives is clean: the scope a matching case binds, or the value of
a guard that failed. -/
def CaseOutcome.Clean : CaseOutcome → Prop
  | .matched env => env.Clean
  | .skipped => True
  | .failed g => g.Clean

/-- What binding arguments gives is clean: the frame, or the outcome it stops with. -/
def ArgsOutcome.Clean : Except Value Frame → Prop
  | .ok frame => ∀ b ∈ frame, b.2.Clean
  | .error v => v.Clean

namespace Eval

theorem bindArgs_blames (fn : String) (pos : Position) (frame : Frame) (args : List Value)
    (ps : List (String × Ty)) :
    Blames (bindArgs fn pos frame args ps)
      (¬((∀ b ∈ frame, b.2.Clean) ∧ ∀ a ∈ args, a.Clean)) ArgsOutcome.Clean := by
  fun_induction bindArgs fn pos frame args ps with
  | case1 frame v vs name t ps herr =>
    refine Blames.pure_of fun hB => ?_
    exact (not_not.mp hB).2 v List.mem_cons_self
  | case2 frame v vs name t ps herr r hr ih =>
    refine ih.weaken (fun h hin => h ⟨fun b hb => ?_, fun a ha => hin.2 a (List.mem_cons_of_mem v ha)⟩)
    rcases Env.Frame.mem_set hb with hb | rfl
    · exact hin.1 b hb
    · exact (hin.2 v List.mem_cons_self).retype r
  | case3 frame v vs name t ps herr hr =>
    exact Blames.record_bind (C := True) (Blames.pure_of fun _ => True.intro)
  | case4 =>
    refine Blames.pure_of fun hB => ?_
    exact (not_not.mp hB).1

section Engine

variable {k : Engine} (hk : k.Honest)
include hk

/-- The links of a `let` chain give a scope whose new bindings are the links' values: an
unclean one was reported by the link that gave it. -/
theorem walkBindings_blames (env : Env) (e : Option Expr) :
    Blames (walkBindings k env e) (¬env.Clean) fun r => r.2.Clean := by
  fun_induction walkBindings k env e with
  | case1 env name t value next pos ih =>
    refine (hk.eval env t value).bind fun v => ?_
    refine (ih v).weaken_of fun hno => ?_
    -- the scope after this link is unclean only if the scope before it or its value is
    simp only [not_or, not_not] at hno
    exact hno.1.bind name hno.2
  | case2 env name t next pos ih => exact ih
  | case3 env e hbind halias =>
    exact Blames.pure_of fun hB => not_not.mp hB

theorem tryCase_blames (env : Env) (subject : Value) (c : Case) :
    Blames (tryCase k env subject c) (¬(env.Clean ∧ subject.Clean)) CaseOutcome.Clean := by
  cases c with
  | any => exact Blames.pure_of fun hB => (not_not.mp hB).1
  | typed name t p pos =>
    simp only [tryCase]
    split
    · exact Blames.pure_of fun _ => trivial
    cases p with
    | none =>
      refine Blames.pure_of fun hB => ?_
      have hin := not_not.mp hB
      exact hin.1.bind name hin.2
    | some p =>
      refine ((hk.eval _ .bool p).weaken (fun h hin => h (hin.1.bind name hin.2))).bind fun g => ?_
      split
      · refine Blames.pure_of fun hB => ?_
        simp only [not_or, not_not, imp_false] at hB
        exact hB.1.1.bind name hB.1.2
      · exact Blames.pure_of fun _ => trivial
      · exact Blames.pure fun h => Or.inr h
  | literal ln pos =>
    refine Blames.pure_of fun hB => ?_
    split
    · exact (not_not.mp hB).1
    · trivial
  | multi lits pos =>
    refine Blames.pure_of fun hB => ?_
    split
    · exact (not_not.mp hB).1
    · trivial
  | range lo hi pos =>
    refine Blames.pure_of fun hB => ?_
    split
    · split
      · exact (not_not.mp hB).1
      · trivial
    · trivial

theorem matchCases_blames (env : Env) (E : Ty) (subject : Value) (pos : Position) :
    ∀ cases : List (Case × Expr),
      Blames (matchCases k env E subject pos cases) (¬(env.Clean ∧ subject.Clean)) Value.Clean
  | [] => fail_blames _ _
  | (c, body) :: rest => by
    simp only [matchCases]
    refine (tryCase_blames hk env subject c).bind fun o => ?_
    cases o with
    | matched env' => exact (hk.eval env' E body).weaken Or.inr
    | failed g => exact Blames.pure fun h => Or.inr h
    | skipped =>
      exact (matchCases_blames env E subject pos rest).weaken Or.inl

theorem applyTo_blames (env : Env) (E : Ty) (callee : Value) (args : List Expr)
    (pos : Position) :
    Blames (applyTo k env E callee args pos) (¬(env.Clean ∧ callee.Clean)) Value.Clean := by
  unfold applyTo
  split
  next s a =>
    refine ((hk.eval env .int a).weaken (fun h hin => h hin.1)).bind fun v => ?_
    split
    · split
      · exact (conformValue_blames _ E pos).weaken_of fun _ => .char _
      · exact fail_blames _ _
    · exact Blames.pure fun h => Or.inr h
  case h_2 | h_3 =>
    refine ((hk.eval env .int _).weaken (fun h hin => h hin.1)).bind fun v => ?_
    split
    · split
      next x hx =>
        split at hx
        · -- an element of a clean list or table is clean
          refine (conformValue_blames x E pos).weaken_of fun hno => ?_
          simp only [not_or, not_not, imp_false] at hno
          exact hno.1.2.asList? rfl x (List.mem_of_getElem? hx)
        · cases hx
      · exact fail_blames _ _
    · exact Blames.pure fun h => Or.inr h
  next ps t a =>
    refine ((hk.eval env _ a).weaken (fun h hin => h hin.1)).bind fun key => ?_
    split
    · exact Blames.pure fun h => Or.inr h
    split
    next k' v hfind =>
      refine (conformValue_blames v E pos).weaken_of fun hno => ?_
      simp only [not_or, not_not, imp_false] at hno
      obtain ⟨⟨-, hdict⟩, -⟩ := hno
      cases hdict with
      | dict _ hvals => exact hvals _ (List.mem_of_find?_eq_some hfind)
    next => exact fail_blames _ _
  next id params result body closure t =>
    split
    · exact fail_blames _ _
    refine (Blames.mapM_forall (Q := Value.Clean) fun p _ => ?_).bind fun vs => ?_
    · exact (hk.eval env p.2.2 p.1).weaken (fun h hin => h hin.1)
    split
    next bad hbad =>
      refine Blames.pure_of fun hB => ?_
      simp only [not_or, not_not] at hB
      exact hB.2.2 bad (List.mem_of_find?_eq_some hbad)
    next =>
      refine ((hk.call _ vs pos).weaken_of fun hno => ?_).bind fun r => ?_
      · simp only [not_or, not_not] at hno
        exact ⟨hno.1.2, hno.2.2⟩
      · exact (conformValue_blames r E pos).weaken Or.inr
  next => exact fail_blames _ _

/-- A call is blamed on its function or its arguments: the arguments are bound as they are,
a builtin runs on them and a function literal's body runs in the scope it captured. -/
theorem callStep_blames (cfg : RunConfig) (f : Value) (args : List Value) (pos : Position) :
    Blames (callStep k cfg f args pos) (¬(f.Clean ∧ ∀ a ∈ args, a.Clean)) Value.Clean := by
  unfold callStep
  split
  next id params result body closure t =>
    split
    · exact fail_blames _ _
    refine ((bindArgs_blames _ pos [] args params).weaken (fun h hin => h ⟨by simp, hin.2⟩)).bind fun o => ?_
    split
    next v => exact Blames.pure fun h => Or.inr h
    next frame =>
      split
      next _ b =>
        refine Blames.bind_grows (trace_blames cfg _) fun _ => ?_
        refine (Builtins.run_blames hk b _ pos).weaken_of fun hno a ha => ?_
        -- the builtin's arguments are looked up in the frame
        simp only [not_or, not_not, imp_false] at hno
        obtain ⟨p, -, hp⟩ := List.mem_filterMap.mp ha
        obtain ⟨b', hb', rfl⟩ := Option.map_eq_some_iff.mp hp
        exact hno.2 b' (List.mem_of_find?_eq_some hb')
      next n body' =>
        refine (hk.eval _ result body').weaken_of fun hno => ?_
        simp only [not_or, not_not, imp_false] at hno
        obtain ⟨⟨hf, -⟩, hframe⟩ := hno
        cases hf with
        | func hclosure => exact Env.Clean.cons hframe hclosure
      next => exact Blames.pure_of fun _ => .null
  next => exact fail_blames _ _

theorem dictPairs_blames (env : Env) (kt vt : Ty) (pairs : List (Tree.LitNode × Expr)) :
    Blames (dictPairs k env kt vt pairs) (¬env.Clean) fun r => ∀ p ∈ r.1, p.1.Clean ∧ p.2.Clean := by
  cases pairs with
  | nil => exact Blames.pure_of fun _ => by simp
  | cons p rest =>
    obtain ⟨kn, ve⟩ := p
    simp only [dictPairs]
    refine (hk.eval env kt _).bind fun key => ?_
    refine ((hk.eval env vt ve).weaken Or.inl).bind fun val => ?_
    refine (Blames.mapM_forall (Q := fun p => p.1.Clean ∧ p.2.Clean) fun x _ => ?_).bind
      fun others => ?_
    · refine ((hk.eval env _ _).weaken (fun h => Or.inl (Or.inl h))).bind fun key' => ?_
      refine ((hk.eval env _ x.2).weaken (fun h => Or.inl (Or.inl (Or.inl h)))).bind
        fun val' => Blames.pure_of fun hB => ?_
      simp only [not_or, not_not] at hB
      exact ⟨hB.1.2, hB.2⟩
    · refine Blames.pure_of fun hB => ?_
      simp only [not_or, not_not] at hB
      intro q hq
      rcases List.mem_cons.mp hq with rfl | hq
      · exact ⟨hB.1.1.2, hB.1.2⟩
      · exact hB.2.2 q hq

/-- One step of evaluation reports what goes wrong: in a clean scope it gives a clean value
or records a diagnostic. -/
theorem step_blames (cfg : RunConfig) (env : Env) (E : Ty) (e : Expr) :
    Blames (step k cfg env E e) (¬env.Clean) Value.Clean := by
  unfold step
  refine Blames.bind_grows (trace_blames cfg _) fun _ => ?_
  cases e with
  | lit l pos =>
    exact (conformValue_blames _ E pos).weaken_of fun _ => literalValue_clean l
  | bind name t value next pos | aliasType name t next pos =>
    refine (walkBindings_blames hk env _).bind fun r => ?_
    split
    next rest env' => exact (hk.eval env' E rest).weaken Or.inr
    next => exact (conformValue_blames _ E pos).weaken_of fun _ => .null
  | lam params result body pos =>
    refine Blames.bind_grows freshLambda_blames fun id => ?_
    exact (conformValue_blames _ E pos).weaken (fun h hin => h (.func hin))
  | apply callee args pos =>
    refine (hk.eval env .unknown callee).bind fun f => ?_
    split
    · exact Blames.pure fun h => Or.inr h
    · refine (applyTo_blames hk env E f args pos).weaken_of fun hno => ?_
      simpa only [not_or, not_not] using hno
  | matchOn subject cases pos =>
    refine (hk.eval env .unknown subject).bind fun s => ?_
    split
    · exact Blames.pure fun h => Or.inr h
    · refine (matchCases_blames hk env E s pos cases).weaken_of fun hno => ?_
      simpa only [not_or, not_not] using hno
  | prim op left right pos =>
    dsimp only
    refine (hk.eval env .unknown left).bind fun l => ?_
    -- the right operand, when there is one, is clean or blamed
    split
    all_goals refine Blames.bind (P := fun r => ∀ b, r = some b → b.Clean) ?_ fun r => ?_
    · refine ((hk.eval env .unknown _).weaken Or.inl).map
        fun v hv b hb => ?_
      cases hb
      exact hv
    pick_goal 2
    · exact Blames.pure_of fun _ b hb => by cases hb
    all_goals
      split
      next bad hbad =>
        refine Blames.pure_of fun hB => ?_
        simp only [not_or, not_not] at hB
        rcases List.mem_cons.mp (List.mem_of_find?_eq_some hbad) with rfl | hmem
        · exact hB.1.2
        · exact hB.2 bad (by simpa using hmem)
      next hnone =>
        -- an operator's error is recorded where it is made
        split
        · exact Blames.record_bind (C := True) (conformValue_blames _ E pos).forget
        next hne =>
          refine (conformValue_blames _ E pos).weaken_of fun hno => ?_
          simp only [not_or, not_not] at hno
          rcases Operators.apply_reported op hno.1.2 hno.2 with hv | hv
          · exact hv
          · cases hop : Operators.apply op l r with
            | error m => exact absurd hop (hne m)
            | _ => rw [hop] at hv; cases hv
  | ref name pos =>
    simp only
    split
    next v hv => exact (conformValue_blames v E pos).weaken (fun h hin => h (hin.lookup hv))
    next => exact fail_blames _ _
  | branch c t e pos =>
    dsimp only
    -- a mismatch of the two branches' static types is only reported
    refine Blames.ite (Blames.bind_grows (Blames.record _ _ _) fun _ => ?_) ?_
    all_goals
      refine (hk.eval env .bool c).bind fun v => ?_
      split
      · exact (hk.eval env E t).weaken Or.inl
      · split
        next e' => exact (hk.eval env E e').weaken Or.inl
        next => exact (conformValue_blames _ E pos).weaken_of fun _ => .null
      · exact Blames.pure fun h => Or.inr h
  | iter name iterable body pos =>
    dsimp only
    refine (hk.eval env .unknown iterable).bind fun it => ?_
    split
    · exact Blames.pure fun h => Or.inr h
    split
    · exact fail_blames _ _
    · refine Blames.bind_grows (Blames.forM fun x _ => (hk.eval _ _ body).discard) fun _ => ?_
      exact (conformValue_blames _ E pos).weaken_of fun _ => .null
  | list es pos =>
    dsimp only
    split
    · exact (conformValue_blames _ E pos).weaken_of fun _ => .listOf (by simp) _
    next e rest =>
      refine (hk.eval env _ e).bind fun first => ?_
      refine (Blames.mapM_forall (Q := Value.Clean) fun x _ =>
        (hk.eval env _ x).weaken Or.inl).bind fun others => ?_
      split
      next bad hbad =>
        refine Blames.pure_of fun hB => ?_
        simp only [not_or, not_not] at hB
        rcases List.mem_cons.mp (List.mem_of_find?_eq_some hbad) with rfl | hmem
        · exact hB.1.2
        · exact hB.2.2 bad hmem
      next =>
        refine (conformValue_blames _ E pos).weaken_of fun hno => .listOf (fun x hx => ?_) _
        simp only [not_or, not_not] at hno
        rcases List.mem_cons.mp hx with rfl | hx
        · exact hno.1.2
        · exact hno.2.2 x hx
  | tuple es pos =>
    dsimp only
    refine (Blames.mapM_forall (Q := Value.Clean) fun p _ =>
      hk.eval env p.2 p.1).bind fun vs => ?_
    split
    next bad hbad =>
      refine Blames.pure_of fun hB => ?_
      simp only [not_or, not_not] at hB
      exact hB.2.2 bad (List.mem_of_find?_eq_some hbad)
    next =>
      refine (conformValue_blames _ E pos).weaken_of fun hno => ?_
      simp only [not_or, not_not] at hno
      exact .tupleOf hno.2.2
  | access target index pos =>
    refine (hk.eval env .unknown target).bind fun v => ?_
    split
    next vs t =>
      split
      next x hx =>
        refine (conformValue_blames x E pos).weaken_of fun hno => ?_
        simp only [not_or, not_not] at hno
        cases hno.2 with
        | tuple hes => exact hes x (List.mem_of_getElem? hx)
      next => exact fail_blames _ _
    next m => exact Blames.pure fun h => Or.inr h
    next => exact fail_blames _ _
  | dict pairs pos =>
    dsimp only
    split
    · split
      all_goals
        exact (conformValue_blames _ _ pos).weaken_of fun _ => .dict (by simp) (by simp)
    next hne =>
      split
      all_goals
        refine (dictPairs_blames hk env _ _ pairs).bind fun r => ?_
        split
        next bad hbad =>
          refine Blames.pure_of fun hB => ?_
          simp only [not_or, not_not] at hB
          obtain ⟨p, hp, hmem⟩ := List.mem_flatMap.mp (List.mem_of_find?_eq_some hbad)
          simp only [List.mem_cons, List.not_mem_nil, or_false] at hmem
          rcases hmem with rfl | rfl
          · exact (hB.2 p hp).1
          · exact (hB.2 p hp).2
        next =>
          refine (conformValue_blames _ _ pos).weaken_of fun hno => ?_
          simp only [not_or, not_not] at hno
          exact .dict (fun p hp => (hno.2 p hp).1) fun p hp => (hno.2 p hp).2
  | schema columns pos =>
    exact (conformValue_blames _ E pos).weaken_of fun _ => .schema _
  | empty pos => exact (conformValue_blames _ E pos).weaken_of fun _ => .null

end Engine

theorem engine_honest (cfg : RunConfig) : ∀ n, Engine.Honest ⟨eval n cfg, call n cfg⟩
  | 0 => ⟨fun _ _ _ => Blames.throw, fun _ _ _ => Blames.throw⟩
  | n + 1 =>
    have hk := engine_honest cfg n
    ⟨fun env E e => step_blames hk cfg env E e, fun f args pos => callStep_blames hk cfg f args pos⟩

theorem reportHalt_blames (root : Expr) (h : Halt) {B : Prop} :
    Blames (reportHalt root h) B Value.Clean :=
  Blames.record_bind (C := True) (Blames.pure_of fun _ => True.intro)

theorem runProgram_blames (cfg : RunConfig) (env : Env) (e : Expr) :
    Blames (runProgram cfg env e) (¬env.Clean) Value.Clean :=
  Blames.tryCatch ((engine_honest cfg cfg.depth).eval env .unknown e) fun h => reportHalt_blames e h

/-- A run never halts: a halt is reported at the root and becomes the run's error value. -/
theorem runProgram_never_halts (cfg : RunConfig) (env : Env) (e : Expr) (m : Machine) (h : Halt)
    (m' : Machine) : (runProgram cfg env e).exec m ≠ (.error h, m') := by
  unfold runProgram
  rw [exec_tryCatch]
  rcases hrun : ((topEngine cfg).eval env .unknown e).exec m with ⟨_ | v, m₁⟩
  · intro hexec
    cases hexec
  · intro hexec
    cases hexec

theorem runTopLevel_blames (cfg : RunConfig) (env : Env) (e : Expr) :
    Blames (runTopLevel cfg env e) (¬env.Clean) fun r => r.1.Clean ∧ r.2.Clean := by
  have hk := engine_honest cfg cfg.depth
  unfold runTopLevel
  refine Blames.tryCatch ?_ fun h => ?_
  · refine (walkBindings_blames hk env (some e)).bind fun r => ?_
    split
    next env' =>
      refine Blames.pure_of fun hB => ?_
      simp only [not_or, not_not] at hB
      exact ⟨.null, hB.2⟩
    next rest env' =>
      refine ((hk.eval env' .unknown rest).weaken Or.inr).bind
        fun v => Blames.pure_of fun hB => ?_
      simp only [not_or, not_not] at hB
      exact ⟨hB.2, hB.1.2⟩
  · exact (reportHalt_blames e h).bind fun v => Blames.pure_of fun hB => by
      simp only [not_or, not_not] at hB
      exact ⟨hB.2, hB.1⟩

end Eval

/-- A run of a program text gives an error value, or any value from which an error can be
reached, only together with a diagnostic. -/
theorem runSource_reports {lim : Limits} {file text : String} {debug : Bool} {m m' : Machine}
    {v : Value} (h : runSource lim file text debug m = (some v, m')) (hv : ¬v.Clean) :
    0 < m'.diagnostics.size := by
  unfold runSource at h
  dsimp only at h
  split at h
  · simp at h
  split at h
  next e aliases hresult =>
    split at h
    · split at h
      next v' m₁ hexec =>
        simp only [Prod.mk.injEq, Option.some.injEq] at h
        obtain ⟨rfl, rfl⟩ := h
        -- evaluation starts from the root scope, which is clean
        rcases (runProgram_blames _ _ _).2 _ _ _ hexec hv with hroot | hlt
        · exact absurd Env.clean_root hroot
        · exact Nat.lt_of_le_of_lt (Nat.zero_le _) hlt
      next h' m₁ hexec => exact absurd hexec (runProgram_never_halts _ _ _ _ _ _)
    · simp at h
  · simp at h

end Retl
