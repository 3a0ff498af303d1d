import Retl.Proofs.BuiltinTyping
/-!
# The parts of an evaluation step keep the invariant

The helpers `step` and `callStep` are built from: operators, the links of a `let` chain,
the cases of a `match`, application to arguments, binding arguments to parameters and
the pairs of a dictionary literal. Each keeps the invariant when the engine it calls does.

Where a step tests a value it evaluated under `bool` or `int`, the branch for any other
value passes that value on; such a value is an error, because a value that fits `bool`
is a boolean and one that fits `int` is an integer.
-/

namespace Retl

open Eval

namespace Ty

theorem Admissible.of_hasUnknown {t : Ty} (h : t.hasUnknown = false) : t.Admissible :=
  Or.inr h

theorem Admissible.unknown : Ty.unknown.Admissible := Or.inl rfl

theorem Admissible.hasUnknown {t : Ty} (h : t.Admissible) (hu : t ≠ .unknown) :
    t.hasUnknown = false :=
  h.resolve_left hu

theorem Admissible.list {t : Ty} (h : (Ty.list t).Admissible) : t.Admissible := by
  rcases h with h | h
  · cases h
  · exact .of_hasUnknown (by simpa using h)

/-- The type the items after the first of a list or dictionary literal are evaluated
under, when the first was evaluated under `t` and gave `first`: an expected union stays,
and anything else gives way to the first item's type. -/
def fixedBy (t : Ty) (first : Value) : Ty :=
  match t with
  | .union _ => t
  | _ => first.type

/-- The key and value types a dictionary literal's first pair is evaluated under. -/
def dictParts (E : Ty) : Ty × Ty :=
  match E with
  | .dict a b => (a, b)
  | _ => (.unknown, .unknown)

theorem hasUnknown_of_mem {ts : List Ty} (h : anyUnknown ts = false) :
    ∀ t ∈ ts, t.hasUnknown = false := by
  induction ts with
  | nil => simp
  | cons t ts ih =>
    simp only [anyUnknown, Bool.or_eq_false_iff] at h
    intro t' ht'
    rcases List.mem_cons.mp ht' with rfl | ht'
    · exact h.1
    · exact ih h.2 t' ht'

/-- A value that is an error has type `unknown`, which evaluation may expect. -/
theorem admissible_type_of_good {v : Value} (h : v.Good) : v.type.Admissible := by
  by_cases hv : v.isError = true
  · cases v <;> simp_all [Admissible]
  · exact .of_hasUnknown (h (by simpa using hv)).type_ok

end Ty

namespace Value

theorem fits_of_isError {v : Value} (h : v.isError = true) (E : Ty) : v.Fits E := by
  intro h'
  rw [h] at h'
  cases h'

theorem good_of_isError {v : Value} (h : v.isError = true) : v.Good := by
  intro h'
  rw [h] at h'
  cases h'

/-- A value that fits `bool` and is not a boolean is an error. -/
theorem Fits.isError_of_not_bool {v : Value} (h : v.Fits .bool) (hv : ∀ b, v ≠ .bool b) :
    v.isError = true := by
  by_contra herr
  obtain ⟨b, rfl⟩ := h.bool (by simpa using herr)
  exact hv b rfl

/-- A value that fits `int` and is not an integer is an error. -/
theorem Fits.isError_of_not_int {v : Value} (h : v.Fits .int) (hv : ∀ n, v ≠ .int n) :
    v.isError = true := by
  by_contra herr
  obtain ⟨n, rfl⟩ := h.int (by simpa using herr)
  exact hv n rfl

theorem WellTyped.literalValue (l : Literal) : (Eval.literalValue l).WellTyped := by
  cases l <;> constructor

end Value

namespace Eval

theorem firstError_eq_none {vs : List Value} (h : firstError vs = none) :
    ∀ v ∈ vs, v.isError = false := by
  intro v hv
  simpa using List.find?_eq_none.mp h v hv

theorem firstError_eq_some {vs : List Value} {bad : Value} (h : firstError vs = some bad) :
    bad.isError = true :=
  List.find?_some h

/-- Values that are each good, with no error among them, are all well typed. -/
theorem wellTyped_of_firstError {vs : List Value} (hvs : ∀ v ∈ vs, v.Good)
    (h : firstError vs = none) : ∀ v ∈ vs, v.WellTyped :=
  fun v hv => hvs v hv (firstError_eq_none h v hv)

end Eval

namespace Operators

theorem intResult_good (name : String) (n : Int) : (intResult name n).Good := by
  unfold intResult
  split
  · exact Value.good_of_wellTyped (.int n)
  · exact Value.good_error _

theorem arithmetic_good (name : String) (f : Int → Int → Int) (divides : Bool) (a b : Value) :
    (arithmetic name f divides a b).Good := by
  unfold arithmetic
  split
  · split
    · exact Value.good_error _
    · exact intResult_good _ _
  · exact Value.good_error _

theorem compare_good (f : Ordering → Bool) (a b : Value) : (compare f a b).Good := by
  unfold compare
  split
  all_goals first
    | exact Value.good_of_wellTyped (.bool _)
    | exact Value.good_error _

theorem logical_good (name : String) (f : Bool → Bool → Bool) (a b : Value) :
    (logical name f a b).Good := by
  unfold logical
  split
  · exact Value.good_of_wellTyped (.bool _)
  · exact Value.good_error _

theorem concat_good {a b : Value} (ha : a.WellTyped) (hb : b.WellTyped) : (concat a b).Good := by
  unfold concat
  split
  · exact Value.good_of_wellTyped (.string _)
  split
  next xs tx ys ty hx hy =>
    dsimp only
    split
    · exact Value.good_error _
    next ht =>
      refine Value.good_of_wellTyped (.listOf (by simpa using ht) fun v hv => ?_)
      rcases List.mem_append.mp hv with hv | hv
      · exact (ha.asList? hx).1 v hv
      · exact (hb.asList? hy).1 v hv
  · exact Value.good_error _

theorem unary_good (op : PrimOp) (a : Value) : (unary op a).Good := by
  unfold unary
  split
  · exact intResult_good _ _
  all_goals first
    | exact Value.good_of_wellTyped (.bool _)
    | exact Value.good_error _

theorem binary_good (op : PrimOp) {a b : Value} (ha : a.WellTyped) (hb : b.WellTyped) :
    (binary op a b).Good := by
  cases op <;> simp only [binary]
  all_goals first
    | exact arithmetic_good _ _ _ a b
    | exact compare_good _ a b
    | exact logical_good _ _ a b
    | exact concat_good ha hb
    | exact Value.good_of_wellTyped (.bool _)
    | exact Value.good_error _

/-- Operators keep the invariant: on well-typed operands the outcome is good. -/
theorem apply_good (op : PrimOp) {a : Value} {b : Option Value} (ha : a.WellTyped)
    (hb : ∀ b', b = some b' → b'.WellTyped) : (apply op a b).Good := by
  cases b with
  | none => exact unary_good op a
  | some b => exact binary_good op ha (hb b rfl)

end Operators

theorem Expr.resolved_of_mem {es : List Expr} (h : Expr.resolvedAll es = true) :
    ∀ e ∈ es, e.resolved = true := by
  induction es with
  | nil => simp
  | cons e es ih =>
    simp only [Expr.resolvedAll, Bool.and_eq_true] at h
    intro e' he'
    rcases List.mem_cons.mp he' with rfl | he'
    · exact h.1
    · exact ih h.2 e' he'

theorem Expr.resolved_of_mem_entries {es : List (Tree.LitNode × Expr)}
    (h : Expr.resolvedEntries es = true) : ∀ p ∈ es, p.2.resolved = true := by
  induction es with
  | nil => simp
  | cons p es ih =>
    simp only [Expr.resolvedEntries, Bool.and_eq_true] at h
    intro p' hp'
    rcases List.mem_cons.mp hp' with rfl | hp'
    · exact h.1
    · exact ih h.2 p' hp'

theorem Env.Frame.mem_set {f : Frame} {name : String} {v : Value} {b : String × Value}
    (h : b ∈ Env.Frame.set f name v) : b ∈ f ∨ b = (name, v) := by
  unfold Env.Frame.set at h
  split at h
  · obtain ⟨b', hb', rfl⟩ := List.mem_map.mp h
    split
    · exact Or.inr rfl
    · exact Or.inl hb'
  · rcases List.mem_append.mp h with h | h
    · exact Or.inl h
    · exact Or.inr (List.mem_singleton.mp h)

namespace Eval

/-- Binding arguments gives an error value, or a frame of well-typed values: each argument
is retyped to the type it resolved to against its parameter's. -/
theorem bindArgs_good (fn : String) (pos : Position) {frame : Frame} {args : List Value}
    {ps : List (String × Ty)} (hframe : ∀ b ∈ frame, b.2.WellTyped) (hargs : ∀ a ∈ args, a.Good) :
    Returns (bindArgs fn pos frame args ps) fun r =>
      (∀ v, r = .error v → v.isError = true) ∧ ∀ f, r = .ok f → ∀ b ∈ f, b.2.WellTyped := by
  fun_induction bindArgs fn pos frame args ps with
  | case1 frame v vs name t ps herr =>
    refine Returns.pure ⟨fun v' hv' => ?_, fun f hf => (by cases hf)⟩
    cases hv'
    exact herr
  | case2 frame v vs name t ps herr r hr ih =>
    have hv := hargs v List.mem_cons_self (by simpa using herr)
    refine ih (fun b hb => ?_) fun a ha => hargs a (List.mem_cons_of_mem v ha)
    rcases Env.Frame.mem_set hb with hb | rfl
    · exact hframe b hb
    · exact (hv.retype hr).1
  | case3 frame v vs name t ps herr hr =>
    refine Returns.bind Returns.trivial fun _ _ => Returns.pure ⟨fun v' hv' => ?_, fun f hf => (by cases hf)⟩
    cases hv'
    rfl
  | case4 =>
    refine Returns.pure ⟨fun v hv => (by cases hv), fun f hf => ?_⟩
    cases hf
    exact hframe

/-- A binding of a parameter: its name, a well-typed value that conforms to its type. -/
def Binds (p : String × Ty) (b : String × Value) : Prop :=
  b.1 = p.1 ∧ b.2.WellTyped ∧ b.2.type.conformsTo p.2 = true

/-- Binding as many good arguments as there are parameters, whose names are distinct and new
to the frame, extends the frame by one binding per parameter, in order. -/
theorem bindArgs_extends (fn : String) (pos : Position) {frame : Frame} {args : List Value}
    {ps : List (String × Ty)} (hnames : (ps.map Prod.fst).Nodup)
    (hfresh : ∀ p ∈ ps, ∀ b ∈ frame, b.1 ≠ p.1) (hargs : ∀ a ∈ args, a.Good)
    (hlen : args.length = ps.length) :
    Returns (bindArgs fn pos frame args ps) fun r =>
      ∀ f, r = .ok f → ∃ extra, f = frame ++ extra ∧ List.Forall₂ Binds ps extra := by
  fun_induction bindArgs fn pos frame args ps with
  | case1 => exact Returns.pure fun f hf => by cases hf
  | case2 frame v vs name t ps herr r hr ih =>
    have hv := hargs v List.mem_cons_self (by simpa using herr)
    obtain ⟨hw, htype⟩ := hv.retype hr
    simp only [List.map_cons, List.nodup_cons] at hnames
    -- the name is new to the frame, so setting it appends the binding
    have hnew : (frame.any fun b => b.1 == name) = false := by
      rw [List.any_eq_false]
      intro b hb heq
      exact hfresh (name, t) List.mem_cons_self b hb (by simpa using heq)
    have hset : Env.Frame.set frame name (v.retype r) = frame ++ [(name, v.retype r)] := by
      unfold Env.Frame.set
      rw [hnew]
      rfl
    rw [hset] at ih ⊢
    refine Returns.mono (ih hnames.2 (fun p hp b hb => ?_) (fun a ha => hargs a
      (List.mem_cons_of_mem v ha)) (by simpa using hlen)) fun o ho f hf => ?_
    · rcases List.mem_append.mp hb with hb | hb
      · exact hfresh p (List.mem_cons_of_mem _ hp) b hb
      · rw [List.mem_singleton.mp hb]
        intro heq
        simp only at heq
        exact hnames.1 (heq ▸ List.mem_map_of_mem hp)
    · obtain ⟨extra, rfl, hextra⟩ := ho f hf
      refine ⟨(name, v.retype r) :: extra, by simp, .cons ⟨rfl, hw, ?_⟩ hextra⟩
      rw [htype]
      exact Ty.conformsTo_of_conform? hr
  | case3 => exact Returns.bind Returns.trivial fun _ _ => Returns.pure fun f hf => by cases hf
  | case4 args frame ps hno =>
    refine Returns.pure fun f hf => ⟨[], by cases hf; simp, ?_⟩
    cases ps with
    | nil => exact .nil
    | cons p ps =>
      cases args with
      | nil => simp at hlen
      | cons v vs => exact (hno v vs p.1 p.2 ps rfl rfl).elim

/-- Looking the parameters up in a frame that binds them after bindings of other names
gives the bound values, in the order of the parameters. -/
theorem lookup_binds {ps : List (String × Ty)} {extra : Frame} (h : List.Forall₂ Binds ps extra)
    (hnames : (ps.map Prod.fst).Nodup) (pre : Frame) (hpre : ∀ b ∈ pre, ∀ p ∈ ps, b.1 ≠ p.1) :
    List.Forall₂ (fun v p => v.WellTyped ∧ v.type.conformsTo p.2 = true)
      (ps.filterMap fun (n, _) => ((pre ++ extra).find? (·.1 == n)).map Prod.snd) ps := by
  induction h generalizing pre with
  | nil => exact .nil
  | @cons p b ps extra hb h ih =>
    simp only [List.map_cons, List.nodup_cons] at hnames
    have hfind : (pre ++ b :: extra).find? (·.1 == p.1) = some b := by
      rw [List.find?_append, List.find?_eq_none.mpr (fun b' hb' => by
        simpa using hpre b' hb' p List.mem_cons_self)]
      simp [hb.1]
    rw [List.filterMap_cons]
    simp only [hfind, Option.map_some]
    refine .cons ⟨hb.2.1, hb.2.2⟩ ?_
    have htail := ih hnames.2 (pre ++ [b]) fun b' hb' q hq => ?_
    · simpa using htail
    rcases List.mem_append.mp hb' with hb' | hb'
    · exact hpre b' hb' q (List.mem_cons_of_mem p hq)
    · rw [List.mem_singleton.mp hb', hb.1]
      exact fun heq => hnames.1 (heq ▸ List.mem_map_of_mem hq)

end Eval

/-- How a case meets a subject keeps the invariant: a matching case gives a well-typed
scope, and a guard that gives neither `true` nor `false` gives an error. -/
def CaseOutcome.Good : CaseOutcome → Prop
  | .matched env => env.WellTyped
  | .skipped => True
  | .failed g => g.isError = true

namespace Eval

section Engine

variable {k : Engine} (hk : k.Sound)
include hk

theorem walkBindings_wellTyped {env : Env} {e : Option Expr} (henv : env.WellTyped)
    (he : Expr.resolvedOpt e = true) :
    Returns (walkBindings k env e) fun r => r.2.WellTyped ∧ Expr.resolvedOpt r.1 = true := by
  fun_induction walkBindings k env e with
  | case1 env name t value next pos ih =>
    simp only [Expr.resolvedOpt, Expr.resolved, Bool.and_eq_true, Bool.or_eq_true, beq_iff_eq,
      Bool.not_eq_eq_eq_not, Bool.not_true] at he
    refine Returns.bind (hk.eval henv he.1.2 he.1.1) fun v hv => ?_
    exact ih v (henv.bind name hv.good) he.2
  | case2 env name t next pos ih =>
    exact ih henv (by simpa [Expr.resolvedOpt, Expr.resolved] using he)
  | case3 env e _ _ =>
    exact Returns.pure ⟨henv, he⟩

theorem tryCase_good {env : Env} {subject : Value} {c : Case} (henv : env.WellTyped)
    (hs : subject.WellTyped) (hc : c.resolved = true) :
    Returns (tryCase k env subject c) CaseOutcome.Good := by
  cases c with
  | any => exact Returns.pure henv
  | typed name t p pos =>
    have henv' := henv.bind name (Value.good_of_wellTyped hs)
    simp only [tryCase]
    split
    · exact Returns.pure trivial
    cases p with
    | none => exact Returns.pure henv'
    | some p =>
      have hp : p.resolved = true := by simpa [Case.resolved, Expr.resolvedOpt] using hc
      refine Returns.bind (hk.eval henv' hp (.of_hasUnknown rfl)) fun g hg => ?_
      split
      · exact Returns.pure henv'
      · exact Returns.pure trivial
      next hne₁ hne₂ =>
        refine Returns.pure (hg.isError_of_not_bool fun b hb => ?_)
        cases b
        · exact hne₂ hb
        · exact hne₁ hb
  | literal => exact Returns.pure (by split <;> trivial)
  | multi => exact Returns.pure (by split <;> trivial)
  | range =>
    refine Returns.pure ?_
    split
    · split <;> trivial
    · trivial

theorem matchCases_fits {env : Env} {E : Ty} {subject : Value} (pos : Position)
    (henv : env.WellTyped) (hs : subject.WellTyped) (hE : E.Admissible) :
    ∀ {cases : List (Case × Expr)}, Expr.resolvedCases cases = true →
      Returns (matchCases k env E subject pos cases) (Value.Fits E)
  | [], _ => fail_fits _ _ _
  | (c, body) :: rest, h => by
    simp only [Expr.resolvedCases, Bool.and_eq_true] at h
    simp only [matchCases]
    refine Returns.bind (tryCase_good hk henv hs h.1.1) fun o ho => ?_
    cases o with
    | matched env' => exact hk.eval ho h.1.2 hE
    | failed g => exact Returns.pure (Value.fits_of_isError ho E)
    | skipped => exact matchCases_fits pos henv hs hE h.2

theorem applyTo_fits {env : Env} {E : Ty} {callee : Value} {args : List Expr} (pos : Position)
    (henv : env.WellTyped) (hcallee : callee.WellTyped) (hargs : Expr.resolvedAll args = true) :
    Returns (applyTo k env E callee args pos) (Value.Fits E) := by
  have hres := Expr.resolved_of_mem hargs
  unfold applyTo
  split
  next s a =>
    refine Returns.bind (hk.eval henv (hres a (by simp)) (.of_hasUnknown rfl)) fun v hv => ?_
    split
    · split
      · exact conformValue_fits (Value.good_of_wellTyped (.char _)) E pos
      · exact fail_fits _ _ _
    next hne => exact Returns.pure (Value.fits_of_isError (hv.isError_of_not_int hne) E)
  case h_2 | h_3 =>
    have hes := (hcallee.asList? rfl).1
    refine Returns.bind (hk.eval henv (hres _ (List.mem_singleton_self _)) (.of_hasUnknown rfl))
      fun v hv => ?_
    split
    · split
      next x hx =>
        split at hx
        · exact conformValue_fits (Value.good_of_wellTyped (hes x (List.mem_of_getElem? hx))) E pos
        · cases hx
      · exact fail_fits _ _ _
    next hne => exact Returns.pure (Value.fits_of_isError (hv.isError_of_not_int hne) E)
  next ps t a =>
    cases hcallee with
    | dict hkt hvt hkeys hvals =>
    refine Returns.bind (hk.eval henv (hres a (by simp)) (.of_hasUnknown hkt)) fun key hkey => ?_
    split
    next herr => exact Returns.pure (Value.fits_of_isError herr E)
    split
    next k' v hfind =>
      have hmem := List.mem_of_find?_eq_some hfind
      exact conformValue_fits (Value.good_of_wellTyped (hvals _ hmem)) E pos
    next => exact fail_fits _ _ _
  next id params result body closure t =>
    cases hcallee with
    | func hlen hqs hs hps hr hbuiltin hbody hclosure =>
    split
    · exact fail_fits _ _ _
    refine Returns.bind (Returns.mapM_forall (Q := Value.Good) fun p hp => ?_) fun vs hvs => ?_
    · obtain ⟨a, n, t⟩ := p
      have hmem := List.of_mem_zip hp
      exact (hk.eval henv (hres a hmem.1) (.of_hasUnknown (hps _ hmem.2))).mono fun v hv => hv.good
    split
    next bad hbad => exact Returns.pure (Value.fits_of_isError (firstError_eq_some hbad) E)
    next =>
      have hf : (Value.func id params result body closure _).WellTyped :=
        .func hlen hqs hs hps hr hbuiltin hbody hclosure
      exact Returns.bind (hk.call hf hvs.2) fun r hr => conformValue_fits hr E pos
  next => exact fail_fits _ _ _

/-- A call keeps the invariant: the arguments are bound as well-typed values, a builtin runs
on them, and a function literal's body is evaluated under its declared result type in the
scope it captured. -/
theorem callStep_good (cfg : RunConfig) {f : Value} {args : List Value} (pos : Position)
    (hf : f.WellTyped) (hargs : ∀ a ∈ args, a.Good) :
    Returns (callStep k cfg f args pos) Value.Good := by
  unfold callStep
  split
  next id params result body closure t =>
    cases hf with
    | func hlen hqs hs hps hr hbuiltin hbody hclosure =>
    split
    · exact fail_good _ _
    refine Returns.bind (bindArgs_good _ pos (by simp) hargs) fun o ho => ?_
    split
    next v => exact Returns.pure (Value.good_of_isError (ho.1 v rfl))
    next frame =>
      have hframe := ho.2 frame rfl
      split
      next _ b =>
        refine Returns.bind Returns.trivial fun _ _ => Builtins.run_good hk b (fun a ha => ?_) pos
        obtain ⟨p, -, hp⟩ := List.mem_filterMap.mp ha
        obtain ⟨b', hb', rfl⟩ := Option.map_eq_some_iff.mp hp
        exact hframe b' (List.mem_of_find?_eq_some hb')
      next n body' =>
        have henv : Env.WellTyped (frame :: closure) :=
          Env.WellTyped.cons (fun b hb => Value.good_of_wellTyped (hframe b hb)) hclosure
        exact (hk.eval henv (hbody body' rfl) (.of_hasUnknown hr)).mono fun v hv => hv.good
      next => exact Returns.pure (Value.good_of_wellTyped .null)
  next => exact fail_good _ _

/-- The pairs after the first of a dictionary literal, evaluated under the key and value
types the first pair fixed, are good. -/
theorem dictRest_good {env : Env} (henv : env.WellTyped) {kt vt : Ty} (hkt : kt.Admissible)
    (hvt : vt.Admissible) {key val : Value} (hkey : key.Good) (hval : val.Good)
    (hkt' : key.isError = false → kt.hasUnknown = false)
    (hvt' : val.isError = false → vt.hasUnknown = false) {rest : List (Tree.LitNode × Expr)}
    (hrest : ∀ p ∈ rest, p.2.resolved = true) :
    Returns (do
        let others ← rest.mapM fun x => do
          let key ← k.eval env kt (.lit x.1.literal x.1.pos)
          let val ← k.eval env vt x.2
          pure (key, val)
        pure ((key, val) :: others, kt, vt)) fun r =>
      (∀ p ∈ r.1, p.1.Good ∧ p.2.Good) ∧
      ((∀ p ∈ r.1, p.1.isError = false) → r.2.1.hasUnknown = false) ∧
      ((∀ p ∈ r.1, p.2.isError = false) → r.2.2.hasUnknown = false) := by
  refine Returns.bind (Returns.mapM_forall (Q := fun p => p.1.Good ∧ p.2.Good) fun x hx => ?_)
    fun others hothers => ?_
  · refine Returns.bind (hk.eval henv (e := .lit x.1.literal x.1.pos) rfl hkt) fun key' hkey' => ?_
    refine Returns.bind (hk.eval henv (hrest x hx) hvt) fun val' hval' => ?_
    exact Returns.pure ⟨hkey'.good, hval'.good⟩
  refine Returns.pure ⟨fun p hp => ?_, fun h => hkt' (h _ List.mem_cons_self),
    fun h => hvt' (h _ List.mem_cons_self)⟩
  rcases List.mem_cons.mp hp with rfl | hp
  · exact ⟨hkey, hval⟩
  · exact hothers.2 p hp

/-- The pairs of a dictionary literal are good; when no key is an error, the key type they
fix has no `unknown` in it, and likewise for the values. The first pair fixes the types
unless the expected one is a union. -/
theorem dictPairs_good {env : Env} {kt vt : Ty} (henv : env.WellTyped) (hkt : kt.Admissible)
    (hvt : vt.Admissible) {pairs : List (Tree.LitNode × Expr)} (hpairs : pairs ≠ [])
    (hp : Expr.resolvedEntries pairs = true) :
    Returns (dictPairs k env kt vt pairs) fun r =>
      (∀ p ∈ r.1, p.1.Good ∧ p.2.Good) ∧
      ((∀ p ∈ r.1, p.1.isError = false) → r.2.1.hasUnknown = false) ∧
      ((∀ p ∈ r.1, p.2.isError = false) → r.2.2.hasUnknown = false) := by
  obtain ⟨⟨kn, ve⟩, rest, rfl⟩ := List.exists_cons_of_ne_nil hpairs
  have hres := Expr.resolved_of_mem_entries hp
  have hrest : ∀ p ∈ rest, p.2.resolved = true := fun p hp => hres p (List.mem_cons_of_mem _ hp)
  simp only [dictPairs]
  refine Returns.bind (hk.eval henv (e := .lit kn.literal kn.pos) rfl hkt) fun key hkey => ?_
  refine Returns.bind (hk.eval henv (hres _ List.mem_cons_self) hvt) fun val hval => ?_
  -- an expected union stays; otherwise the first key and value fix the types
  split <;> split
  · exact dictRest_good hk henv hkt hvt hkey.good hval.good
      (fun _ => hkt.hasUnknown (by simp)) (fun _ => hvt.hasUnknown (by simp)) hrest
  · exact dictRest_good hk henv hkt (Ty.admissible_type_of_good hval.good) hkey.good hval.good
      (fun _ => hkt.hasUnknown (by simp)) (fun h => (hval h).1.type_ok) hrest
  · exact dictRest_good hk henv (Ty.admissible_type_of_good hkey.good) hvt hkey.good hval.good
      (fun h => (hkey h).1.type_ok) (fun _ => hvt.hasUnknown (by simp)) hrest
  · exact dictRest_good hk henv (Ty.admissible_type_of_good hkey.good)
      (Ty.admissible_type_of_good hval.good) hkey.good hval.good
      (fun h => (hkey h).1.type_ok) (fun h => (hval h).1.type_ok) hrest

/-- A call of a function literal gives an outcome that fits its declared result type. -/
theorem callStep_lambda_fits (cfg : RunConfig) {n : Nat} {ps : List (String × Ty)} {r : Ty}
    {body : Expr} {closure : Env} {t : Ty} {args : List Value} (pos : Position)
    (hf : (Value.func (.lambda n) ps r (some body) closure t).WellTyped)
    (hargs : ∀ a ∈ args, a.Good) :
    Returns (callStep k cfg (.func (.lambda n) ps r (some body) closure t) args pos)
      (Value.Fits r) := by
  cases hf with
  | func hlen hqs hs hps hr hbuiltin hbody hclosure =>
  simp only [callStep]
  split
  · exact fail_fits _ _ _
  refine Returns.bind (bindArgs_good _ pos (by simp) hargs) fun o ho => ?_
  split
  next v => exact Returns.pure (Value.fits_of_isError (ho.1 v rfl) r)
  next frame =>
    have henv : Env.WellTyped (frame :: closure) :=
      Env.WellTyped.cons (fun b hb => Value.good_of_wellTyped (ho.2 frame rfl b hb)) hclosure
    exact hk.eval henv (hbody body rfl) (.of_hasUnknown hr)

end Engine

end Eval

end Retl
