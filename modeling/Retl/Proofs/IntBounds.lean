import Retl.Proofs.RunInvariant
import Retl.Proofs.StepSimulation
import Retl.Proofs.QuietAnalysis
import Retl.Proofs.CsvRoundTrip
/-!
# Integers stay within 32 bits

Every integer a run holds fits in 32 bits, signed, as long as every sequence it holds has
fewer than `2^31` items. That is the invariant `int32Inv`. Its places of making keep it:
literals are checked before a run (by analysis), arithmetic and negation give an overflow
error for a result outside 32 bits, `stringToInt` and `readCSV` refuse a number outside
them, a range's elements lie between its ends, and a length is the number of items of a
sequence.

The bound on sequences is an assumption about the run, not a fact evaluation keeps: `++`,
`range` and reading input can build longer ones. The runs that keep it are those of
`evalShort`, the evaluator that gives up, as when out of depth, as soon as a step gives a
value holding a longer sequence. It keeps the invariant at every depth
(`Eval.engine_keeps_int32`), and it runs like `eval` wherever it does not give up
(`Eval.engineSame_short`), so every run of `eval` in which every sequence is short ends
on a value whose integers fit.
-/

namespace Retl

open Eval

/-! ### Sequences shorter than a bound -/

mutual

/-- Whether every text, list, tuple, dictionary and table inside a value has fewer than `b`
items, through elements, pairs, rows and captured scopes. -/
def Value.within (b : Nat) : Value → Bool
  | .string s => decide (s.length < b)
  | .list es _ | .tuple es _ | .table _ es _ => decide (es.length < b) && Value.withinAll b es
  | .dict ps _ => decide (ps.length < b) && Value.withinPairs b ps
  | .func _ _ _ _ c _ => Value.withinScopes b c
  | .int _ | .bool _ | .char _ | .null | .schema _ | .error _ => true

def Value.withinAll (b : Nat) : List Value → Bool
  | [] => true
  | v :: vs => v.within b && Value.withinAll b vs

def Value.withinPairs (b : Nat) : List (Value × Value) → Bool
  | [] => true
  | (k, v) :: ps => k.within b && v.within b && Value.withinPairs b ps

def Value.withinFrame (b : Nat) : List (String × Value) → Bool
  | [] => true
  | (_, v) :: bs => v.within b && Value.withinFrame b bs

def Value.withinScopes (b : Nat) : List (List (String × Value)) → Bool
  | [] => true
  | f :: fs => Value.withinFrame b f && Value.withinScopes b fs

end

namespace Value

variable {b : Nat}

@[simp] theorem withinAll_eq_all (vs : List Value) : Value.withinAll b vs = vs.all (within b) := by
  induction vs with
  | nil => rfl
  | cons v vs ih => simp [Value.withinAll, ih]

@[simp] theorem withinPairs_eq_all (ps : List (Value × Value)) :
    Value.withinPairs b ps = ps.all fun p => p.1.within b && p.2.within b := by
  induction ps with
  | nil => rfl
  | cons p ps ih => simp [Value.withinPairs, ih, Bool.and_assoc]

@[simp] theorem withinScopes_eq_all (env : List (List (String × Value))) :
    Value.withinScopes b env = env.all fun f => f.all fun x => x.2.within b := by
  induction env with
  | nil => rfl
  | cons f env ih =>
    have hframe : Value.withinFrame b f = f.all fun x => x.2.within b := by
      induction f with
      | nil => rfl
      | cons x f ihf => simp [Value.withinFrame, ihf]
    simp [Value.withinScopes, ih, hframe]

/-- A value whose sequences are all shorter than `b` keeps the bound `(· < b)`. -/
theorem bounded_of_within : ∀ {v : Value}, v.within b = true → v.Bounded (· < b)
  | .int _, _ => .int _
  | .bool _, _ => .bool _
  | .char _, _ => .char _
  | .null, _ => .null
  | .schema _, _ => .schema _
  | .error _, _ => .error _
  | .string _, h => .string (by simpa [Value.within] using h)
  | .list es _, h => by
    simp only [Value.within, Bool.and_eq_true, decide_eq_true_eq, withinAll_eq_all,
      List.all_eq_true] at h
    exact .list h.1 fun x _hx => bounded_of_within (h.2 x _hx)
  | .tuple es _, h => by
    simp only [Value.within, Bool.and_eq_true, decide_eq_true_eq, withinAll_eq_all,
      List.all_eq_true] at h
    exact .tuple h.1 fun x _hx => bounded_of_within (h.2 x _hx)
  | .table _ rs _, h => by
    simp only [Value.within, Bool.and_eq_true, decide_eq_true_eq, withinAll_eq_all,
      List.all_eq_true] at h
    exact .table h.1 fun r _hr => bounded_of_within (h.2 r _hr)
  | .dict ps _, h => by
    simp only [Value.within, Bool.and_eq_true, decide_eq_true_eq, withinPairs_eq_all,
      List.all_eq_true] at h
    exact .dict h.1 (fun q _hq => bounded_of_within (h.2 q _hq).1)
      fun q _hq => bounded_of_within (h.2 q _hq).2
  | .func _ _ _ _ c _, h => by
    simp only [Value.within, withinScopes_eq_all, List.all_eq_true] at h
    exact .func fun f _hf x _hx => bounded_of_within (h f _hf x _hx)
termination_by v => sizeOf v
decreasing_by
  all_goals simp_wf
  · have := List.sizeOf_lt_of_mem _hx
    omega
  · have := List.sizeOf_lt_of_mem _hx
    omega
  · have := List.sizeOf_lt_of_mem _hr
    omega
  · have := List.sizeOf_lt_of_mem _hq
    obtain ⟨a, b⟩ := q
    simp only [Prod.mk.sizeOf_spec] at this ⊢
    omega
  · have := List.sizeOf_lt_of_mem _hq
    obtain ⟨a, b⟩ := q
    simp only [Prod.mk.sizeOf_spec] at this ⊢
    omega
  · have h₁ := List.sizeOf_lt_of_mem _hf
    have h₂ := List.sizeOf_lt_of_mem _hx
    obtain ⟨n, w⟩ := x
    simp only [Prod.mk.sizeOf_spec] at h₂ ⊢
    omega

end Value

/-! ### The invariant -/

/-- Integers that fit in 32 bits, signed, in runs whose sequences have fewer than `2^31`
items. -/
def int32Inv : Inv where
  int := fitsInt32
  schema _ := true
  table _ _ := True
  seq n := n < 2 ^ 31

theorem fitsInt32_iff (n : Int) : fitsInt32 n = true ↔ -2 ^ 31 ≤ n ∧ n < 2 ^ 31 := by
  simp only [fitsInt32, Bool.and_eq_true, decide_eq_true_eq]
  simp only [int32Min, int32Max]
  omega

/-- Analysis checks in full what the invariant asks of literals. -/
theorem int32Inv_analysisChecks : int32Inv.AnalysisChecks where
  int _ h := h
  schema _ := rfl

theorem int32Inv_kept : int32Inv.Kept where
  fits _ h := h
  range a e ha he i hi := by
    -- an element of a range lies between its ends
    simp only [int32Inv, fitsInt32_iff] at ha he ⊢
    omega
  length n hn := by
    simp only [int32Inv, fitsInt32_iff] at hn ⊢
    omega
  small n hn := by
    simp only [int32Inv]
    omega
  created _ _ _ _ _ := trivial
  read _ _ _ _ := trivial

/-! ### Runs whose sequences are short -/

/-- Give up, as when out of depth, on a value holding a sequence of `2^31` items or more. -/
def Eval.shortOnly (x : Eval Value) : Eval Value := do
  let v ← x
  if v.within (2 ^ 31) then pure v else throw .tooDeep

mutual

/-- Evaluation that gives up on every value holding a sequence of `2^31` items or more:
the runs of `eval` in which every sequence is shorter. -/
def Eval.evalShort : Nat → RunConfig → Env → Ty → Expr → Eval Value
  | 0, _, _, _, _ => throw .tooDeep
  | n + 1, cfg, env, expected, e =>
    shortOnly (step ⟨evalShort n cfg, callShort n cfg⟩ cfg env expected e)

/-- Calls in the runs of `evalShort`. -/
def Eval.callShort : Nat → RunConfig → Value → List Value → Position → Eval Value
  | 0, _, _, _, _ => throw .tooDeep
  | n + 1, cfg, f, args, pos => shortOnly (callStep ⟨evalShort n cfg, callShort n cfg⟩ cfg f args pos)

end

namespace Eval

/-- A short run adds the bound on sequences to what a step's results satisfy. -/
theorem shortOnly_meets {x : Eval Value} (hx : Returns x (Value.Holds int32Inv)) :
    Returns (shortOnly x) (Value.Meets int32Inv) := by
  refine Returns.bind hx fun v hv => ?_
  split
  next hshort => exact Returns.pure ⟨hv, Value.bounded_of_within hshort⟩
  next => exact Returns.throw

/-- Short runs keep the invariant at every depth. -/
theorem engine_keeps_int32 (cfg : RunConfig) :
    ∀ n, Engine.Keeps int32Inv ⟨evalShort n cfg, callShort n cfg⟩
  | 0 => ⟨fun _ _ => Returns.throw, fun _ _ => Returns.throw⟩
  | n + 1 =>
    have hk := engine_keeps_int32 cfg n
    ⟨fun henv he => shortOnly_meets (step_holds hk int32Inv_kept cfg henv he),
      fun hf hargs => shortOnly_meets (callStep_holds hk int32Inv_kept cfg _ hf hargs)⟩

/-- Giving up on long sequences only adds halts for running out of depth. -/
theorem Sim.shortOnly {p : String} {β : Type} {x : Eval Value} {y : Eval β}
    {R : Value → β → Prop} (h : Sim p x y R) : Sim p (shortOnly x) y R := by
  intro m₁ m₂ hm
  unfold Eval.shortOnly
  rw [exec_bind]
  have hout := h m₁ m₂ hm
  revert hout
  generalize x.exec m₁ = X
  generalize y.exec m₂ = Y
  intro hout
  cases hout with
  | ranOut m r => exact .ranOut m _
  | ok hab hm' =>
    dsimp only
    split
    · exact .ok hab hm'
    · exact .ranOut _ _
  | halt hm' => exact .halt hm'

/-- A short run runs like evaluation with the same fuel, unless it gives up. -/
theorem engineSame_short (cfg : RunConfig) :
    ∀ n, EngineSame ⟨evalShort n cfg, callShort n cfg⟩ ⟨eval n cfg, call n cfg⟩
  | 0 =>
    ⟨fun _ _ _ _ _ _ _ _ m₁ _ _ => .ranOut m₁ _, fun _ _ _ _ _ _ _ _ _ m₁ _ _ => .ranOut m₁ _⟩
  | n + 1 =>
    have ih := engineSame_short cfg n
    ⟨fun _ _ _ _ _ _ henv he => Sim.shortOnly (step_same ih cfg henv _ he),
      fun _ _ _ _ _ _ _ hf hargs => Sim.shortOnly (callStep_same ih cfg hf hargs _ _)⟩

end Eval

namespace Eval

/-- Every short run that gives a value is a run of `eval` with the same fuel that gives a
value agreeing with it up to erasure, from a scope and an expression that read no
statement name. -/
theorem eval_of_evalShort {cfg : RunConfig} {n : Nat} {env : Env} {E : Ty} {e : Expr}
    (htidy : Value.tidyScopes env = true) (hreads : e.readsUserNames = true) {m m' : Machine}
    {v : Value} (h : (evalShort n cfg env E e).exec m = (.ok v, m')) :
    ∃ v' m'', (eval n cfg env E e).exec m = (.ok v', m'') ∧ Value.Same v v' := by
  have hm : MachineSame "" m m := ⟨rfl, by simp, rfl, rfl, rfl⟩
  have hsim := (engineSame_short cfg n).eval "" env env E e e ⟨rfl, htidy⟩ ⟨rfl, hreads⟩ m m hm
  rw [h] at hsim
  generalize (eval n cfg env E e).exec m = Y at hsim
  cases hsim with
  | ok hab _ => exact ⟨_, _, rfl, hab⟩

/-! ### Overflow is reported -/

/-- Every result of `x`, with the machine `x` leaves, satisfies `Q`. -/
def Leaves (x : Eval Value) (Q : Value → Machine → Prop) : Prop :=
  ∀ m v m', x.exec m = (.ok v, m') → Q v m'

/-- An error value, reported as an evaluation diagnostic at a position, last. -/
def Reported (message : String) (pos : Position) (v : Value) (m : Machine) : Prop :=
  v = .error message ∧ m.diagnostics.back? = some ⟨.evaluation, message, some pos⟩

theorem Leaves.bind {α : Type} {x : Eval α} {f : α → Eval Value} {P : α → Prop}
    {Q : Value → Machine → Prop} (hx : Returns x P) (hf : ∀ a, P a → Leaves (f a) Q) :
    Leaves (x >>= f) Q := by
  intro m v m' h
  rw [exec_bind] at h
  revert h
  cases hxm : x.exec m with
  | mk r m₁ =>
    cases r with
    | ok a => exact hf a (hx m a m₁ hxm) m₁ v m'
    | error _ => intro h; cases h

theorem fail_reported (message : String) (pos : Position) :
    Leaves (fail message pos) (Reported message pos) := by
  intro m v m' h
  simp only [fail, record, exec_bind, exec_modify, exec_pure, Prod.mk.injEq,
    Except.ok.injEq] at h
  obtain ⟨rfl, rfl⟩ := h
  exact ⟨rfl, by simp⟩

/-- An evaluation diagnostic recorded for an error value, and the error value passed on. -/
theorem record_reported (message : String) (E : Ty) (pos : Position) :
    Leaves (record .evaluation message (some pos) >>= fun _ => conformValue (.error message) E pos)
      (Reported message pos) := by
  intro m v m' h
  simp only [record, conformValue, Value.isError, exec_bind, exec_modify, if_true, exec_pure,
    Prod.mk.injEq, Except.ok.injEq] at h
  obtain ⟨rfl, rfl⟩ := h
  exact ⟨rfl, by simp⟩

/-- An operator that gives an error value on what its operands evaluate to: the step gives
that error and reports it as an evaluation diagnostic at the operator. -/
theorem step_prim_reported {k : Engine} (cfg : RunConfig) {env : Env} {E : Ty} {op : PrimOp}
    {left : Expr} {right : Option Expr} {pos : Position} {a : Value} {b : Option Value}
    {message : String} (ha : Returns (k.eval env .unknown left) (· = a))
    (hb : ∀ e, right = some e → Returns (k.eval env .unknown e) fun v => some v = b)
    (hnone : right = none → b = none) (haok : a.isError = false)
    (hbok : ∀ v, b = some v → v.isError = false) (hv : Operators.apply op a b = .error message) :
    Leaves (step k cfg env E (.prim op left right pos)) (Reported message pos) := by
  unfold step
  refine Leaves.bind Returns.trivial fun _ _ => ?_
  dsimp only
  refine Leaves.bind ha fun l hl => ?_
  subst hl
  -- the right operand, when there is one, evaluates to `b`
  cases right
  on_goal 1 => refine Leaves.bind (P := (· = b)) (Returns.pure (hnone rfl).symm) fun r hr => ?_
  on_goal 2 =>
    refine Leaves.bind (P := (· = b)) (Returns.map (hb _ rfl) fun v hv => hv) fun r hr => ?_
  -- neither operand is an error, so the operator's error is the outcome
  all_goals
    subst hr
    have hfirst : firstError (l :: r.toList) = none := by
      cases r with
      | none => simp only [firstError, Option.toList, List.find?_cons, haok, List.find?_nil]
      | some v =>
        simp only [firstError, Option.toList, List.find?_cons, haok, hbok v rfl, List.find?_nil]
    rw [hfirst]
    dsimp only
    rw [hv]
    exact record_reported message E pos

end Eval

/-! ### Arithmetic computes exactly, or reports an overflow -/

/-- The exact integer an arithmetic operator computes from integer operands, with the word
its overflow error uses; nothing for the other operators, or for a zero divisor. -/
def PrimOp.exact : PrimOp → Int → Option Int → Option (String × Int)
  | .add, x, some y => some ("add", x + y)
  | .sub, x, some y => some ("subtract", x - y)
  | .mul, x, some y => some ("multiply", x * y)
  | .div, x, some y => if y = 0 then none else some ("divide", x.tdiv y)
  | .rem, x, some y => if y = 0 then none else some ("take remainder of", x.tmod y)
  | .neg, x, none => some ("negate", -x)
  | _, _, _ => none

namespace Operators

/-- Division as the operators compute it, from the magnitudes and the signs, is the library's
division rounding toward zero. -/
theorem truncatingDiv_eq_tdiv (a b : Int) : truncatingDiv a b = a.tdiv b := by
  -- one case per sign of the dividend and of the divisor, as `Int.tdiv` takes them
  have hnat (m : Nat) : ¬ ((m : Int) < 0) := Int.not_lt.2 (Int.natCast_nonneg m)
  cases a <;> cases b <;> simp [truncatingDiv, Int.tdiv, hnat]

/-- The remainder the operators compute is the library's remainder of division rounding
toward zero. -/
theorem truncatingMod_eq_tmod (a b : Int) : truncatingMod a b = a.tmod b := by
  rw [truncatingMod, truncatingDiv_eq_tdiv, Int.tmod_def]

/-- An arithmetic operator on integers gives its exact result where that fits in 32 bits,
and an overflow error that names it where not. -/
theorem apply_of_exact {op : PrimOp} {x : Int} {y : Option Int} {name : String} {n : Int}
    (h : op.exact x y = some (name, n)) : apply op (.int x) (y.map .int) = intResult name n := by
  cases op <;> cases y <;> simp only [PrimOp.exact, reduceCtorEq] at h
  case add.some | sub.some | mul.some | neg.none =>
    obtain ⟨rfl, rfl⟩ := Prod.mk.inj (Option.some.inj h)
    rfl
  case div.some y | rem.some y =>
    -- a zero divisor is refused before the operator computes
    split at h
    · cases h
    next hy =>
      obtain ⟨rfl, rfl⟩ := Prod.mk.inj (Option.some.inj h)
      simp only [apply, binary, arithmetic, Option.map_some, Bool.true_and, beq_iff_eq, hy,
        ↓reduceIte, truncatingDiv_eq_tdiv, truncatingMod_eq_tmod]

theorem intResult_of_not_fits {name : String} {n : Int} (h : fitsInt32 n = false) :
    intResult name n = .error ("Integer overflow in " ++ name) := by
  simp [intResult, h]

end Operators

namespace Eval

/-- An arithmetic operator whose operands evaluate to integers with an exact result outside
32 bits gives an overflow error, reported at the operator. -/
theorem step_binary_overflow {k : Engine} (cfg : RunConfig) {env : Env} {E : Ty} {op : PrimOp}
    {left right : Expr} {pos : Position} {x y : Int} {name : String} {n : Int}
    (hx : Returns (k.eval env .unknown left) (· = .int x))
    (hy : Returns (k.eval env .unknown right) (· = .int y))
    (hop : op.exact x (some y) = some (name, n)) (hn : fitsInt32 n = false) :
    Leaves (step k cfg env E (.prim op left (some right) pos))
      (Reported ("Integer overflow in " ++ name) pos) := by
  have hv : Operators.apply op (.int x) (some (.int y)) = .error ("Integer overflow in " ++ name) :=
    (Operators.apply_of_exact hop).trans (Operators.intResult_of_not_fits hn)
  refine step_prim_reported cfg hx (fun e he => ?_) (fun h => by cases h) rfl
    (fun v hb => by cases hb; rfl) hv
  cases he
  exact hy.mono fun v hv => by rw [hv]

/-- Negating an integer whose negation leaves 32 bits gives an overflow error, reported at
the operator. -/
theorem step_negate_overflow {k : Engine} (cfg : RunConfig) {env : Env} {E : Ty} {operand : Expr}
    {pos : Position} {x : Int} (hx : Returns (k.eval env .unknown operand) (· = .int x))
    (hn : fitsInt32 (-x) = false) :
    Leaves (step k cfg env E (.prim .neg operand none pos)) (Reported "Integer overflow in negate" pos) := by
  have hv : Operators.apply .neg (.int x) none = .error "Integer overflow in negate" :=
    (Operators.apply_of_exact (y := none) rfl).trans (Operators.intResult_of_not_fits hn)
  exact step_prim_reported cfg hx (fun _ h => by cases h) (fun _ => rfl) rfl (fun _ h => by cases h) hv

end Eval

/-! ### Converting text -/

namespace Builtins

open Eval

/-- Converting a text whose number leaves 32 bits gives an error, reported at the call. -/
theorem stringToInt_overflow (k : Engine) (pos : Position) {s : String} {n : Int}
    (hs : parseIntText s = .number n) (hn : fitsInt32 n = false) :
    Leaves (run k .stringToInt [.string s] pos)
      (Reported ("Integer overflow converting \"" ++ s ++ "\"") pos) := by
  unfold run
  simp only [hs, hn, Bool.false_eq_true, ↓reduceIte]
  exact fail_reported _ pos

/-- A text of digits alone is read as an unsigned number. -/
theorem parseIntText_digits {ds : List Char} (hd : ∀ c ∈ ds, c.isDigit = true) (hne : ds ≠ []) :
    parseIntText (String.ofList ds) = IntText.ofDigits false ds := by
  have hblank : ∀ c ∈ (String.ofList ds).toList, Text.isBlank c = false := by
    simpa using fun c hc => isBlank_of_isDigit (hd c hc)
  unfold parseIntText
  rw [trimBlank_eq_self hblank, String.toList_ofList]
  obtain ⟨c, cs, rfl⟩ := List.exists_cons_of_ne_nil hne
  -- a digit is no minus sign
  have hc : c ≠ '-' := by
    rintro rfl
    simpa using hd '-' List.mem_cons_self
  split
  next heq => exact absurd (List.cons.inj heq).1 hc
  next => rfl

/-- A text of more digits than a conversion takes is refused before it is read. -/
theorem parseIntText_tooLong {ds : List Char} (hd : ∀ c ∈ ds, c.isDigit = true)
    (hlong : Text.maxDigits < ds.length) :
    parseIntText (String.ofList ds) = .tooLong ds.length := by
  have hne : ds ≠ [] := by
    rintro rfl
    simp at hlong
  rw [parseIntText_digits hd hne]
  unfold IntText.ofDigits
  rw [if_neg (by simp [List.all_eq_true.mpr hd, hne]), if_pos hlong]

/-- Converting a text of more digits than a conversion takes halts the run, leaving the
machine as it was. -/
theorem stringToInt_past_digit_limit (k : Engine) (pos : Position) {ds : List Char}
    (hd : ∀ c ∈ ds, c.isDigit = true) (hlong : Text.maxDigits < ds.length) (m : Machine) :
    (run k .stringToInt [.string (String.ofList ds)] pos).exec m =
      (.error (digitFault ds.length), m) := by
  unfold run
  simp only [parseIntText_tooLong hd hlong, exec_throw]

/-- Four thousand three hundred and one ones are one digit too many to convert: in the program
`stringToInt("11...1")` the conversion halts the run instead of giving an error value. -/
theorem converting_4301_ones_halts :
    (run (topEngine ⟨false, 1000⟩) .stringToInt [.string (String.ofList (List.replicate 4301 '1'))]
      ⟨"main.retl", 1, 1, "stringToInt(\"" ++ String.ofList (List.replicate 4301 '1') ++ "\")"⟩).exec
      (Machine.start [] FileStore.empty) =
      (.error (digitFault 4301), Machine.start [] FileStore.empty) := by
  have hd : ∀ c ∈ List.replicate 4301 '1', c.isDigit = true := by
    intro c hc
    rw [List.eq_of_mem_replicate hc]
    decide
  have hlong : Text.maxDigits < (List.replicate 4301 '1').length := by
    rw [List.length_replicate, Text.maxDigits]
    omega
  exact (stringToInt_past_digit_limit _ _ hd hlong _).trans (by rw [List.length_replicate])

end Builtins

/-! ### Integers stay within 32 bits -/

open Eval in
/-- Every integer of a run of an accepted program fits in 32 bits while its sequences stay
shorter than `2^31`: accepted programs write only fitting literals; short runs, which are
runs of evaluation, give only values whose integers fit, at every depth; arithmetic is
exact and reports an overflow as an error value and an evaluation diagnostic; and so does
converting a text of at most `Text.maxDigits` digits, while a longer text halts the run. -/
theorem integers_stay_within_32_bits (cfg : RunConfig) :
    (∀ (depth : Nat) (aliases : Aliases) (trace : Bool) (n : Tree.Node) (e : Expr) (as : Aliases),
      (analyzeProgram depth aliases trace n).result = some (e, as) →
      (analyzeProgram depth aliases trace n).diagnostics.isEmpty = true →
      e.litsOk int32Inv = true ∧
        ∀ fuel E, Returns (evalShort fuel cfg Env.root E e) (Value.Meets int32Inv)) ∧
    (∀ fuel, Engine.Keeps int32Inv ⟨evalShort fuel cfg, callShort fuel cfg⟩) ∧
    (∀ fuel env E e m v m', Value.tidyScopes env = true → e.readsUserNames = true →
      (evalShort fuel cfg env E e).exec m = (.ok v, m') →
      ∃ v' m'', (eval fuel cfg env E e).exec m = (.ok v', m'') ∧ Value.Same v v') ∧
    (∀ (op : PrimOp) x y name n, op.exact x y = some (name, n) →
      Operators.apply op (.int x) (y.map .int) = Operators.intResult name n) ∧
    (∀ (k : Engine) env E (op : PrimOp) left right pos x y name n,
      Returns (k.eval env .unknown left) (· = .int x) →
      Returns (k.eval env .unknown right) (· = .int y) →
      op.exact x (some y) = some (name, n) → fitsInt32 n = false →
      Leaves (step k cfg env E (.prim op left (some right) pos))
        (Reported ("Integer overflow in " ++ name) pos)) ∧
    (∀ (k : Engine) env E operand pos x, Returns (k.eval env .unknown operand) (· = .int x) →
      fitsInt32 (-x) = false →
      Leaves (step k cfg env E (.prim .neg operand none pos))
        (Reported "Integer overflow in negate" pos)) ∧
    (∀ (k : Engine) pos s n, Builtins.parseIntText s = .number n → fitsInt32 n = false →
      Leaves (Builtins.run k .stringToInt [.string s] pos)
        (Reported ("Integer overflow converting \"" ++ s ++ "\"") pos)) ∧
    (∀ (k : Engine) pos (ds : List Char) m, (∀ c ∈ ds, c.isDigit = true) →
      Text.maxDigits < ds.length →
      (Builtins.run k .stringToInt [.string (String.ofList ds)] pos).exec m =
        (.error (Builtins.digitFault ds.length), m)) := by
  refine ⟨fun _ _ _ _ _ _ hres hquiet => ?_, engine_keeps_int32 cfg,
    fun _ _ _ _ _ _ _ htidy hreads h => eval_of_evalShort htidy hreads h,
    fun _ _ _ _ _ hop => Operators.apply_of_exact hop,
    fun _ _ _ _ _ _ _ _ _ _ _ hx hy hop hn => step_binary_overflow cfg hx hy hop hn,
    fun _ _ _ _ _ _ hx hn => step_negate_overflow cfg hx hn,
    fun k pos _ _ hs hn => Builtins.stringToInt_overflow k pos hs hn,
    fun k pos _ m hd hlong => Builtins.stringToInt_past_digit_limit k pos hd hlong m⟩
  -- an accepted program's literals fit, so its short runs from the root keep the invariant
  have hlits := analyzeProgram_litsOk int32Inv_analysisChecks hres hquiet
  exact ⟨hlits, fun fuel _ => (engine_keeps_int32 cfg fuel).eval Env.root_meets hlits⟩

end Retl
