import Retl.Proofs.TypeSafety
import Retl.Proofs.QuietAnalysis
/-!
# Builtins receive the arguments they are written for

The body of a builtin takes the form of its arguments for granted: that a list argument
is a list or a table, that a function argument has as many parameters as the builtin
passes it, that a position is an integer, that a table's rows are tuples as wide as its
schema. `Builtin.InDomain` says so of every builtin; a call outside it would reach the
runner's last case, or an index past a row's end.

A call binds its arguments to the builtin's parameters, each retyped to the type it
resolved to against its parameter's, so what the builtin receives is well typed and
conforms to its parameter types (`Builtin.Accepts`); and accepted arguments are in the
domain, because a well-typed value that conforms to a type of fixed outer form has that
form.
-/

namespace Retl

namespace Value

/-- A sequence a builtin takes elements from: a list, or a table seen as its rows. -/
def IsSequence (v : Value) : Prop := ∃ es t, v.asList? = some (es, t)

/-- A function value with `n` declared parameters. -/
def HasArity (n : Nat) (v : Value) : Prop :=
  ∃ id ps r body closure t, v = .func id ps r body closure t ∧ ps.length = n

/-- A value that, when it is a table, has rows that are tuples as wide as its schema. -/
def RowsFit (v : Value) : Prop :=
  ∀ cs rs t, v = .table cs rs t → ∀ r ∈ rs, ∃ vs u, r = .tuple vs u ∧ vs.length = cs.length

variable {v : Value}

theorem WellTyped.rowsFit (hv : v.WellTyped) : v.RowsFit := by
  intro cs rs t h
  subst h
  cases hv with
  | table _ _ hrows _ => exact hrows

theorem WellTyped.isSequence (hv : v.WellTyped) (h : v.type.conformsTo Builtin.anyList = true) :
    v.IsSequence := by
  have hhead := hv.head_eq_of_conformsTo (by simp [Ty.IsOpen, Builtin.anyList])
    (by simp [Builtin.anyList]) h
  cases hv <;> simp only [Value.type, Ty.head, Builtin.anyList, reduceCtorEq] at hhead
  all_goals exact ⟨_, _, rfl⟩

theorem WellTyped.hasArity (hv : v.WellTyped) {ps : List Ty} {r : Ty}
    (h : v.type.conformsTo (.func ps r) = true) : v.HasArity ps.length := by
  have hhead := hv.head_eq_of_conformsTo (by simp [Ty.IsOpen]) (by simp) h
  cases hv <;> simp only [Value.type, Ty.head, reduceCtorEq, Ty.Head.func.injEq] at hhead
  case func hlen _ _ _ _ _ _ _ => exact ⟨_, _, _, _, _, _, rfl, hlen ▸ hhead⟩

/-- A well-typed value that conforms to a scalar type is a value of that scalar kind. -/
theorem WellTyped.int_of_conformsTo (hv : v.WellTyped) (h : v.type.conformsTo .int = true) :
    ∃ n, v = .int n :=
  Fits.int (fun _ => ⟨hv, h⟩) hv.isError_eq

theorem WellTyped.bool_of_conformsTo (hv : v.WellTyped) (h : v.type.conformsTo .bool = true) :
    ∃ b, v = .bool b :=
  Fits.bool (fun _ => ⟨hv, h⟩) hv.isError_eq

theorem WellTyped.string_of_conformsTo (hv : v.WellTyped)
    (h : v.type.conformsTo .string = true) : ∃ s, v = .string s := by
  have hhead := hv.head_eq_of_conformsTo (by simp [Ty.IsOpen]) (by simp) h
  cases hv <;> simp only [Value.type, Ty.head, reduceCtorEq] at hhead
  exact ⟨_, rfl⟩

theorem WellTyped.schema_of_conformsTo (hv : v.WellTyped)
    (h : v.type.conformsTo .schema = true) : ∃ cs, v = .schema cs := by
  have hhead := hv.head_eq_of_conformsTo (by simp [Ty.IsOpen]) (by simp) h
  cases hv <;> simp only [Value.type, Ty.head, reduceCtorEq] at hhead
  exact ⟨_, rfl⟩

end Value

namespace Builtin

/-- Arguments as a call hands them to a builtin: one for each parameter, in order, each
well typed and of a type that conforms to its parameter's. -/
def Accepts (b : Builtin) (args : List Value) : Prop :=
  List.Forall₂ (fun v p => v.WellTyped ∧ v.type.conformsTo p.2 = true) args b.params

open Value in
/-- The arguments each builtin's body takes for granted. -/
def InDomain : Builtin → List Value → Prop
  | .map, [f, xs] | .filter, [f, xs] => HasArity 1 f ∧ IsSequence xs
  | .foldl, [_, xs, f] | .foldr, [_, xs, f] => IsSequence xs ∧ HasArity 2 f
  | .zip, [xs, ys] => IsSequence xs ∧ IsSequence ys
  | .slice, [xs, .int _, .int _] => IsSequence xs
  | .substr, [.string _, .int _, .int _] => True
  | .len, [_] | .type, [_] | .print, [_] | .println, [_] => True
  | .range, [.int _, .int _] => True
  | .readln, [] => True
  | .intToString, [.int _] => True
  | .stringToInt, [.string _] => True
  | .createTable, [.schema _, rows] => IsSequence rows
  | .column, [t, .string _] => RowsFit t
  | .collect, [_] | .count, [_] => True
  | .readCSV, [.string _, .schema _, .bool _] => True
  | .writeCSV, [.string _, _, .bool _] => True
  | _, _ => False

/-- Accepted arguments are in the builtin's domain. -/
theorem Accepts.inDomain {b : Builtin} {args : List Value} (h : b.Accepts args) :
    b.InDomain args := by
  cases b <;> simp only [Accepts, params, anyList] at h
  case map | filter =>
    rcases h with _ | ⟨⟨hf, hfc⟩, _ | ⟨⟨hxs, hxsc⟩, _ | _⟩⟩
    exact ⟨hf.hasArity hfc, hxs.isSequence hxsc⟩
  case foldl | foldr =>
    rcases h with _ | ⟨-, _ | ⟨⟨hxs, hxsc⟩, _ | ⟨⟨hf, hfc⟩, _ | _⟩⟩⟩
    exact ⟨hxs.isSequence hxsc, hf.hasArity hfc⟩
  case zip =>
    rcases h with _ | ⟨⟨hxs, hxsc⟩, _ | ⟨⟨hys, hysc⟩, _ | _⟩⟩
    exact ⟨hxs.isSequence hxsc, hys.isSequence hysc⟩
  case slice =>
    rcases h with _ | ⟨⟨hxs, hxsc⟩, _ | ⟨⟨ha, hac⟩, _ | ⟨⟨he, hec⟩, _ | _⟩⟩⟩
    obtain ⟨a, rfl⟩ := ha.int_of_conformsTo hac
    obtain ⟨e, rfl⟩ := he.int_of_conformsTo hec
    exact hxs.isSequence hxsc
  case substr =>
    rcases h with _ | ⟨⟨hs, hsc⟩, _ | ⟨⟨ha, hac⟩, _ | ⟨⟨he, hec⟩, _ | _⟩⟩⟩
    obtain ⟨s, rfl⟩ := hs.string_of_conformsTo hsc
    obtain ⟨a, rfl⟩ := ha.int_of_conformsTo hac
    obtain ⟨e, rfl⟩ := he.int_of_conformsTo hec
    trivial
  case len | type | print | println | collect | count =>
    rcases h with _ | ⟨-, _ | _⟩
    trivial
  case range =>
    rcases h with _ | ⟨⟨ha, hac⟩, _ | ⟨⟨he, hec⟩, _ | _⟩⟩
    obtain ⟨a, rfl⟩ := ha.int_of_conformsTo hac
    obtain ⟨e, rfl⟩ := he.int_of_conformsTo hec
    trivial
  case readln =>
    rcases h with _ | _
    trivial
  case intToString =>
    rcases h with _ | ⟨⟨hn, hnc⟩, _ | _⟩
    obtain ⟨n, rfl⟩ := hn.int_of_conformsTo hnc
    trivial
  case stringToInt =>
    rcases h with _ | ⟨⟨hs, hsc⟩, _ | _⟩
    obtain ⟨s, rfl⟩ := hs.string_of_conformsTo hsc
    trivial
  case createTable =>
    rcases h with _ | ⟨⟨hs, hsc⟩, _ | ⟨⟨hrows, hrowsc⟩, _ | _⟩⟩
    obtain ⟨cs, rfl⟩ := hs.schema_of_conformsTo hsc
    exact hrows.isSequence hrowsc
  case column =>
    rcases h with _ | ⟨⟨ht, -⟩, _ | ⟨⟨hn, hnc⟩, _ | _⟩⟩
    obtain ⟨n, rfl⟩ := hn.string_of_conformsTo hnc
    exact ht.rowsFit
  case readCSV =>
    rcases h with _ | ⟨⟨hp, hpc⟩, _ | ⟨⟨hs, hsc⟩, _ | ⟨⟨hh, hhc⟩, _ | _⟩⟩⟩
    obtain ⟨p, rfl⟩ := hp.string_of_conformsTo hpc
    obtain ⟨cs, rfl⟩ := hs.schema_of_conformsTo hsc
    obtain ⟨b, rfl⟩ := hh.bool_of_conformsTo hhc
    trivial
  case writeCSV =>
    rcases h with _ | ⟨⟨hp, hpc⟩, _ | ⟨-, _ | ⟨⟨hh, hhc⟩, _ | _⟩⟩⟩
    obtain ⟨p, rfl⟩ := hp.string_of_conformsTo hpc
    obtain ⟨b, rfl⟩ := hh.bool_of_conformsTo hhc
    trivial

theorem params_nodup (b : Builtin) : (b.params.map Prod.fst).Nodup := by
  cases b <;> decide

end Builtin

namespace Eval

/-- A call of a builtin hands it accepted arguments: binding good arguments to the
builtin's parameters succeeds only with a frame from which the builtin's arguments are
read, in order, well typed and conforming to their parameters. -/
theorem bindArgs_accepts (b : Builtin) (fn : String) (pos : Position) {args : List Value}
    (hargs : ∀ a ∈ args, a.Good) (hlen : args.length = b.params.length) :
    Returns (bindArgs fn pos [] args b.params) fun r => ∀ f, r = .ok f →
      b.Accepts (b.params.filterMap fun (n, _) => (f.find? (·.1 == n)).map Prod.snd) := by
  refine Returns.mono (bindArgs_extends fn pos (b.params_nodup) (by simp) hargs hlen)
    fun r hr f hf => ?_
  obtain ⟨extra, rfl, hextra⟩ := hr f hf
  exact lookup_binds hextra b.params_nodup [] (by simp)

/-- A value evaluated under `bool` is a boolean unless it is an error, and one evaluated
under `int` is an integer unless it is an error. -/
theorem eval_bool (cfg : RunConfig) (n : Nat) {env : Env} {e : Expr} (henv : env.WellTyped)
    (he : e.resolved = true) :
    Returns (eval n cfg env .bool e) fun v => v.isError = true ∨ ∃ b, v = .bool b := by
  refine ((engine_sound cfg n).eval henv he (.of_hasUnknown rfl)).mono fun v hv => ?_
  by_cases herr : v.isError = true
  · exact Or.inl herr
  · exact Or.inr (hv.bool (by simpa using herr))

theorem eval_int (cfg : RunConfig) (n : Nat) {env : Env} {e : Expr} (henv : env.WellTyped)
    (he : e.resolved = true) :
    Returns (eval n cfg env .int e) fun v => v.isError = true ∨ ∃ i, v = .int i := by
  refine ((engine_sound cfg n).eval henv he (.of_hasUnknown rfl)).mono fun v hv => ?_
  by_cases herr : v.isError = true
  · exact Or.inl herr
  · exact Or.inr (hv.int (by simpa using herr))

/-- Evaluation keeps values well typed and never leaves the domain of a step or a builtin.
The root scope is well typed. A program that analysis accepts with no diagnostic, under
resolved aliases, has its written types resolved and leaves resolved aliases in scope; so a
whole program run from the root scope, and a session line run in a well-typed scope, gives an
error or a well-typed value, and the session keeps its scope well typed. Underneath, from a
well-typed scope, evaluating a resolved expression and calling a well-typed function on good
arguments give an error or a well-typed value; a condition or guard is a boolean and an index
an integer, unless it is an error; and the arguments a call hands a builtin are well typed,
conform to the builtin's parameters, and so are in its domain. -/
theorem evaluation_keeps_values_well_typed (cfg : RunConfig) :
    Env.root.WellTyped ∧
    (∀ (depth : Nat) (aliases : Aliases) (trace : Bool) (n : Tree.Node) (e : Expr)
      (as : Aliases), aliases.Resolved →
      (analyzeProgram depth aliases trace n).result = some (e, as) →
      (analyzeProgram depth aliases trace n).diagnostics.isEmpty = true →
      e.resolved = true ∧ as.Resolved) ∧
    (∀ (depth : Nat) (trace : Bool) (n : Tree.Node) (e : Expr) (as : Aliases),
      (analyzeProgram depth [] trace n).result = some (e, as) →
      (analyzeProgram depth [] trace n).diagnostics.isEmpty = true →
      Returns (runProgram cfg Env.root e) Value.Good) ∧
    (∀ (depth : Nat) (aliases : Aliases) (trace : Bool) (n : Tree.Node) (e : Expr)
      (as : Aliases) (env : Env), aliases.Resolved → env.WellTyped →
      (analyzeProgram depth aliases trace n).result = some (e, as) →
      (analyzeProgram depth aliases trace n).diagnostics.isEmpty = true →
      Returns (runTopLevel cfg env e) fun r => r.1.Good ∧ r.2.WellTyped) ∧
    (∀ n env E e, Env.WellTyped env → Expr.resolved e = true → Ty.Admissible E →
      Returns (eval n cfg env E e) (Value.Fits E)) ∧
    (∀ n f args pos, Value.WellTyped f → (∀ a ∈ args, a.Good) →
      Returns (call n cfg f args pos) Value.Good) ∧
    (∀ e, Expr.resolved e = true → Returns (runProgram cfg Env.root e) Value.Good) ∧
    (∀ env e, Env.WellTyped env → Expr.resolved e = true →
      Returns (runTopLevel cfg env e) fun r => r.1.Good ∧ r.2.WellTyped) ∧
    (∀ n env e, Env.WellTyped env → Expr.resolved e = true →
      Returns (eval n cfg env .bool e) fun v => v.isError = true ∨ ∃ b, v = .bool b) ∧
    (∀ n env e, Env.WellTyped env → Expr.resolved e = true →
      Returns (eval n cfg env .int e) fun v => v.isError = true ∨ ∃ i, v = .int i) ∧
    (∀ (b : Builtin) (fn : String) (pos : Position) (args : List Value),
      (∀ a ∈ args, a.Good) → args.length = b.params.length →
      Returns (bindArgs fn pos [] args b.params) fun r => ∀ f, r = .ok f →
        b.Accepts (b.params.filterMap fun (n, _) => (f.find? (·.1 == n)).map Prod.snd) ∧
        b.InDomain (b.params.filterMap fun (n, _) => (f.find? (·.1 == n)).map Prod.snd)) :=
  ⟨Env.root_wellTyped,
    fun _ _ _ _ _ _ haliases hres hquiet => analyzeProgram_resolved haliases hres hquiet,
    -- a program starts from no alias, and the resolved expression it gives runs soundly
    fun _ _ _ _ _ hres hquiet => runProgram_good cfg Env.root_wellTyped
      (analyzeProgram_resolved Aliases.resolved_nil hres hquiet).1,
    fun _ _ _ _ _ _ _ haliases henv hres hquiet => runTopLevel_good cfg henv
      (analyzeProgram_resolved haliases hres hquiet).1,
    fun n _ _ _ henv he hE => (engine_sound cfg n).eval henv he hE,
    fun n _ _ _ hf hargs => (engine_sound cfg n).call hf hargs,
    fun _ he => runProgram_good cfg Env.root_wellTyped he,
    fun _ _ henv he => runTopLevel_good cfg henv he,
    fun n _ _ henv he => eval_bool cfg n henv he,
    fun n _ _ henv he => eval_int cfg n henv he,
    fun b fn pos _ hargs hlen => (bindArgs_accepts b fn pos hargs hlen).mono
      fun _ hr f hf => ⟨hr f hf, (hr f hf).inDomain⟩⟩

end Eval

end Retl
