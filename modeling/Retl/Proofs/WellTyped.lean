import Retl.Proofs.Conformance
import Retl.Proofs.EvalLogic
/-!
# Well-typed values

The invariant evaluation keeps. A value is well typed when the type it carries has no
`unknown` in it and has the outer form of its kind: a list or a table carries a list
type, a tuple a tuple type with one member per element, a dictionary a dictionary type,
a function a function type with one parameter per declared parameter; and when its
elements, rows, pairs and captured scope are well typed in turn, with no error value
among the elements, rows and pairs. A function value also keeps what calling it needs:
its declared types are resolved, and so is its body.

Evaluation runs analysed expressions whose written types are resolved
(`Expr.resolved`), and expects of an expression either `unknown` (no constraint) or a
type with no `unknown` in it (`Ty.Admissible`). Under these conditions an outcome is an
error value or a well-typed value that conforms to the expected type (`Value.Fits`).

The central step is `conformValue`: a well-typed value that conforms is retyped to a
type of the same outer form (`Ty.head_unify`), and that type conforms again
(`Ty.unify_unify_ok`).
-/

namespace Retl

open Eval

/-- A type evaluation may expect: `unknown`, which leaves a value as it is, or a type
with no `unknown` in it. -/
def Ty.Admissible (t : Ty) : Prop := t = .unknown ∨ t.hasUnknown = false

mutual

/-- Whether the written types of an expression are resolved: the declared type of every
`let` is admissible, and the parameter and result types of every function literal and the
column types of every schema literal have no `unknown` in them. -/
def Expr.resolved : Expr → Bool
  | .lit _ _ | .ref _ _ | .empty _ => true
  | .bind _ t v next _ => (t == .unknown || !t.hasUnknown) && v.resolved && Expr.resolvedOpt next
  | .aliasType _ _ next _ => Expr.resolvedOpt next
  | .lam ps r body _ => ps.all (fun p => !p.2.hasUnknown) && !r.hasUnknown && body.resolved
  | .apply f args _ => f.resolved && Expr.resolvedAll args
  | .prim _ l r _ => l.resolved && Expr.resolvedOpt r
  | .branch c t e _ => c.resolved && t.resolved && Expr.resolvedOpt e
  | .matchOn s cases _ => s.resolved && Expr.resolvedCases cases
  | .iter _ it body _ => it.resolved && body.resolved
  | .list es _ | .tuple es _ => Expr.resolvedAll es
  | .access t _ _ => t.resolved
  | .dict pairs _ => Expr.resolvedEntries pairs
  | .schema cs _ => cs.all fun c => !c.2.hasUnknown

/-- Whether an optional expression is resolved. -/
def Expr.resolvedOpt : Option Expr → Bool
  | none => true
  | some e => e.resolved

/-- Whether every expression of a list is resolved. -/
def Expr.resolvedAll : List Expr → Bool
  | [] => true
  | e :: es => e.resolved && Expr.resolvedAll es

/-- Whether the guards and bodies of `match` cases are resolved. -/
def Expr.resolvedCases : List (Case × Expr) → Bool
  | [] => true
  | (c, b) :: cs => c.resolved && b.resolved && Expr.resolvedCases cs

/-- Whether the values of dictionary entries are resolved. -/
def Expr.resolvedEntries : List (Tree.LitNode × Expr) → Bool
  | [] => true
  | (_, v) :: es => v.resolved && Expr.resolvedEntries es

/-- Whether the guard of a case is resolved. -/
def Case.resolved : Case → Bool
  | .typed _ _ p _ => Expr.resolvedOpt p
  | _ => true

end

/-- The invariant of runtime values. A well-typed value is never an error, so neither are
its elements, rows, pairs and fields. -/
inductive Value.WellTyped : Value → Prop
  | int (n : Int) : Value.WellTyped (.int n)
  | bool (b : Bool) : Value.WellTyped (.bool b)
  | char (c : Char) : Value.WellTyped (.char c)
  | string (s : String) : Value.WellTyped (.string s)
  | null : Value.WellTyped .null
  | schema {cs : List (String × Ty)} (hcs : ∀ c ∈ cs, c.2.hasUnknown = false) :
      Value.WellTyped (.schema cs)
  | list {es : List Value} {e : Ty} (he : e.hasUnknown = false)
      (hes : ∀ x ∈ es, Value.WellTyped x) :
      Value.WellTyped (.list es (.list e))
  | tuple {es : List Value} {ts : List Ty} (hlen : ts.length = es.length)
      (hts : Ty.anyUnknown ts = false) (hes : ∀ x ∈ es, Value.WellTyped x) :
      Value.WellTyped (.tuple es (.tuple ts))
  | dict {ps : List (Value × Value)} {k v : Ty} (hk : k.hasUnknown = false)
      (hv : v.hasUnknown = false) (hkeys : ∀ p ∈ ps, Value.WellTyped p.1)
      (hvals : ∀ p ∈ ps, Value.WellTyped p.2) :
      Value.WellTyped (.dict ps (.dict k v))
  | table {cs : List (String × Ty)} {rs : List Value} {e : Ty} (he : e.hasUnknown = false)
      (hcs : ∀ c ∈ cs, c.2.hasUnknown = false)
      (hrows : ∀ r ∈ rs, ∃ vs t, r = .tuple vs t ∧ vs.length = cs.length)
      (hrs : ∀ r ∈ rs, Value.WellTyped r) :
      Value.WellTyped (.table cs rs (.list e))
  | func {id : FuncId} {ps : List (String × Ty)} {r : Ty} {body : Option Expr}
      {closure : List (List (String × Value))} {qs : List Ty} {s : Ty}
      (hlen : qs.length = ps.length) (hqs : Ty.anyUnknown qs = false) (hs : s.hasUnknown = false)
      (hps : ∀ p ∈ ps, p.2.hasUnknown = false) (hr : r.hasUnknown = false)
      (hbuiltin : ∀ b, id = .builtin b → ps = b.params)
      (hbody : ∀ b, body = some b → b.resolved = true)
      (hclosure : ∀ f ∈ closure, ∀ b ∈ f, b.2.isError = false → Value.WellTyped b.2) :
      Value.WellTyped (.func id ps r body closure (.func qs s))

/-- An outcome that keeps the invariant: unless it is an error, it is well typed. -/
def Value.Good (v : Value) : Prop := v.isError = false → v.WellTyped

/-- An outcome under an expected type: unless it is an error, it is well typed and its
type conforms to the expected one. -/
def Value.Fits (E : Ty) (v : Value) : Prop :=
  v.isError = false → v.WellTyped ∧ v.type.conformsTo E = true

/-- A scope whose bindings are all good. -/
def Env.WellTyped (env : Env) : Prop := ∀ f ∈ env, ∀ b ∈ f, b.2.Good

theorem Ty.anyUnknown_map_snd {cs : List (String × Ty)} (h : ∀ c ∈ cs, c.2.hasUnknown = false) :
    Ty.anyUnknown (cs.map Prod.snd) = false := by
  induction cs with
  | nil => rfl
  | cons c cs ih =>
    simp only [List.map_cons, Ty.anyUnknown, Bool.or_eq_false_iff]
    exact ⟨h c List.mem_cons_self, ih fun x hx => h x (List.mem_cons_of_mem c hx)⟩

namespace Value

attribute [simp] isError type

theorem WellTyped.isError_eq {v : Value} (h : v.WellTyped) : v.isError = false := by
  cases h <;> rfl

theorem WellTyped.type_ok {v : Value} (h : v.WellTyped) : v.type.hasUnknown = false := by
  cases h <;> simp only [type, Ty.hasUnknown, Bool.or_eq_false_iff] <;> simp only [*, and_self]

/-- The type a well-typed value carries has a fixed outer form. -/
theorem WellTyped.not_isOpen {v : Value} (h : v.WellTyped) : ¬v.type.IsOpen := by
  cases h <;> simp [Ty.IsOpen]

theorem WellTyped.type_ne_unknown {v : Value} (h : v.WellTyped) : v.type ≠ .unknown := by
  cases h <;> simp

theorem good_of_wellTyped {v : Value} (h : v.WellTyped) : v.Good := fun _ => h

theorem good_error (m : String) : (Value.error m).Good := by
  simp [Good]

theorem fits_error (E : Ty) (m : String) : (Value.error m).Fits E := by
  simp [Fits]

theorem Fits.good {E : Ty} {v : Value} (h : v.Fits E) : v.Good := fun hv => (h hv).1

theorem anyUnknown_map_type {vs : List Value} (h : ∀ x ∈ vs, x.WellTyped) :
    Ty.anyUnknown (vs.map type) = false := by
  induction vs with
  | nil => rfl
  | cons v vs ih =>
    simp only [List.map_cons, Ty.anyUnknown, Bool.or_eq_false_iff]
    exact ⟨(h v List.mem_cons_self).type_ok, ih fun x hx => h x (List.mem_cons_of_mem v hx)⟩

theorem WellTyped.listOf {es : List Value} {e : Ty} (he : e.hasUnknown = false)
    (hes : ∀ x ∈ es, x.WellTyped) : (Value.listOf es e).WellTyped :=
  .list he hes

theorem WellTyped.tupleOf {vs : List Value} (hvs : ∀ x ∈ vs, x.WellTyped) :
    (Value.tupleOf vs).WellTyped :=
  .tuple (by simp) (anyUnknown_map_type hvs) hvs

theorem WellTyped.tableOf {cs : List (String × Ty)} {rs : List Value}
    (hcs : ∀ c ∈ cs, c.2.hasUnknown = false)
    (hrows : ∀ r ∈ rs, ∃ vs t, r = .tuple vs t ∧ vs.length = cs.length)
    (hrs : ∀ r ∈ rs, r.WellTyped) : (Value.tableOf cs rs).WellTyped := by
  refine .table ?_ hcs hrows hrs
  simp only [Ty.hasUnknown]
  exact Ty.anyUnknown_map_snd hcs

/-- Retyping a well-typed value to a type its own type resolved to keeps it well typed:
the resolved type has the same outer form, and a scalar keeps its own type. -/
theorem WellTyped.retype {v : Value} {E t : Ty} (hv : v.WellTyped)
    (ht : v.type.conform? E = some t) : (v.retype t).WellTyped ∧ (v.retype t).type = t := by
  obtain ⟨hunify, hok⟩ := Ty.conform?_eq_some.mp ht
  have hhead : t.head = v.type.head := by
    rw [← hunify]
    exact Ty.head_unify hv.not_isOpen hv.type_ne_unknown E (hunify ▸ hok)
  cases hv with
  | int n =>
    cases t <;> simp only [Value.type, Ty.head, reduceCtorEq] at hhead
    exact ⟨.int n, rfl⟩
  | bool b =>
    cases t <;> simp only [Value.type, Ty.head, reduceCtorEq] at hhead
    exact ⟨.bool b, rfl⟩
  | char c =>
    cases t <;> simp only [Value.type, Ty.head, reduceCtorEq] at hhead
    exact ⟨.char c, rfl⟩
  | string s =>
    cases t <;> simp only [Value.type, Ty.head, reduceCtorEq] at hhead
    exact ⟨.string s, rfl⟩
  | null =>
    cases t <;> simp only [Value.type, Ty.head, reduceCtorEq] at hhead
    exact ⟨.null, rfl⟩
  | schema hcs =>
    cases t <;> simp only [Value.type, Ty.head, reduceCtorEq] at hhead
    exact ⟨.schema hcs, rfl⟩
  | list he hes =>
    cases t <;> simp only [Value.type, Ty.head, reduceCtorEq] at hhead
    case list e' => exact ⟨.list (by simpa using hok) hes, rfl⟩
  | tuple hlen hts hes =>
    cases t <;> simp only [Value.type, Ty.head, reduceCtorEq, Ty.Head.tuple.injEq] at hhead
    case tuple ts' => exact ⟨.tuple (hhead.trans hlen) (by simpa using hok) hes, rfl⟩
  | dict hk hv hkeys hvals =>
    cases t <;> simp only [Value.type, Ty.head, reduceCtorEq] at hhead
    case dict k' v' =>
      simp only [Ty.hasUnknown, Bool.or_eq_false_iff] at hok
      exact ⟨.dict hok.1 hok.2 hkeys hvals, rfl⟩
  | table he hcs hrows hrs =>
    cases t <;> simp only [Value.type, Ty.head, reduceCtorEq] at hhead
    case list e' => exact ⟨.table (by simpa using hok) hcs hrows hrs, rfl⟩
  | func hlen hqs hs hps hr hbuiltin hbody hclosure =>
    cases t <;> simp only [Value.type, Ty.head, reduceCtorEq, Ty.Head.func.injEq] at hhead
    case func qs' s' =>
      simp only [Ty.hasUnknown, Bool.or_eq_false_iff] at hok
      exact ⟨.func (hhead.trans hlen) hok.1 hok.2 hps hr hbuiltin hbody hclosure, rfl⟩

end Value

/-- Every boundary keeps the invariant: a good value conformed to an expected type is an
error or a well-typed value that conforms to that type. -/
theorem Eval.conformValue_fits {v : Value} (hv : v.Good) (E : Ty) (pos : Position) :
    Returns (conformValue v E pos) (Value.Fits E) := by
  unfold conformValue
  by_cases herr : v.isError = true
  · rw [if_pos herr]
    exact Returns.pure fun h => by rw [herr] at h; cases h
  rw [if_neg herr]
  have hwt := hv (by simpa using herr)
  cases ht : v.type.conform? E with
  | none =>
    exact Returns.bind Returns.trivial fun _ _ => Returns.pure (Value.fits_error E _)
  | some t =>
    refine Returns.pure fun _ => ?_
    obtain ⟨hwt', htype⟩ := hwt.retype ht
    have hconf := Ty.conformsTo_of_conform? ht
    by_cases heq : t = v.type
    · rw [if_pos heq, ← heq]
      exact ⟨hwt, hconf⟩
    · rw [if_neg heq, htype]
      exact ⟨hwt', hconf⟩

namespace Value

/-- A well-typed value that conforms to a type of fixed outer form has that form. -/
theorem WellTyped.head_eq_of_conformsTo {v : Value} {E : Ty} (hv : v.WellTyped)
    (hE : ¬E.IsOpen) (hEu : E ≠ .unknown) (h : v.type.conformsTo E = true) :
    v.type.head = E.head :=
  Ty.head_eq_of_unify hv.not_isOpen hv.type_ne_unknown hE hEu (Ty.conformsTo_iff.mp h)

/-- A condition or a guard, evaluated under `bool`, is an error or a boolean. -/
theorem Fits.bool {v : Value} (h : v.Fits .bool) (hv : v.isError = false) : ∃ b, v = .bool b := by
  obtain ⟨hwt, hconf⟩ := h hv
  have hhead := hwt.head_eq_of_conformsTo (by simp [Ty.IsOpen]) (by simp) hconf
  -- the head of the value's type names its constructor
  cases hwt <;> simp only [Value.type, Ty.head, reduceCtorEq] at hhead
  exact ⟨_, rfl⟩

/-- An index, evaluated under `int`, is an error or an integer. -/
theorem Fits.int {v : Value} (h : v.Fits .int) (hv : v.isError = false) : ∃ n, v = .int n := by
  obtain ⟨hwt, hconf⟩ := h hv
  have hhead := hwt.head_eq_of_conformsTo (by simp [Ty.IsOpen]) (by simp) hconf
  -- the head of the value's type names its constructor
  cases hwt <;> simp only [Value.type, Ty.head, reduceCtorEq] at hhead
  exact ⟨_, rfl⟩

end Value

theorem Eval.fail_fits (E : Ty) (message : String) (pos : Position) :
    Returns (fail message pos) (Value.Fits E) :=
  Returns.bind Returns.trivial fun _ _ => Returns.pure (Value.fits_error E message)

theorem Eval.fail_good (message : String) (pos : Position) : Returns (fail message pos) Value.Good :=
  Returns.bind Returns.trivial fun _ _ => Returns.pure (Value.good_error message)

namespace Value

theorem WellTyped.asList? {v : Value} (hv : v.WellTyped) {es : List Value} {t : Ty}
    (h : v.asList? = some (es, t)) : (∀ x ∈ es, x.WellTyped) ∧ t.elementType.hasUnknown = false := by
  cases hv <;> simp only [Value.asList?, reduceCtorEq, Option.some.injEq, Prod.mk.injEq] at h
  case list he hes =>
    obtain ⟨rfl, rfl⟩ := h
    exact ⟨hes, he⟩
  case table he _ _ hrs =>
    obtain ⟨rfl, rfl⟩ := h
    exact ⟨hrs, he⟩

theorem WellTyped.items? {v : Value} (hv : v.WellTyped) {xs : List Value}
    (h : v.items? = some xs) : ∀ x ∈ xs, x.WellTyped := by
  cases hv <;> simp only [Value.items?, reduceCtorEq, Option.some.injEq] at h <;> subst h
  case string s =>
    intro x hx
    obtain ⟨c, -, rfl⟩ := List.mem_map.mp hx
    exact .char c
  case list hes => exact hes
  case tuple hes => exact hes
  case dict hkeys hvals =>
    intro x hx
    obtain ⟨p, hp, rfl⟩ := List.mem_map.mp hx
    refine WellTyped.tupleOf fun y hy => ?_
    simp only [List.mem_cons, List.not_mem_nil, or_false] at hy
    rcases hy with rfl | rfl
    · exact hkeys p hp
    · exact hvals p hp
  case table hrs => exact hrs

theorem WellTyped.signature? {f : Value} (hf : f.WellTyped) {ps : List (String × Ty)} {r : Ty}
    (h : Builtins.signature? f = some (ps, r)) : r.hasUnknown = false := by
  cases hf <;> simp only [Builtins.signature?, reduceCtorEq, Option.some.injEq, Prod.mk.injEq] at h
  case func hr _ _ _ =>
    obtain ⟨-, rfl⟩ := h
    exact hr

end Value

namespace Env

theorem WellTyped.lookup {env : Env} (h : env.WellTyped) {name : String} {v : Value}
    (hl : env.lookup name = some v) : v.Good := by
  induction env with
  | nil => simp [Env.lookup] at hl
  | cons f fs ih =>
    unfold Env.lookup at hl
    split at hl
    · rename_i b hb
      have hmem := List.mem_of_find?_eq_some hb
      simp only [Option.some.injEq] at hl
      exact hl ▸ h f List.mem_cons_self _ hmem
    · exact ih (fun f' hf' => h f' (List.mem_cons_of_mem f hf')) hl

theorem WellTyped.cons {env : Env} {f : Frame} (hf : ∀ b ∈ f, b.2.Good) (h : env.WellTyped) :
    WellTyped (f :: env) := by
  intro f' hf'
  rcases List.mem_cons.mp hf' with rfl | hf'
  · exact hf
  · exact h f' hf'

theorem WellTyped.bind {env : Env} (h : env.WellTyped) (name : String) {v : Value} (hv : v.Good) :
    (env.bind name v).WellTyped :=
  WellTyped.cons (fun b hb => by simp at hb; exact hb ▸ hv) h

end Env

/-- An engine that keeps the invariant: evaluating a resolved expression in a well-typed
scope under an admissible type gives an outcome that fits that type, and calling a
well-typed value on good arguments gives a good outcome. -/
structure Engine.Sound (k : Engine) : Prop where
  eval {env : Env} {E : Ty} {e : Expr} : env.WellTyped → e.resolved = true → E.Admissible →
    Returns (k.eval env E e) (Value.Fits E)
  call {f : Value} {args : List Value} {pos : Position} : f.WellTyped → (∀ a ∈ args, a.Good) →
    Returns (k.call f args pos) Value.Good

end Retl
