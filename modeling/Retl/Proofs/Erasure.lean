import Mathlib
import Retl.Pipeline
/-!
# Values up to positions and statement names

Two runs of the same statements can differ in what no program can observe: the
positions their trees carry, and the names the reader makes up for expression
statements (`dummy$line_col`, see `Tree.statementName`), which no identifier can spell.
A session runs each line as a program of its own, at line 1 of `<repl>`, while a script
holding the same lines reads them at other lines of `<input>` and binds each line's
last expression to such a name.

Erasure forgets exactly that: positions become `Position.blank`, the names of statement
bindings become `dummy$`, and a scope drops its bindings of statement names (and the
frames left empty). Two values agree up to that (`Value.Same`) when their erasures are
equal and the functions inside the first one read no statement name: a function body
that did could see the bindings erasure dropped.

Every observation evaluation makes of a value (its type, its text, structural equality,
the operators) is the same on a value and its erasure; the lemmas below say so one
function at a time.
-/

namespace Retl

open Retl.Tree (LitNode)

/-- Whether a name is one the reader makes up for an expression statement. -/
def isStatementName (n : String) : Bool := n.startsWith "dummy$"

/-- The position erasure gives every node. -/
def Position.blank : Position := ⟨"", 0, 0, ""⟩

/-- The literal of a literal node, at the blank position. -/
def Tree.LitNode.erase (l : LitNode) : LitNode := ⟨l.literal, .blank⟩

/-- The name erasure gives a binding: statement names all become `dummy$`. -/
def eraseName (n : String) : String := if isStatementName n then "dummy$" else n

mutual

/-- An expression with its positions blank and its statement bindings renamed. -/
def Expr.erase : Expr → Expr
  | .lit l _ => .lit l .blank
  | .ref n _ => .ref n .blank
  | .bind n t v k _ => .bind (eraseName n) t v.erase (Expr.eraseOpt k) .blank
  | .aliasType n t k _ => .aliasType n t (Expr.eraseOpt k) .blank
  | .lam ps r b _ => .lam ps r b.erase .blank
  | .apply f args _ => .apply f.erase (Expr.eraseAll args) .blank
  | .prim op l r _ => .prim op l.erase (Expr.eraseOpt r) .blank
  | .branch c t e _ => .branch c.erase t.erase (Expr.eraseOpt e) .blank
  | .matchOn s cs _ => .matchOn s.erase (Expr.eraseCases cs) .blank
  | .iter n it b _ => .iter n it.erase b.erase .blank
  | .list es _ => .list (Expr.eraseAll es) .blank
  | .tuple es _ => .tuple (Expr.eraseAll es) .blank
  | .access t i _ => .access t.erase i .blank
  | .dict ps _ => .dict (Expr.eraseEntries ps) .blank
  | .schema cs _ => .schema cs .blank
  | .empty _ => .empty .blank

def Expr.eraseOpt : Option Expr → Option Expr
  | none => none
  | some e => some e.erase

def Expr.eraseAll : List Expr → List Expr
  | [] => []
  | e :: es => e.erase :: Expr.eraseAll es

def Expr.eraseCases : List (Case × Expr) → List (Case × Expr)
  | [] => []
  | (c, b) :: cs => (c.erase, b.erase) :: Expr.eraseCases cs

def Expr.eraseEntries : List (LitNode × Expr) → List (LitNode × Expr)
  | [] => []
  | (k, v) :: es => (k.erase, v.erase) :: Expr.eraseEntries es

def Case.erase : Case → Case
  | .typed n t p _ => .typed n t (Expr.eraseOpt p) .blank
  | .literal l _ => .literal l.erase .blank
  | .multi ls _ => .multi (ls.map Tree.LitNode.erase) .blank
  | .range lo hi _ => .range lo hi .blank
  | .any _ => .any .blank

end

mutual

/-- Whether every name an expression reads is one a program can write: no reference
names a statement. -/
def Expr.readsUserNames : Expr → Bool
  | .lit _ _ | .schema _ _ | .empty _ => true
  | .ref n _ => !isStatementName n
  | .bind _ _ v k _ => v.readsUserNames && Expr.readsUserNamesOpt k
  | .aliasType _ _ k _ => Expr.readsUserNamesOpt k
  | .lam _ _ b _ => b.readsUserNames
  | .apply f args _ => f.readsUserNames && Expr.readsUserNamesAll args
  | .prim _ l r _ => l.readsUserNames && Expr.readsUserNamesOpt r
  | .branch c t e _ => c.readsUserNames && t.readsUserNames && Expr.readsUserNamesOpt e
  | .matchOn s cs _ => s.readsUserNames && Expr.readsUserNamesCases cs
  | .iter _ it b _ => it.readsUserNames && b.readsUserNames
  | .list es _ | .tuple es _ => Expr.readsUserNamesAll es
  | .access t _ _ => t.readsUserNames
  | .dict ps _ => Expr.readsUserNamesEntries ps

def Expr.readsUserNamesOpt : Option Expr → Bool
  | none => true
  | some e => e.readsUserNames

def Expr.readsUserNamesAll : List Expr → Bool
  | [] => true
  | e :: es => e.readsUserNames && Expr.readsUserNamesAll es

def Expr.readsUserNamesCases : List (Case × Expr) → Bool
  | [] => true
  | (c, b) :: cs => c.readsUserNames && b.readsUserNames && Expr.readsUserNamesCases cs

def Expr.readsUserNamesEntries : List (LitNode × Expr) → Bool
  | [] => true
  | (_, v) :: es => v.readsUserNames && Expr.readsUserNamesEntries es

def Case.readsUserNames : Case → Bool
  | .typed _ _ p _ => Expr.readsUserNamesOpt p
  | _ => true

end

mutual

/-- A value with the functions inside it erased: their bodies, and their captured scopes
without statement bindings and empty frames. -/
def Value.erase : Value → Value
  | .list es t => .list (Value.eraseAll es) t
  | .tuple es t => .tuple (Value.eraseAll es) t
  | .dict ps t => .dict (Value.erasePairs ps) t
  | .table cs rs t => .table cs (Value.eraseAll rs) t
  | .func i ps r b c t => .func i ps r (Expr.eraseOpt b) (Value.eraseScopes c) t
  | .int n => .int n
  | .bool b => .bool b
  | .char c => .char c
  | .string s => .string s
  | .null => .null
  | .schema cs => .schema cs
  | .error m => .error m

def Value.eraseAll : List Value → List Value
  | [] => []
  | v :: vs => v.erase :: Value.eraseAll vs

def Value.erasePairs : List (Value × Value) → List (Value × Value)
  | [] => []
  | (k, v) :: ps => (k.erase, v.erase) :: Value.erasePairs ps

def Value.eraseFrame : List (String × Value) → List (String × Value)
  | [] => []
  | (n, v) :: bs =>
    if isStatementName n then Value.eraseFrame bs else (n, v.erase) :: Value.eraseFrame bs

def Value.eraseScopes : List (List (String × Value)) → List (List (String × Value))
  | [] => []
  | f :: fs =>
    match Value.eraseFrame f with
    | [] => Value.eraseScopes fs
    | b :: bs => (b :: bs) :: Value.eraseScopes fs

end

mutual

/-- Whether the functions inside a value read no statement name. -/
def Value.tidy : Value → Bool
  | .list es _ | .tuple es _ | .table _ es _ => Value.tidyAll es
  | .dict ps _ => Value.tidyPairs ps
  | .func _ _ _ b c _ => Expr.readsUserNamesOpt b && Value.tidyScopes c
  | .int _ | .bool _ | .char _ | .string _ | .null | .schema _ | .error _ => true

def Value.tidyAll : List Value → Bool
  | [] => true
  | v :: vs => v.tidy && Value.tidyAll vs

def Value.tidyPairs : List (Value × Value) → Bool
  | [] => true
  | (k, v) :: ps => k.tidy && v.tidy && Value.tidyPairs ps

def Value.tidyFrame : List (String × Value) → Bool
  | [] => true
  | (_, v) :: bs => v.tidy && Value.tidyFrame bs

def Value.tidyScopes : List (List (String × Value)) → Bool
  | [] => true
  | f :: fs => Value.tidyFrame f && Value.tidyScopes fs

end

/-- A scope erased: statement bindings and empty frames dropped, values erased. -/
def Env.erase (env : Env) : Env := Value.eraseScopes env

/-- A diagnostic without its position. -/
def Diagnostic.erase (d : Diagnostic) : Diagnostic := { d with position := none }

/-- Two expressions agree up to positions and statement names, and the first reads no
statement name. -/
structure Expr.Same (e₁ e₂ : Expr) : Prop where
  erase : e₁.erase = e₂.erase
  reads : e₁.readsUserNames = true

/-- Two values agree up to erasure, and the functions of the first read no statement
name. -/
structure Value.Same (v₁ v₂ : Value) : Prop where
  erase : v₁.erase = v₂.erase
  tidy : v₁.tidy = true

/-- Two scopes agree up to erasure, and the functions bound in the first read no
statement name. -/
structure Env.Same (env₁ env₂ : Env) : Prop where
  erase : env₁.erase = env₂.erase
  tidy : Value.tidyScopes env₁ = true

namespace Value

@[simp] theorem eraseAll_eq_map (vs : List Value) : Value.eraseAll vs = vs.map Value.erase := by
  induction vs with
  | nil => rfl
  | cons v vs ih => simp [Value.eraseAll, ih]

@[simp] theorem erasePairs_eq_map (ps : List (Value × Value)) :
    Value.erasePairs ps = ps.map fun p => (p.1.erase, p.2.erase) := by
  induction ps with
  | nil => rfl
  | cons p ps ih => simp [Value.erasePairs, ih]

@[simp] theorem tidyAll_eq_all (vs : List Value) : Value.tidyAll vs = vs.all Value.tidy := by
  induction vs with
  | nil => rfl
  | cons v vs ih => simp [Value.tidyAll, ih]

@[simp] theorem tidyPairs_eq_all (ps : List (Value × Value)) :
    Value.tidyPairs ps = ps.all fun p => p.1.tidy && p.2.tidy := by
  induction ps with
  | nil => rfl
  | cons p ps ih => simp [Value.tidyPairs, ih, Bool.and_assoc]

@[simp] theorem tidyFrame_eq_all (f : List (String × Value)) :
    Value.tidyFrame f = f.all fun b => b.2.tidy := by
  induction f with
  | nil => rfl
  | cons b f ih => simp [Value.tidyFrame, ih]

@[simp] theorem tidyScopes_eq_all (env : List (List (String × Value))) :
    Value.tidyScopes env = env.all fun f => f.all fun b => b.2.tidy := by
  induction env with
  | nil => rfl
  | cons f env ih => simp [Value.tidyScopes, ih]

@[simp] theorem type_erase (v : Value) : v.erase.type = v.type := by
  cases v <;> rfl

@[simp] theorem isError_erase (v : Value) : v.erase.isError = v.isError := by
  cases v <;> rfl

@[simp] theorem scalarText?_erase (v : Value) : v.erase.scalarText? = v.scalarText? := by
  cases v <;> rfl

@[simp] theorem retype_erase (v : Value) (t : Ty) : (v.retype t).erase = v.erase.retype t := by
  cases v <;> rfl

@[simp] theorem erase_listOf (vs : List Value) (t : Ty) :
    (Value.listOf vs t).erase = Value.listOf (vs.map Value.erase) t := by
  simp [Value.listOf, Value.erase]

@[simp] theorem erase_tupleOf (vs : List Value) :
    (Value.tupleOf vs).erase = Value.tupleOf (vs.map Value.erase) := by
  simp [Value.tupleOf, Value.erase, Function.comp_def]

@[simp] theorem erase_tableOf (cs : List (String × Ty)) (rs : List Value) :
    (Value.tableOf cs rs).erase = Value.tableOf cs (rs.map Value.erase) := by
  simp [Value.tableOf, Value.erase]

theorem items?_erase (v : Value) : v.erase.items? = v.items?.map (List.map Value.erase) := by
  cases v <;> simp [Value.erase, Value.items?, Function.comp_def]

theorem asList?_erase (v : Value) :
    v.erase.asList? = v.asList?.map fun p => (p.1.map Value.erase, p.2) := by
  cases v <;> simp [Value.erase, Value.asList?]

theorem renderAll_cons_cons (v w : Value) (vs : List Value) :
    Value.renderAll (v :: w :: vs) = v.render ++ ", " ++ Value.renderAll (w :: vs) := rfl

theorem renderPairs_cons_cons (p q : Value × Value) (ps : List (Value × Value)) :
    Value.renderPairs (p :: q :: ps) =
      p.1.render ++ ": " ++ p.2.render ++ ", " ++ Value.renderPairs (q :: ps) := rfl

mutual

@[simp] theorem render_erase (v : Value) : v.erase.render = v.render := by
  cases v with
  | list es t => simp only [Value.erase, Value.render, eraseAll_eq_map, renderAll_erase es]
  | tuple es t => simp only [Value.erase, Value.render, eraseAll_eq_map, renderAll_erase es]
  | dict ps t => simp only [Value.erase, Value.render, erasePairs_eq_map, renderPairs_erase ps]
  | table cs rs t => simp [Value.erase, Value.render]
  | func i ps r b c t => cases i <;> rfl
  | _ => rfl
termination_by sizeOf v
decreasing_by
  all_goals
    subst_vars
    simp only [Value.list.sizeOf_spec, Value.tuple.sizeOf_spec, Value.dict.sizeOf_spec]
    omega

theorem renderAll_erase (vs : List Value) :
    Value.renderAll (vs.map Value.erase) = Value.renderAll vs := by
  match vs with
  | [] => rfl
  | [v] => simp only [List.map, Value.renderAll, render_erase v]
  | v :: w :: vs =>
    rw [List.map_cons, List.map_cons, renderAll_cons_cons, renderAll_cons_cons, render_erase v,
      ← List.map_cons, renderAll_erase (w :: vs)]
termination_by sizeOf vs
decreasing_by
  all_goals
    simp only [List.cons.sizeOf_spec]
    omega

theorem renderPairs_erase (ps : List (Value × Value)) :
    Value.renderPairs (ps.map fun p => (p.1.erase, p.2.erase)) = Value.renderPairs ps := by
  match ps with
  | [] => rfl
  | [(k, v)] => simp only [List.map, Value.renderPairs, render_erase k, render_erase v]
  | (k, v) :: q :: ps =>
    rw [List.map_cons, List.map_cons, renderPairs_cons_cons, renderPairs_cons_cons]
    have ih := renderPairs_erase (q :: ps)
    simp only [List.map_cons] at ih
    simp only [render_erase k, render_erase v, ih]
termination_by sizeOf ps
decreasing_by
  all_goals
    simp only [List.cons.sizeOf_spec, Prod.mk.sizeOf_spec]
    omega

end

mutual

@[simp] theorem equal_erase (a b : Value) : a.erase.equal b.erase = a.equal b := by
  cases a <;> cases b <;> simp only [Value.erase, Value.equal, eraseAll_eq_map, erasePairs_eq_map]
  all_goals first
    | rfl
    | exact equalAll_erase _ _
    | exact equalPairs_erase _ _
termination_by sizeOf a + sizeOf b
decreasing_by
  all_goals
    subst_vars
    simp only [Value.list.sizeOf_spec, Value.tuple.sizeOf_spec, Value.dict.sizeOf_spec,
      Value.table.sizeOf_spec]
    omega

theorem equalAll_erase (xs ys : List Value) :
    Value.equalAll (xs.map Value.erase) (ys.map Value.erase) = Value.equalAll xs ys := by
  match xs, ys with
  | [], [] => rfl
  | x :: xs, y :: ys =>
    simp only [List.map_cons, Value.equalAll, equal_erase x y, equalAll_erase xs ys]
  | [], _ :: _ | _ :: _, [] => rfl
termination_by sizeOf xs + sizeOf ys
decreasing_by
  all_goals
    simp only [List.cons.sizeOf_spec]
    omega

theorem equalPairs_erase (ps qs : List (Value × Value)) :
    Value.equalPairs (ps.map fun p => (p.1.erase, p.2.erase))
      (qs.map fun p => (p.1.erase, p.2.erase)) = Value.equalPairs ps qs := by
  match ps, qs with
  | [], [] => rfl
  | (k, v) :: ps, (k', v') :: qs =>
    simp only [List.map_cons, Value.equalPairs, equal_erase k k', equal_erase v v',
      equalPairs_erase ps qs]
  | [], _ :: _ | _ :: _, [] => rfl
termination_by sizeOf ps + sizeOf qs
decreasing_by
  all_goals
    simp only [List.cons.sizeOf_spec, Prod.mk.sizeOf_spec]
    omega

end

theorem erase_eq_int {v : Value} {n : Int} : v.erase = .int n ↔ v = .int n := by
  cases v <;> simp [Value.erase]

theorem erase_eq_bool {v : Value} {b : Bool} : v.erase = .bool b ↔ v = .bool b := by
  cases v <;> simp [Value.erase]

theorem erase_eq_char {v : Value} {c : Char} : v.erase = .char c ↔ v = .char c := by
  cases v <;> simp [Value.erase]

theorem erase_eq_string {v : Value} {s : String} : v.erase = .string s ↔ v = .string s := by
  cases v <;> simp [Value.erase]

theorem erase_eq_null {v : Value} : v.erase = .null ↔ v = .null := by
  cases v <;> simp [Value.erase]

theorem erase_eq_schema {v : Value} {cs : List (String × Ty)} :
    v.erase = .schema cs ↔ v = .schema cs := by
  cases v <;> simp [Value.erase]

theorem erase_eq_error {v : Value} {m : String} : v.erase = .error m ↔ v = .error m := by
  cases v <;> simp [Value.erase]

theorem tidy_retype (v : Value) (t : Ty) : (v.retype t).tidy = v.tidy := by
  cases v <;> rfl

@[simp] theorem tidy_listOf (vs : List Value) (t : Ty) :
    (Value.listOf vs t).tidy = vs.all Value.tidy := by
  simp [Value.listOf, Value.tidy]

@[simp] theorem tidy_tupleOf (vs : List Value) : (Value.tupleOf vs).tidy = vs.all Value.tidy := by
  simp [Value.tupleOf, Value.tidy]

@[simp] theorem tidy_tableOf (cs : List (String × Ty)) (rs : List Value) :
    (Value.tableOf cs rs).tidy = rs.all Value.tidy := by
  simp [Value.tableOf, Value.tidy]

theorem tidy_of_asList? {v : Value} {es : List Value} {t : Ty} (h : v.asList? = some (es, t))
    (hv : v.tidy = true) : es.all Value.tidy = true := by
  cases v <;> simp_all [Value.asList?, Value.tidy]

theorem tidy_of_items? {v : Value} {es : List Value} (h : v.items? = some es)
    (hv : v.tidy = true) : es.all Value.tidy = true := by
  cases v <;> simp only [Value.items?, Option.some.injEq, reduceCtorEq] at h <;> subst h
  all_goals simp_all [Value.tidy]
  exact hv

end Value

namespace Value.Same

variable {v₁ v₂ : Value}

theorem refl {v : Value} (h : v.tidy = true) : Value.Same v v := ⟨rfl, h⟩

theorem type_eq (h : Value.Same v₁ v₂) : v₁.type = v₂.type := by
  rw [← type_erase v₁, h.erase, type_erase]

theorem isError_eq (h : Value.Same v₁ v₂) : v₁.isError = v₂.isError := by
  rw [← isError_erase v₁, h.erase, isError_erase]

theorem render_eq (h : Value.Same v₁ v₂) : v₁.render = v₂.render := by
  rw [← render_erase v₁, h.erase, render_erase]

theorem scalarText?_eq (h : Value.Same v₁ v₂) : v₁.scalarText? = v₂.scalarText? := by
  rw [← scalarText?_erase v₁, h.erase, scalarText?_erase]

theorem equal_eq {w₁ w₂ : Value} (h : Value.Same v₁ v₂) (hw : Value.Same w₁ w₂) :
    v₁.equal w₁ = v₂.equal w₂ := by
  rw [← equal_erase v₁, h.erase, hw.erase, equal_erase]

theorem retype (h : Value.Same v₁ v₂) (t : Ty) : Value.Same (v₁.retype t) (v₂.retype t) :=
  ⟨by rw [retype_erase, h.erase, retype_erase], by rw [tidy_retype]; exact h.tidy⟩

theorem error (m : String) : Value.Same (.error m) (.error m) := refl rfl

end Value.Same

theorem forall₂_same_iff {vs₁ vs₂ : List Value} :
    List.Forall₂ Value.Same vs₁ vs₂ ↔
      vs₁.map Value.erase = vs₂.map Value.erase ∧ vs₁.all Value.tidy = true := by
  induction vs₁ generalizing vs₂ with
  | nil => cases vs₂ <;> simp
  | cons v vs ih =>
    cases vs₂ with
    | nil => simp
    | cons w ws =>
      simp only [List.forall₂_cons, ih, List.map_cons, List.cons.injEq, List.all_cons,
        Bool.and_eq_true]
      constructor
      · rintro ⟨⟨he, ht⟩, hes, hts⟩
        exact ⟨⟨he, hes⟩, ht, hts⟩
      · rintro ⟨⟨he, hes⟩, ht, hts⟩
        exact ⟨⟨he, ht⟩, hes, hts⟩

theorem forall₂_same_refl {vs : List Value} (h : vs.all Value.tidy = true) :
    List.Forall₂ Value.Same vs vs :=
  forall₂_same_iff.mpr ⟨rfl, h⟩

theorem Value.find?_eraseFrame (f : List (String × Value)) {x : String}
    (hx : isStatementName x = false) :
    (Value.eraseFrame f).find? (fun b => b.1 == x) =
      (f.find? fun b => b.1 == x).map fun b => (b.1, b.2.erase) := by
  induction f with
  | nil => rfl
  | cons b f ih =>
    obtain ⟨n, v⟩ := b
    by_cases hn : isStatementName n = true
    · have hne : (n == x) = false := by
        rw [beq_eq_false_iff_ne]
        rintro rfl
        simp [hn] at hx
      simp [Value.eraseFrame, hn, hne, ih]
    · by_cases hnx : (n == x) = true <;> simp [Value.eraseFrame, hn, hnx, ih]

namespace Env

theorem lookup_cons_of_some {f : Frame} {x : String} {b : String × Value}
    (h : f.find? (fun b => b.1 == x) = some b) (env : Env) :
    Env.lookup (f :: env) x = some b.2 := by
  simp [Env.lookup, h]

theorem lookup_cons_of_none {f : Frame} {x : String} (h : f.find? (fun b => b.1 == x) = none)
    (env : Env) : Env.lookup (f :: env) x = Env.lookup env x := by
  simp [Env.lookup, h]

theorem lookup_erase (env : Env) {x : String} (hx : isStatementName x = false) :
    (Env.erase env).lookup x = (env.lookup x).map Value.erase := by
  induction env with
  | nil => rfl
  | cons f env ih =>
    have hf := Value.find?_eraseFrame f hx
    simp only [Env.erase] at ih ⊢
    rw [Value.eraseScopes]
    split
    · next hnil =>
      rw [hnil, List.find?_nil] at hf
      rw [ih, lookup_cons_of_none (Option.map_eq_none_iff.mp hf.symm)]
    · next b bs hcons =>
      rw [← hcons]
      cases hfind : f.find? (fun b => b.1 == x) with
      | none =>
        rw [hfind, Option.map_none] at hf
        rw [lookup_cons_of_none hf, lookup_cons_of_none hfind, ih]
      | some p =>
        rw [hfind, Option.map_some] at hf
        rw [lookup_cons_of_some hf, lookup_cons_of_some hfind]
        rfl

theorem erase_bind (env : Env) (x : String) (v : Value) :
    (env.bind x v).erase =
      if isStatementName x then env.erase else (env.erase).bind x v.erase := by
  by_cases hx : isStatementName x = true <;>
    simp [Env.bind, Env.erase, Value.eraseScopes, Value.eraseFrame, hx]

theorem tidy_of_lookup {env : Env} {x : String} {v : Value}
    (h : Value.tidyScopes env = true) (hl : env.lookup x = some v) : v.tidy = true := by
  induction env with
  | nil => cases hl
  | cons f env ih =>
    simp only [Value.tidyScopes_eq_all, List.all_cons, Bool.and_eq_true] at h
    cases hfind : f.find? (fun b => b.1 == x) with
    | none =>
      rw [lookup_cons_of_none hfind] at hl
      exact ih (by simpa using h.2) hl
    | some b =>
      rw [lookup_cons_of_some hfind] at hl
      cases hl
      simp only [List.all_eq_true] at h
      exact h.1 b (List.mem_of_find?_eq_some hfind)

/-- Two frames bind the same names in the same order, to values that agree. -/
def FrameSame (f₁ f₂ : Frame) : Prop :=
  List.Forall₂ (fun b₁ b₂ => b₁.1 = b₂.1 ∧ Value.Same b₁.2 b₂.2) f₁ f₂

theorem FrameSame.eraseFrame {f₁ f₂ : Frame} (h : FrameSame f₁ f₂) :
    Value.eraseFrame f₁ = Value.eraseFrame f₂ ∧ Value.tidyFrame f₁ = true := by
  induction h with
  | nil => exact ⟨rfl, rfl⟩
  | @cons b₁ b₂ f₁ f₂ hb _ ih =>
    obtain ⟨n, v₁⟩ := b₁
    obtain ⟨n', v₂⟩ := b₂
    obtain ⟨rfl, hv⟩ := hb
    refine ⟨?_, by simpa [hv.tidy] using ih.2⟩
    simp only [Value.eraseFrame, hv.erase, ih.1]

theorem FrameSame.find? {f₁ f₂ : Frame} (h : FrameSame f₁ f₂) (n : String) :
    Option.Rel Value.Same ((f₁.find? fun b => b.1 == n).map Prod.snd)
      ((f₂.find? fun b => b.1 == n).map Prod.snd) := by
  induction h with
  | nil => exact .none
  | @cons b₁ b₂ f₁ f₂ hb _ ih =>
    obtain ⟨hn, hv⟩ := hb
    by_cases h₁ : (b₁.1 == n) = true
    · have h₂ : (b₂.1 == n) = true := hn ▸ h₁
      simp only [List.find?_cons, h₁, h₂, Option.map_some]
      exact .some hv
    · have h₂ : (b₂.1 == n) = false := by simpa [← hn] using h₁
      simp only [List.find?_cons, h₂, Bool.not_eq_true] at h₁ ⊢
      simpa [h₁] using ih

theorem FrameSame.set {f₁ f₂ : Frame} (h : FrameSame f₁ f₂) (n : String) {v₁ v₂ : Value}
    (hv : Value.Same v₁ v₂) : FrameSame (Env.Frame.set f₁ n v₁) (Env.Frame.set f₂ n v₂) := by
  have hnames : f₁.map Prod.fst = f₂.map Prod.fst := by
    induction h with
    | nil => rfl
    | cons hb _ ih => simp [hb.1, ih]
  have hany : (f₁.any fun b => b.1 == n) = (f₂.any fun b => b.1 == n) := by
    rw [show (fun b : String × Value => b.1 == n) = (fun m => m == n) ∘ Prod.fst from rfl,
      ← List.any_map, ← List.any_map, hnames]
  unfold Env.Frame.set
  rw [hany]
  split
  · refine List.forall₂_map_left_iff.mpr (List.forall₂_map_right_iff.mpr ?_)
    refine h.imp fun b₁ b₂ hb => ?_
    rw [hb.1]
    split
    · exact ⟨rfl, hv⟩
    · exact hb
  · exact List.rel_append h (List.Forall₂.cons ⟨rfl, hv⟩ .nil)

end Env

namespace Env.Same

variable {env₁ env₂ : Env}

theorem lookup (h : Env.Same env₁ env₂) {x : String} (hx : isStatementName x = false) :
    Option.Rel Value.Same (env₁.lookup x) (env₂.lookup x) := by
  have he := congrArg (Env.lookup · x) h.erase
  simp only [Env.lookup_erase _ hx] at he
  cases h₁ : env₁.lookup x with
  | none =>
    rw [h₁, Option.map_none] at he
    rw [Option.map_eq_none_iff.mp he.symm]
    exact .none
  | some v₁ =>
    rw [h₁, Option.map_some] at he
    obtain ⟨v₂, h₂, hv⟩ := Option.map_eq_some_iff.mp he.symm
    rw [h₂]
    exact .some ⟨hv.symm, Env.tidy_of_lookup h.tidy h₁⟩

theorem bind (h : Env.Same env₁ env₂) (x : String) {v₁ v₂ : Value} (hv : Value.Same v₁ v₂) :
    Env.Same (env₁.bind x v₁) (env₂.bind x v₂) := by
  refine ⟨by simp only [Env.erase_bind, hv.erase, h.erase], ?_⟩
  have ht := h.tidy
  simp only [Value.tidyScopes_eq_all] at ht
  simp [Env.bind, hv.tidy, ht]

/-- A binding of a statement's value is invisible up to erasure. -/
theorem bind_statement (h : Env.Same env₁ env₂) {d : String} (hd : isStatementName d = true)
    {v : Value} (hv : v.tidy = true) : Env.Same (env₁.bind d v) env₂ := by
  refine ⟨by simp only [Env.erase_bind, hd, if_true, h.erase], ?_⟩
  have ht := h.tidy
  simp only [Value.tidyScopes_eq_all] at ht
  simp [Env.bind, hv, ht]

theorem cons (h : Env.Same env₁ env₂) {f₁ f₂ : Frame} (hf : Env.FrameSame f₁ f₂) :
    Env.Same (f₁ :: env₁) (f₂ :: env₂) := by
  obtain ⟨hfe, hft⟩ := hf.eraseFrame
  refine ⟨?_, ?_⟩
  · have he := h.erase
    simp only [Env.erase] at he ⊢
    rw [Value.eraseScopes, Value.eraseScopes, hfe, he]
  · simp only [Value.tidyScopes, hft, h.tidy, Bool.and_self]

end Env.Same

namespace Value.Same

variable {vs₁ vs₂ : List Value}

theorem listOf (h : List.Forall₂ Value.Same vs₁ vs₂) (t : Ty) :
    Value.Same (Value.listOf vs₁ t) (Value.listOf vs₂ t) := by
  obtain ⟨he, ht⟩ := forall₂_same_iff.mp h
  exact ⟨by simp [he], by simpa using ht⟩

theorem tupleOf (h : List.Forall₂ Value.Same vs₁ vs₂) :
    Value.Same (Value.tupleOf vs₁) (Value.tupleOf vs₂) := by
  obtain ⟨he, ht⟩ := forall₂_same_iff.mp h
  exact ⟨by simp [he], by simpa using ht⟩

theorem tableOf (h : List.Forall₂ Value.Same vs₁ vs₂) (cs : List (String × Ty)) :
    Value.Same (Value.tableOf cs vs₁) (Value.tableOf cs vs₂) := by
  obtain ⟨he, ht⟩ := forall₂_same_iff.mp h
  exact ⟨by simp [he], by simpa using ht⟩

@[simp] theorem int_left {n : Int} {v : Value} : Value.Same (.int n) v ↔ v = .int n :=
  ⟨fun h => Value.erase_eq_int.mp h.erase.symm, fun h => by subst h; exact refl rfl⟩

@[simp] theorem int_right {n : Int} {v : Value} : Value.Same v (.int n) ↔ v = .int n :=
  ⟨fun h => Value.erase_eq_int.mp h.erase, fun h => by subst h; exact refl rfl⟩

@[simp] theorem bool_left {b : Bool} {v : Value} : Value.Same (.bool b) v ↔ v = .bool b :=
  ⟨fun h => Value.erase_eq_bool.mp h.erase.symm, fun h => by subst h; exact refl rfl⟩

@[simp] theorem bool_right {b : Bool} {v : Value} : Value.Same v (.bool b) ↔ v = .bool b :=
  ⟨fun h => Value.erase_eq_bool.mp h.erase, fun h => by subst h; exact refl rfl⟩

@[simp] theorem string_left {s : String} {v : Value} : Value.Same (.string s) v ↔ v = .string s :=
  ⟨fun h => Value.erase_eq_string.mp h.erase.symm, fun h => by subst h; exact refl rfl⟩

@[simp] theorem string_right {s : String} {v : Value} : Value.Same v (.string s) ↔ v = .string s :=
  ⟨fun h => Value.erase_eq_string.mp h.erase, fun h => by subst h; exact refl rfl⟩

@[simp] theorem schema_left {cs : List (String × Ty)} {v : Value} :
    Value.Same (.schema cs) v ↔ v = .schema cs :=
  ⟨fun h => Value.erase_eq_schema.mp h.erase.symm, fun h => by subst h; exact refl rfl⟩

@[simp] theorem schema_right {cs : List (String × Ty)} {v : Value} :
    Value.Same v (.schema cs) ↔ v = .schema cs :=
  ⟨fun h => Value.erase_eq_schema.mp h.erase, fun h => by subst h; exact refl rfl⟩

theorem tuple_inv {es₁ : List Value} {t : Ty} {v₂ : Value} (h : Value.Same (.tuple es₁ t) v₂) :
    ∃ es₂, v₂ = .tuple es₂ t ∧ List.Forall₂ Value.Same es₁ es₂ := by
  obtain ⟨he, ht⟩ := h
  cases v₂ <;> simp only [Value.erase, eraseAll_eq_map, reduceCtorEq, Value.tuple.injEq] at he
  obtain ⟨hes, rfl⟩ := he
  exact ⟨_, rfl, forall₂_same_iff.mpr ⟨hes, by simpa [Value.tidy] using ht⟩⟩

theorem list_inv {es₁ : List Value} {t : Ty} {v₂ : Value} (h : Value.Same (.list es₁ t) v₂) :
    ∃ es₂, v₂ = .list es₂ t ∧ List.Forall₂ Value.Same es₁ es₂ := by
  obtain ⟨he, ht⟩ := h
  cases v₂ <;> simp only [Value.erase, eraseAll_eq_map, reduceCtorEq, Value.list.injEq] at he
  obtain ⟨hes, rfl⟩ := he
  exact ⟨_, rfl, forall₂_same_iff.mpr ⟨hes, by simpa [Value.tidy] using ht⟩⟩

theorem table_inv {cs : List (String × Ty)} {rs₁ : List Value} {t : Ty} {v₂ : Value}
    (h : Value.Same (.table cs rs₁ t) v₂) :
    ∃ rs₂, v₂ = .table cs rs₂ t ∧ List.Forall₂ Value.Same rs₁ rs₂ := by
  obtain ⟨he, ht⟩ := h
  cases v₂ <;> simp only [Value.erase, eraseAll_eq_map, reduceCtorEq, Value.table.injEq] at he
  obtain ⟨rfl, hrs, rfl⟩ := he
  exact ⟨_, rfl, forall₂_same_iff.mpr ⟨hrs, by simpa [Value.tidy] using ht⟩⟩

end Value.Same

namespace Operators

theorem textOf?_erase (v : Value) : textOf? v.erase = textOf? v := by
  cases v <;> rfl

@[simp] theorem erase_intResult (name : String) (n : Int) :
    (intResult name n).erase = intResult name n := by
  unfold intResult
  split <;> rfl

@[simp] theorem erase_cannot (op : String) (a b : Value) :
    (cannot op a b).erase = cannot op a.erase b.erase := by
  simp [cannot, Value.erase]

@[simp] theorem erase_cannotApply (op : String) (a : Value) :
    (cannotApply op a).erase = cannotApply op a.erase := by
  simp [cannotApply, Value.erase]

theorem erase_arithmetic (name : String) (f : Int → Int → Int) (divides : Bool) (a b : Value) :
    (arithmetic name f divides a b).erase = arithmetic name f divides a.erase b.erase := by
  cases a <;> cases b <;> simp only [arithmetic, Value.erase, erase_cannot]
  split <;> simp [Value.erase]

theorem erase_compare (f : Ordering → Bool) (a b : Value) :
    (compare f a b).erase = compare f a.erase b.erase := by
  cases a <;> cases b <;> simp only [compare, Value.erase, erase_cannot]

theorem erase_logical (name : String) (f : Bool → Bool → Bool) (a b : Value) :
    (logical name f a b).erase = logical name f a.erase b.erase := by
  cases a <;> cases b <;> simp only [logical, Value.erase, erase_cannot]

theorem erase_concat (a b : Value) : (concat a b).erase = concat a.erase b.erase := by
  simp only [concat, textOf?_erase, Value.asList?_erase]
  cases textOf? a <;> cases textOf? b <;> cases a.asList? <;> cases b.asList? <;>
    simp only [Option.map_none, Option.map_some, erase_cannot, Value.erase]
  all_goals split <;> simp [Value.listOf, Value.erase]

theorem erase_binary (op : PrimOp) (a b : Value) :
    (binary op a b).erase = binary op a.erase b.erase := by
  cases op <;> simp only [binary, erase_arithmetic, erase_compare, erase_logical, erase_concat,
    Value.equal_erase, Value.type_erase, Value.erase]

theorem erase_unary (op : PrimOp) (a : Value) : (unary op a).erase = unary op a.erase := by
  cases op <;> cases a <;> simp only [unary, Value.erase, erase_cannotApply, erase_intResult]

theorem erase_apply (op : PrimOp) (a : Value) (r : Option Value) :
    (apply op a r).erase = apply op a.erase (r.map Value.erase) := by
  cases r <;> simp only [apply, Option.map_none, Option.map_some, erase_unary, erase_binary]

theorem tidy_intResult (name : String) (n : Int) : (intResult name n).tidy = true := by
  unfold intResult
  split <;> rfl

theorem tidy_arithmetic (name : String) (f : Int → Int → Int) (divides : Bool) (a b : Value) :
    (arithmetic name f divides a b).tidy = true := by
  unfold arithmetic
  split
  · split
    · rfl
    · exact tidy_intResult _ _
  · rfl

theorem tidy_compare (f : Ordering → Bool) (a b : Value) : (compare f a b).tidy = true := by
  unfold compare
  split <;> rfl

theorem tidy_logical (name : String) (f : Bool → Bool → Bool) (a b : Value) :
    (logical name f a b).tidy = true := by
  unfold logical
  split <;> rfl

theorem tidy_concat {a b : Value} (ha : a.tidy = true) (hb : b.tidy = true) :
    (concat a b).tidy = true := by
  unfold concat
  split
  · rfl
  · split
    · next xs tx ys ty hxs hys =>
      dsimp only
      split
      · rfl
      · simp only [Value.tidy_listOf, List.all_append, Bool.and_eq_true]
        exact ⟨Value.tidy_of_asList? hxs ha, Value.tidy_of_asList? hys hb⟩
    · rfl

theorem tidy_apply (op : PrimOp) {a : Value} {r : Option Value} (ha : a.tidy = true)
    (hr : ∀ b ∈ r, b.tidy = true) : (apply op a r).tidy = true := by
  cases r with
  | none => cases op <;> cases a <;> simp only [apply, unary, tidy_intResult] <;> rfl
  | some b =>
    have hb := hr b rfl
    cases op <;> simp only [apply, binary, tidy_arithmetic, tidy_compare, tidy_logical,
      tidy_concat ha hb] <;> rfl

end Operators

end Retl
