import Retl.Proofs.StepTyping
/-!
# What a run holds

Some facts about a run are facts about every value it holds: every integer lies in a range,
every table's rows fit its schema. Such a fact is an invariant `Inv`: a condition on each
integer, each schema and each table, and a bound on the number of items of each sequence.
A value meets the invariant (`Value.Meets`) when every integer, schema and table inside it
satisfies the conditions (`Value.Holds`) and every text, list, tuple, dictionary and table
inside it is within the bound (`Value.Bounded`), looking into elements, pairs, rows and the
scopes functions captured. Integers and schemas can also be written in a program, so the
invariant asks the same of the literals an expression writes (`Expr.litsOk`).

Evaluation makes new integers and tables in few places: literals, arithmetic and negation,
the lengths `len` and `count` measure, and the builtins `range`, `stringToInt`, `createTable`
and `readCSV`. Everything else rearranges values it was handed. The counters of a `foreach`
over an integer are new too, but only the loop's body sees them, and what the body gives is
dropped. `Inv.Kept` says what an invariant needs at those places; with it, one
step of evaluation through an engine whose results meet the invariant gives results that
satisfy its conditions (`Eval.step_holds`, `Eval.callStep_holds`).

The bound on sequences is the exception: a step may build a sequence longer than any bound
(`range`, `++`, reading input), so a bound is kept only by the runs that are assumed to keep it.
-/

namespace Retl

open Eval

/-- An invariant of the values a run holds: a condition on every integer, every schema and
every table (its columns and its rows), and a bound on the number of items of every sequence. -/
structure Inv where
  int : Int → Bool
  schema : List (String × Ty) → Bool
  table : List (String × Ty) → List Value → Prop
  seq : Nat → Prop

/-- Whether a literal satisfies an invariant: an integer literal must satisfy its condition on
integers. -/
def Inv.litOk (I : Inv) : Literal → Bool
  | .int n => I.int n
  | _ => true

mutual

/-- Whether the literals an expression writes satisfy an invariant: its integer literals,
dictionary keys included, and the columns of its schemas, inside function bodies too. -/
def Expr.litsOk (I : Inv) : Expr → Bool
  | .lit l _ => I.litOk l
  | .ref _ _ | .empty _ => true
  | .bind _ _ v next _ => v.litsOk I && Expr.litsOkOpt I next
  | .aliasType _ _ next _ => Expr.litsOkOpt I next
  | .lam _ _ body _ => body.litsOk I
  | .apply f args _ => f.litsOk I && Expr.litsOkAll I args
  | .prim _ l r _ => l.litsOk I && Expr.litsOkOpt I r
  | .branch c t e _ => c.litsOk I && t.litsOk I && Expr.litsOkOpt I e
  | .matchOn s cases _ => s.litsOk I && Expr.litsOkCases I cases
  | .iter _ it body _ => it.litsOk I && body.litsOk I
  | .list es _ | .tuple es _ => Expr.litsOkAll I es
  | .access t _ _ => t.litsOk I
  | .dict pairs _ => Expr.litsOkEntries I pairs
  | .schema cs _ => I.schema cs

/-- Whether the literals of an optional expression satisfy an invariant. -/
def Expr.litsOkOpt (I : Inv) : Option Expr → Bool
  | none => true
  | some e => e.litsOk I

/-- Whether the literals of every expression of a list satisfy an invariant. -/
def Expr.litsOkAll (I : Inv) : List Expr → Bool
  | [] => true
  | e :: es => e.litsOk I && Expr.litsOkAll I es

/-- Whether the literals of the guards and bodies of `match` cases satisfy an invariant. -/
def Expr.litsOkCases (I : Inv) : List (Case × Expr) → Bool
  | [] => true
  | (c, body) :: cs => Case.litsOk I c && body.litsOk I && Expr.litsOkCases I cs

/-- Whether the keys and values of dictionary entries satisfy an invariant. -/
def Expr.litsOkEntries (I : Inv) : List (Tree.LitNode × Expr) → Bool
  | [] => true
  | (k, v) :: es => I.litOk k.literal && v.litsOk I && Expr.litsOkEntries I es

/-- Whether the literals of a case's guard satisfy an invariant. -/
def Case.litsOk (I : Inv) : Case → Bool
  | .typed _ _ p _ => Expr.litsOkOpt I p
  | _ => true

end

/-- The integers, schemas and tables inside a value satisfy an invariant's conditions, through
elements, pairs, rows and captured scopes, and the bodies of the functions inside it write
only literals that satisfy them. -/
inductive Value.Holds (I : Inv) : Value → Prop
  | int {n : Int} (h : I.int n = true) : Value.Holds I (.int n)
  | bool (b : Bool) : Value.Holds I (.bool b)
  | char (c : Char) : Value.Holds I (.char c)
  | string (s : String) : Value.Holds I (.string s)
  | null : Value.Holds I .null
  | error (m : String) : Value.Holds I (.error m)
  | schema {cs : List (String × Ty)} (h : I.schema cs = true) : Value.Holds I (.schema cs)
  | list {es : List Value} {t : Ty} (hes : ∀ x ∈ es, Value.Holds I x) :
      Value.Holds I (.list es t)
  | tuple {es : List Value} {t : Ty} (hes : ∀ x ∈ es, Value.Holds I x) :
      Value.Holds I (.tuple es t)
  | dict {ps : List (Value × Value)} {t : Ty} (hkeys : ∀ p ∈ ps, Value.Holds I p.1)
      (hvals : ∀ p ∈ ps, Value.Holds I p.2) : Value.Holds I (.dict ps t)
  | table {cs : List (String × Ty)} {rs : List Value} {t : Ty} (hcs : I.schema cs = true)
      (hrows : I.table cs rs) (hrs : ∀ r ∈ rs, Value.Holds I r) : Value.Holds I (.table cs rs t)
  | func {id : FuncId} {ps : List (String × Ty)} {r : Ty} {body : Option Expr}
      {closure : List (List (String × Value))} {t : Ty}
      (hbody : ∀ b, body = some b → b.litsOk I = true)
      (hclosure : ∀ f ∈ closure, ∀ b ∈ f, Value.Holds I b.2) :
      Value.Holds I (.func id ps r body closure t)

/-- Every text, list, tuple, dictionary and table inside a value has a number of items within
the bound `p`, through elements, pairs, rows and captured scopes. -/
inductive Value.Bounded (p : Nat → Prop) : Value → Prop
  | int (n : Int) : Value.Bounded p (.int n)
  | bool (b : Bool) : Value.Bounded p (.bool b)
  | char (c : Char) : Value.Bounded p (.char c)
  | string {s : String} (h : p s.length) : Value.Bounded p (.string s)
  | null : Value.Bounded p .null
  | error (m : String) : Value.Bounded p (.error m)
  | schema (cs : List (String × Ty)) : Value.Bounded p (.schema cs)
  | list {es : List Value} {t : Ty} (h : p es.length) (hes : ∀ x ∈ es, Value.Bounded p x) :
      Value.Bounded p (.list es t)
  | tuple {es : List Value} {t : Ty} (h : p es.length) (hes : ∀ x ∈ es, Value.Bounded p x) :
      Value.Bounded p (.tuple es t)
  | dict {ps : List (Value × Value)} {t : Ty} (h : p ps.length)
      (hkeys : ∀ q ∈ ps, Value.Bounded p q.1) (hvals : ∀ q ∈ ps, Value.Bounded p q.2) :
      Value.Bounded p (.dict ps t)
  | table {cs : List (String × Ty)} {rs : List Value} {t : Ty} (h : p rs.length)
      (hrs : ∀ r ∈ rs, Value.Bounded p r) : Value.Bounded p (.table cs rs t)
  | func {id : FuncId} {ps : List (String × Ty)} {r : Ty} {body : Option Expr}
      {closure : List (List (String × Value))} {t : Ty}
      (hclosure : ∀ f ∈ closure, ∀ b ∈ f, Value.Bounded p b.2) :
      Value.Bounded p (.func id ps r body closure t)

/-- A value meets an invariant: it satisfies its conditions and keeps its bound. -/
def Value.Meets (I : Inv) (v : Value) : Prop := v.Holds I ∧ v.Bounded I.seq

/-- A scope whose bindings all meet an invariant. -/
def Env.Meets (I : Inv) (env : Env) : Prop := ∀ f ∈ env, ∀ b ∈ f, b.2.Meets I

/-- A field as `readCSV` reads it for a column: the value of some text in the column's type. -/
def Builtins.FieldRead (v : Value) (c : String × Ty) : Prop :=
  ∃ text, Builtins.fieldValue text c.2 = .ok (some v)

/-- A row as `readCSV` builds it for a schema: a tuple typed by the column types whose
fields are read, column by column, from texts. -/
def Builtins.ReadRow (cs : List (String × Ty)) (r : Value) : Prop :=
  ∃ vs, r = .tuple vs (.tuple (cs.map Prod.snd)) ∧ List.Forall₂ Builtins.FieldRead vs cs

/-- What an invariant needs where evaluation makes integers and tables: every integer that
fits in 32 bits satisfies it; the elements of a range satisfy it when its ends do, and the
lengths of sequences within the bound satisfy it; sequences of at most two items are within
the bound; and the tables `createTable` accepts and `readCSV` builds satisfy it. -/
structure Inv.Kept (I : Inv) : Prop where
  fits : ∀ n, fitsInt32 n = true → I.int n = true
  range : ∀ a e : Int, I.int a = true → I.int e = true → ∀ i : Nat, i < (e - a).toNat →
    I.int (a + i) = true
  length : ∀ n : Nat, I.seq n → I.int n = true
  small : ∀ n, n ≤ 2 → I.seq n
  created : ∀ cs rows, I.schema cs = true → (∀ r ∈ rows, Builtins.rowProblem cs r = none) →
    (∀ r ∈ rows, r.Holds I) → I.table cs rows
  read : ∀ cs rows, I.schema cs = true → (∀ r ∈ rows, Builtins.ReadRow cs r) → I.table cs rows

/-- An engine that keeps an invariant: evaluating an expression whose literals satisfy it in
a scope that meets it, and calling a value that meets it on arguments that meet it, give
results that meet it. -/
structure Engine.Keeps (I : Inv) (k : Engine) : Prop where
  eval {env : Env} {E : Ty} {e : Expr} : env.Meets I → e.litsOk I = true →
    Returns (k.eval env E e) (Value.Meets I)
  call {f : Value} {args : List Value} {pos : Position} : f.Meets I → (∀ a ∈ args, a.Meets I) →
    Returns (k.call f args pos) (Value.Meets I)

variable {I : Inv}

namespace Value

theorem Holds.retype {v : Value} (h : v.Holds I) (t : Ty) : (v.retype t).Holds I := by
  cases h <;> simp only [Value.retype] <;> constructor <;> assumption

theorem Bounded.retype {p : Nat → Prop} {v : Value} (h : v.Bounded p) (t : Ty) :
    (v.retype t).Bounded p := by
  cases h <;> simp only [Value.retype] <;> constructor <;> assumption

theorem Meets.retype {v : Value} (h : v.Meets I) (t : Ty) : (v.retype t).Meets I :=
  ⟨h.1.retype t, h.2.retype t⟩

theorem Meets.holds {v : Value} (h : v.Meets I) : v.Holds I := h.1

/-- Every value keeps a bound that every number satisfies. -/
theorem bounded_of_forall {p : Nat → Prop} (hp : ∀ n, p n) (v : Value) : v.Bounded p :=
  match v with
  | .int _ => .int _
  | .bool _ => .bool _
  | .char _ => .char _
  | .string _ => .string (hp _)
  | .null => .null
  | .error _ => .error _
  | .schema _ => .schema _
  | .list es _ => .list (hp _) fun x _hx => bounded_of_forall hp x
  | .tuple es _ => .tuple (hp _) fun x _hx => bounded_of_forall hp x
  | .dict ps _ => .dict (hp _) (fun q _hq => bounded_of_forall hp q.1)
      fun q _hq => bounded_of_forall hp q.2
  | .table _ rs _ => .table (hp _) fun r _hr => bounded_of_forall hp r
  | .func _ _ _ _ closure _ => .func fun f _hf b _hb => bounded_of_forall hp b.2
termination_by sizeOf v
decreasing_by
  all_goals simp_wf
  · have := List.sizeOf_lt_of_mem _hx
    omega
  · have := List.sizeOf_lt_of_mem _hx
    omega
  · have := List.sizeOf_lt_of_mem _hq
    obtain ⟨a, b⟩ := q
    simp only [Prod.mk.sizeOf_spec] at this ⊢
    omega
  · have := List.sizeOf_lt_of_mem _hq
    obtain ⟨a, b⟩ := q
    simp only [Prod.mk.sizeOf_spec] at this ⊢
    omega
  · have := List.sizeOf_lt_of_mem _hr
    omega
  · have h₁ := List.sizeOf_lt_of_mem _hf
    have h₂ := List.sizeOf_lt_of_mem _hb
    obtain ⟨n, w⟩ := b
    simp only [Prod.mk.sizeOf_spec] at h₂ ⊢
    omega

theorem Holds.listOf {es : List Value} (hes : ∀ x ∈ es, x.Holds I) (t : Ty) :
    (listOf es t).Holds I :=
  .list hes

theorem Holds.tupleOf {es : List Value} (hes : ∀ x ∈ es, x.Holds I) : (tupleOf es).Holds I :=
  .tuple hes

theorem Holds.asList? {v : Value} (h : v.Holds I) {es : List Value} {t : Ty}
    (hl : v.asList? = some (es, t)) : ∀ x ∈ es, x.Holds I := by
  cases h <;> simp only [Value.asList?, reduceCtorEq, Option.some.injEq, Prod.mk.injEq] at hl
  case list hes =>
    obtain ⟨rfl, rfl⟩ := hl
    exact hes
  case table hrs =>
    obtain ⟨rfl, rfl⟩ := hl
    exact hrs

theorem Holds.items? {v : Value} (h : v.Holds I) {xs : List Value} (hi : v.items? = some xs) :
    ∀ x ∈ xs, x.Holds I := by
  cases h <;> simp only [Value.items?, reduceCtorEq, Option.some.injEq] at hi <;> subst hi
  case string s =>
    intro x hx
    obtain ⟨c, -, rfl⟩ := List.mem_map.mp hx
    exact .char c
  case list hes => exact hes
  case tuple hes => exact hes
  case dict hkeys hvals =>
    intro x hx
    obtain ⟨q, hq, rfl⟩ := List.mem_map.mp hx
    refine .tupleOf fun y hy => ?_
    simp only [List.mem_cons, List.not_mem_nil, or_false] at hy
    rcases hy with rfl | rfl
    · exact hkeys q hq
    · exact hvals q hq
  case table hrs => exact hrs

/-- A sequence within a bound has a number of items within it. -/
theorem Bounded.items? {p : Nat → Prop} {v : Value} (h : v.Bounded p) {xs : List Value}
    (hi : v.items? = some xs) : p xs.length := by
  cases h <;> simp only [Value.items?, reduceCtorEq, Option.some.injEq] at hi <;> subst hi
  all_goals simpa

/-- The items a loop takes from a value within a bound are within it, given that pairs are. -/
theorem Bounded.items?_mem {p : Nat → Prop} (hpair : p 2) {v : Value} (h : v.Bounded p)
    {xs : List Value} (hi : v.items? = some xs) : ∀ x ∈ xs, x.Bounded p := by
  cases h <;> simp only [Value.items?, reduceCtorEq, Option.some.injEq] at hi <;> subst hi
  case string s =>
    intro x hx
    obtain ⟨c, -, rfl⟩ := List.mem_map.mp hx
    exact .char c
  case list hes => exact hes
  case tuple hes => exact hes
  case dict hkeys hvals =>
    intro x hx
    obtain ⟨q, hq, rfl⟩ := List.mem_map.mp hx
    refine .tuple hpair fun y hy => ?_
    simp only [List.mem_cons, List.not_mem_nil, or_false] at hy
    rcases hy with rfl | rfl
    · exact hkeys q hq
    · exact hvals q hq
  case table hrs => exact hrs

theorem Meets.asList? {v : Value} (h : v.Meets I) {es : List Value} {t : Ty}
    (hl : v.asList? = some (es, t)) : ∀ x ∈ es, x.Meets I := by
  refine fun x hx => ⟨h.1.asList? hl x hx, ?_⟩
  rcases h with ⟨-, hb⟩
  cases hb <;> simp only [Value.asList?, reduceCtorEq, Option.some.injEq, Prod.mk.injEq] at hl
  case list hes =>
    obtain ⟨rfl, rfl⟩ := hl
    exact hes x hx
  case table hrs =>
    obtain ⟨rfl, rfl⟩ := hl
    exact hrs x hx

theorem Meets.items? (hI : I.Kept) {v : Value} (h : v.Meets I) {xs : List Value}
    (hi : v.items? = some xs) : ∀ x ∈ xs, x.Meets I :=
  fun x hx => ⟨h.1.items? hi x hx, h.2.items?_mem (hI.small 2 (Nat.le_refl 2)) hi x hx⟩

end Value

namespace Env

/-- A name resolves to a value bound in one of the scope's frames. -/
theorem mem_of_lookup {env : Env} {name : String} {v : Value} (h : env.lookup name = some v) :
    ∃ f ∈ env, ∃ b ∈ f, b.2 = v := by
  induction env with
  | nil => simp [Env.lookup] at h
  | cons f fs ih =>
    unfold Env.lookup at h
    split at h
    next b hb =>
      simp only [Option.some.injEq] at h
      exact ⟨f, List.mem_cons_self, _, List.mem_of_find?_eq_some hb, h⟩
    next =>
      obtain ⟨f', hf', b, hb, rfl⟩ := ih h
      exact ⟨f', List.mem_cons_of_mem f hf', b, hb, rfl⟩

theorem Meets.lookup {env : Env} (h : env.Meets I) {name : String} {v : Value}
    (hl : env.lookup name = some v) : v.Meets I := by
  obtain ⟨f, hf, b, hb, rfl⟩ := mem_of_lookup hl
  exact h f hf b hb

theorem Meets.cons {env : Env} {f : Frame} (hf : ∀ b ∈ f, b.2.Meets I) (h : env.Meets I) :
    Env.Meets I (f :: env) := by
  intro f' hf'
  rcases List.mem_cons.mp hf' with rfl | hf'
  · exact hf
  · exact h f' hf'

theorem Meets.bind {env : Env} (h : env.Meets I) (name : String) {v : Value} (hv : v.Meets I) :
    (env.bind name v).Meets I :=
  Meets.cons (fun b hb => by simp at hb; exact hb ▸ hv) h

end Env

namespace Operators

theorem intResult_holds (hI : I.Kept) (name : String) (n : Int) : (intResult name n).Holds I := by
  unfold intResult
  split
  next h => exact .int (hI.fits n h)
  next => exact .error _

theorem arithmetic_holds (hI : I.Kept) (name : String) (f : Int → Int → Int) (divides : Bool)
    (a b : Value) : (arithmetic name f divides a b).Holds I := by
  unfold arithmetic
  split
  · split
    · exact .error _
    · exact intResult_holds hI _ _
  · exact .error _

theorem concat_holds {a b : Value} (ha : a.Holds I) (hb : b.Holds I) : (concat a b).Holds I := by
  unfold concat
  split
  · exact .string _
  split
  next xs tx ys ty hx hy =>
    dsimp only
    split
    · exact .error _
    · refine .listOf (fun v hv => ?_) _
      rcases List.mem_append.mp hv with hv | hv
      · exact ha.asList? hx v hv
      · exact hb.asList? hy v hv
  · exact .error _

theorem compare_holds (f : Ordering → Bool) (a b : Value) : (compare f a b).Holds I := by
  unfold compare
  split
  · exact .bool _
  · exact .bool _
  · exact .bool _
  · exact .error _

theorem logical_holds (name : String) (f : Bool → Bool → Bool) (a b : Value) :
    (logical name f a b).Holds I := by
  unfold logical
  split
  · exact .bool _
  · exact .error _

/-- Operators keep an invariant's conditions: their integers fit in 32 bits, and a list they
join holds the elements of their operands. -/
theorem apply_holds (hI : I.Kept) (op : PrimOp) {a : Value} {b : Option Value} (ha : a.Holds I)
    (hb : ∀ b', b = some b' → b'.Holds I) : (apply op a b).Holds I := by
  cases b with
  | none =>
    simp only [apply, unary]
    split
    next => exact intResult_holds hI _ _
    next => exact .error _
    next => exact .bool _
    next => exact .error _
    next => exact .error _
  | some b =>
    -- the binary operators fall into the operator families, plus the value comparisons
    cases op <;> simp only [apply, binary]
    case add | sub | mul | div | rem => exact arithmetic_holds hI _ _ _ a b
    case lt | le | gt | ge => exact compare_holds _ a b
    case and | or => exact logical_holds _ _ a b
    case concat => exact concat_holds ha (hb b rfl)
    case eq | ne | same => exact .bool _
    case not | neg => exact .error _

end Operators

namespace Eval

/-- A boundary keeps an invariant's conditions: conforming retypes a value or gives an error. -/
theorem conformValue_holds {v : Value} (hv : v.Holds I) (E : Ty) (pos : Position) :
    Returns (conformValue v E pos) (Value.Holds I) := by
  unfold conformValue
  split
  · exact Returns.pure hv
  split
  · refine Returns.pure ?_
    split
    · exact hv
    · exact hv.retype _
  · exact Returns.bind Returns.trivial fun _ _ => Returns.pure (.error _)

theorem fail_holds (message : String) (pos : Position) :
    Returns (fail message pos) (Value.Holds I) :=
  Returns.bind Returns.trivial fun _ _ => Returns.pure (.error message)

end Eval

namespace Builtins

/-- A field read from a file is a scalar; an integer field fits in 32 bits. -/
theorem fieldValue_holds (hI : I.Kept) {text : String} {t : Ty} {v : Value}
    (h : fieldValue text t = .ok (some v)) : v.Holds I := by
  unfold fieldValue at h
  split at h
  · -- an integer field is read only when it fits
    split at h
    · split at h
      · cases h
        exact .int (hI.fits _ ‹_›)
      · cases h
    · cases h
    · cases h
  all_goals
    simp only [pure, Except.pure, Except.ok.injEq] at h
    (repeat' split at h) <;> cases h <;> constructor

theorem FieldRead.holds (hI : I.Kept) {v : Value} {c : String × Ty} (h : FieldRead v c) :
    v.Holds I :=
  let ⟨_, hv⟩ := h
  fieldValue_holds hI hv

theorem ReadRow.holds (hI : I.Kept) {cs : List (String × Ty)} {r : Value} (h : ReadRow cs r) :
    r.Holds I := by
  obtain ⟨vs, rfl, hvs⟩ := h
  refine .tuple fun v hv => ?_
  induction hvs with
  | nil => simp at hv
  | cons hx _ ih =>
    rcases List.mem_cons.mp hv with rfl | hv
    · exact hx.holds hI
    · exact ih hv

/-- Fields that all read give a row as `readCSV` builds it. -/
theorem forall₂_fieldRead : ∀ {zs : List (String × (String × Ty))} {fields : List (Option Value)},
    List.Forall₂ (fun z o => fieldValue z.1 z.2.2 = .ok o) zs fields → (∀ o ∈ fields, o.isSome) →
    List.Forall₂ FieldRead (fields.filterMap id) (zs.map Prod.snd)
  | [], [], .nil, _ => .nil
  | z :: zs, o :: fields, .cons hz h, hsome => by
    obtain ⟨v, rfl⟩ := Option.isSome_iff_exists.mp (hsome o List.mem_cons_self)
    exact .cons ⟨z.1, hz⟩ (forall₂_fieldRead h fun o ho => hsome o (List.mem_cons_of_mem _ ho))

/-- The field at a column's index of a row is one of the row's values. -/
theorem cell_holds (i : Nat) {r : Value} (hr : r.Holds I) : Returns (cell i r) (Value.Holds I) := by
  cases hr
  case tuple hes | list hes =>
    simp only [cell]
    split
    next v hv => exact Returns.pure (hes v (List.mem_of_getElem? hv))
    next => exact Returns.throw
  all_goals exact Returns.throw

/-- `readCSV` builds rows whose fields are read from texts, so its table satisfies the
invariant when the schema does. -/
theorem readCSV_holds (hI : I.Kept) (path : String) {columns : List (String × Ty)}
    (hcs : I.schema columns = true) (header : Bool) (pos : Position) :
    Returns (readCSV path columns header pos) (Value.Holds I) := by
  unfold readCSV
  refine Returns.bind Returns.trivial fun m _ => ?_
  dsimp only
  split
  · refine Returns.bind Returns.trivial fun bytes _ => ?_
    split
    · refine Returns.bind Returns.trivial fun text _ => ?_
      split
      · refine Returns.bind (Returns.forIn
          (fun rows => ∀ r ∈ rows.toList, r.Holds I ∧ ReadRow columns r)
          (by simp) fun x _ rows hrows => ?_) fun rows hrows =>
          Returns.pure (.table hcs (hI.read _ _ hcs fun r hr => (hrows r hr).2)
            fun r hr => (hrows r hr).1)
        by_cases hlen : (x.fst.length != columns.length) = true
        · rw [if_pos hlen]
          exact Returns.bind Returns.trivial fun _ _ => Returns.pure hrows
        rw [if_neg hlen]
        have hlen' : x.fst.length = columns.length := by simpa using hlen
        refine Returns.bind (Returns.mapM (P := fun z o => fieldValue z.1 z.2.2 = .ok o)
          fun a _ => ?_) fun fields hfields => ?_
        · split
          next o ho => exact Returns.pure ho
          next => exact Returns.throw
        split
        · exact Returns.bind Returns.trivial fun _ _ => Returns.pure hrows
        next hnone =>
          have hwidth : fields.length = columns.length := by
            rw [← hfields.length_eq, List.length_zip, hlen', Nat.min_self]
          have hsome : ∀ o ∈ fields, o.isSome := by
            intro o ho
            have hmem : o ∈ (fields.zip columns).map Prod.fst := by
              rw [List.map_fst_zip (by omega)]
              exact ho
            obtain ⟨p, hp, rfl⟩ := List.mem_map.mp hmem
            exact Option.isSome_iff_ne_none.mpr (by simpa using List.find?_eq_none.mp hnone p hp)
          have hread := forall₂_fieldRead hfields hsome
          rw [List.map_snd_zip (by omega)] at hread
          refine Returns.pure fun r hr => ?_
          simp only [ForInStep.value, Array.toList_push, List.mem_append, List.mem_singleton] at hr
          rcases hr with hr | rfl
          · exact hrows r hr
          have hrow : ReadRow columns _ := ⟨_, rfl, hread⟩
          exact ⟨hrow.holds hI, hrow⟩
      · exact Returns.throw
    · exact Returns.throw_bind
  · exact Returns.throw_bind
  · exact fail_holds _ _

theorem writeCSV_holds (path : String) (t : Value) (header : Bool) (pos : Position) :
    Returns (writeCSV path t header pos) (Value.Holds I) := by
  unfold writeCSV
  split
  · refine Returns.bind (Returns.forIn (fun s => ∀ r, s.1 = some r → r.Holds I) (by simp)
      fun row _ s _ => ?_) fun s hs => ?_
    · dsimp only
      refine Returns.ite (Returns.bind (fail_holds (I := I) _ _) fun v hv => Returns.pure ?_)
        (Returns.pure (by simp))
      intro r hr
      cases hr
      exact hv
    · dsimp only
      split
      next r hr => exact Returns.pure (hs r hr)
      next =>
        refine Returns.bind Returns.trivial fun m _ => ?_
        split
        · exact Returns.bind Returns.trivial fun _ _ => Returns.pure .null
        · exact Returns.throw
        · exact fail_holds _ _
  · exact fail_holds _ _

theorem zip_holds {xs ys : Value} (hxs : xs.Holds I) (hys : ys.Holds I) (pos : Position) :
    Returns (zip xs ys pos) (Value.Holds I) := by
  unfold zip
  rcases hl : xs.asList? with _ | ⟨as, ta⟩
  · exact fail_holds _ _
  rcases hr : ys.asList? with _ | ⟨bs, tb⟩
  · exact fail_holds _ _
  dsimp only
  refine Returns.ite (Returns.bind Returns.trivial fun _ _ =>
    Returns.pure (.listOf (by simp) _)) (Returns.pure (.listOf (fun p hp => ?_) _))
  obtain ⟨⟨a, b⟩, hab, rfl⟩ := List.mem_map.mp hp
  refine .tupleOf fun y hy => ?_
  simp only [List.mem_cons, List.not_mem_nil, or_false] at hy
  rcases hy with rfl | rfl
  · exact hxs.asList? hl _ (List.of_mem_zip hab).1
  · exact hys.asList? hr _ (List.of_mem_zip hab).2

/-- The state of a loop that collects values and may stop early with a result: the result
and the values collected so far satisfy the invariant's conditions. -/
def Gathered (I : Inv) (s : Option Value × Array Value) : Prop :=
  (∀ r, s.1 = some r → r.Holds I) ∧ ∀ x ∈ s.2.toList, x.Holds I

theorem Gathered.start : Gathered I (none, #[]) := ⟨by simp, by simp⟩

theorem Gathered.keep {s : Option Value × Array Value} (h : Gathered I s) : Gathered I (none, s.2) :=
  ⟨by simp, h.2⟩

theorem Gathered.push {s : Option Value × Array Value} (h : Gathered I s) {x : Value}
    (hx : x.Holds I) : Gathered I (none, s.2.push x) := by
  refine ⟨by simp, fun y hy => ?_⟩
  simp only [Array.toList_push, List.mem_append, List.mem_singleton] at hy
  rcases hy with hy | rfl
  · exact h.2 y hy
  · exact hx

theorem Gathered.stop {s : Option Value × Array Value} (h : Gathered I s) {r : Value}
    (hr : r.Holds I) : Gathered I (some r, s.2) := by
  refine ⟨fun r' hr' => ?_, h.2⟩
  cases hr'
  exact hr

section HigherOrder

variable {k : Engine} (hk : k.Keeps I)
include hk

theorem map_holds {f xs : Value} (hf : f.Meets I) (hxs : xs.Meets I) (pos : Position) :
    Returns (map k f xs pos) (Value.Holds I) := by
  unfold map
  rcases hl : xs.asList? with _ | ⟨items, t⟩
  · exact fail_holds _ _
  rcases hsig : signature? f with _ | ⟨ps, result⟩
  · exact fail_holds _ _
  dsimp only
  refine Returns.bind (Returns.forIn (Gathered I) Gathered.start fun x hx s hs => ?_)
    fun s hs => ?_
  swap
  · split
    next r hr => exact Returns.pure (hs.1 r hr)
    next => exact Returns.pure (.listOf hs.2 _)
  refine Returns.bind (hk.call hf fun a ha => ?_) fun r hr => ?_
  · rw [List.mem_singleton.mp ha]
    exact hxs.asList? hl x hx
  by_cases herr : r.isError = true
  · rw [if_pos herr]
    exact Returns.pure (hs.stop hr.holds)
  · rw [if_neg herr]
    exact Returns.pure (hs.push hr.holds)

theorem filter_holds {f xs : Value} (hf : f.Meets I) (hxs : xs.Meets I) (pos : Position) :
    Returns (filter k f xs pos) (Value.Holds I) := by
  unfold filter
  rcases hs : signature? f with _ | ⟨ps, result⟩
  · exact fail_holds _ _
  dsimp only
  split
  · exact fail_holds _ _
  rcases hl : xs.asList? with _ | ⟨items, t⟩
  · exact fail_holds _ _
  have hitems := hxs.asList? hl
  refine Returns.bind (Returns.forIn (Gathered I) Gathered.start fun x hx s hs => ?_)
    fun s hs => ?_
  swap
  · split
    next r hr => exact Returns.pure (hs.1 r hr)
    next => exact Returns.pure (.listOf hs.2 _)
  refine Returns.bind (hk.call hf fun a ha => ?_) fun r hr => ?_
  · rw [List.mem_singleton.mp ha]
    exact hitems x hx
  by_cases herr : r.isError = true
  · rw [if_pos herr]
    exact Returns.pure (hs.stop hr.holds)
  rw [if_neg herr]
  split
  · exact Returns.pure (hs.push (hitems x hx).holds)
  · exact Returns.pure hs.keep
  · exact Returns.bind (fail_holds _ _) fun v hv => Returns.pure (hs.stop hv)

theorem fold_holds (hI : I.Kept) (name : String) (fromRight : Bool) {init xs f : Value}
    (hinit : init.Meets I) (hxs : xs.Meets I) (hf : f.Meets I) (pos : Position) :
    Returns (fold k name fromRight init xs f pos) (Value.Holds I) := by
  unfold fold
  rcases hl : xs.asList? with _ | ⟨items, t⟩
  · exact fail_holds _ _
  rcases hsig : signature? f with _ | ⟨ps, result⟩
  · exact fail_holds _ _
  have hitems := hxs.asList? hl
  dsimp only
  refine Returns.ite (fail_holds _ _) (Returns.ite (fail_holds _ _) ?_)
  -- the accumulator meets the invariant, so it can be handed to the next call
  refine Returns.bind (Returns.forIn (fun s => (∀ r, s.1 = some r → r.Meets I) ∧ s.2.Meets I)
    ⟨by simp, hinit⟩ fun x hx s hs => ?_) fun s hs => ?_
  · have hx' : x.Meets I := by
      split at hx
      · exact hitems x (List.mem_reverse.mp hx)
      · exact hitems x hx
    refine Returns.bind (hk.call hf fun a ha => ?_) fun acc hacc => ?_
    · simp only [List.mem_cons, List.not_mem_nil, or_false] at ha
      rcases ha with rfl | rfl
      · exact hs.2
      · split
        · exact ⟨.string _, .string (hI.small _ (by simp))⟩
        · exact hx'
    · by_cases herr : acc.isError = true
      · rw [if_pos herr]
        exact Returns.pure ⟨fun r hr => by cases hr; exact hacc, hacc⟩
      · rw [if_neg herr]
        exact Returns.pure ⟨by simp, hacc⟩
  · split
    next r hr => exact Returns.pure (hs.1 r hr).holds
    next => exact Returns.pure hs.2.holds

/-- Every builtin keeps an invariant's conditions: on arguments that meet the invariant, what
it gives satisfies them. -/
theorem run_holds (hI : I.Kept) (b : Builtin) {args : List Value} (hargs : ∀ a ∈ args, a.Meets I)
    (pos : Position) : Returns (run k b args pos) (Value.Holds I) := by
  unfold run
  split
  next f xs => exact map_holds hk (hargs f (by simp)) (hargs xs (by simp)) pos
  next f xs => exact filter_holds hk (hargs f (by simp)) (hargs xs (by simp)) pos
  next init xs f =>
    exact fold_holds hk hI _ _ (hargs init (by simp)) (hargs xs (by simp)) (hargs f (by simp)) pos
  next init xs f =>
    exact fold_holds hk hI _ _ (hargs init (by simp)) (hargs xs (by simp)) (hargs f (by simp)) pos
  next xs ys => exact zip_holds (hargs xs (by simp)).holds (hargs ys (by simp)).holds pos
  next xs a e =>
    split
    next items t hl =>
      have hitems := (hargs xs (by simp)).holds.asList? hl
      refine Returns.ite (Returns.pure (.listOf (fun x hx => hitems x ?_) _)) (fail_holds _ _)
      exact List.mem_of_mem_take (List.mem_of_mem_drop hx)
    next => exact fail_holds _ _
  next => exact Returns.ite (Returns.pure (.string _)) (fail_holds _ _)
  next x =>
    -- a length is the number of items of a sequence within the bound
    split
    iterate 6 exact fail_holds _ _
    refine Returns.pure (.int ?_)
    cases hi : x.items? with
    | none => exact hI.fits 0 (by decide)
    | some xs => exact hI.length _ ((hargs x (by simp)).2.items? hi)
  next => exact Returns.pure (.string _)
  next a e =>
    have ha : I.int a = true := by cases (hargs (.int a) (by simp)).holds; assumption
    have he : I.int e = true := by cases (hargs (.int e) (by simp)).holds; assumption
    refine Returns.pure (.listOf (fun x hx => ?_) _)
    obtain ⟨i, hi, rfl⟩ := List.mem_map.mp hx
    exact .int (hI.range a e ha he i (List.mem_range.mp hi))
  next x =>
    split
    · exact Returns.bind Returns.trivial fun _ _ => Returns.pure .null
    · exact fail_holds _ _
  next x =>
    split
    · exact Returns.bind Returns.trivial fun _ _ => Returns.pure .null
    · exact fail_holds _ _
  next => exact Returns.bind Returns.trivial fun _ _ => Returns.pure (.string _)
  next => exact Returns.pure (.string _)
  next s =>
    split
    · exact fail_holds _ _
    · exact Returns.throw
    · split
      next hfits => exact Returns.pure (.int (hI.fits _ hfits))
      next => exact fail_holds _ _
  next cs rows =>
    have hcs : I.schema cs = true := by cases (hargs (.schema cs) (by simp)).holds; assumption
    split
    next items t hl =>
      have hitems := (hargs rows (by simp)).holds.asList? hl
      split
      · exact fail_holds _ _
      next hnone =>
        refine Returns.pure (.table hcs (hI.created cs items hcs (fun r hr => ?_) hitems) hitems)
        have hmem : r ∈ items.zipIdx.map Prod.fst := by
          rw [List.zipIdx_map_fst]
          exact hr
        obtain ⟨⟨r', i⟩, hri, rfl⟩ := List.mem_map.mp hmem
        simpa using List.findSome?_eq_none_iff.mp hnone _ hri
    next => exact fail_holds _ _
  next t name =>
    split
    next cs rs ty =>
      cases (hargs (.table cs rs ty) (by simp)).holds with
      | table hcs hrows hrs =>
        split
        · exact Returns.bind (Returns.mapM_forall fun r hr => cell_holds _ (hrs r hr))
            fun cells hcells => Returns.pure (.listOf hcells.2 _)
        · exact fail_holds _ _
    next => exact fail_holds _ _
  next t =>
    split
    next cs rs ty =>
      cases (hargs (.table cs rs ty) (by simp)).holds with
      | table hcs hrows hrs => exact Returns.pure (.listOf hrs _)
    next => exact fail_holds _ _
  next t =>
    split
    next cs rs ty =>
      -- a count is the number of rows of a table within the bound
      cases (hargs (.table cs rs ty) (by simp)).2 with
      | table hlen => exact Returns.pure (.int (hI.length _ hlen))
    · exact fail_holds _ _
  next path cs header =>
    have hcs : I.schema cs = true := by cases (hargs (.schema cs) (by simp)).holds; assumption
    exact readCSV_holds hI path hcs header pos
  next path t header => exact writeCSV_holds path t header pos
  next => exact Returns.throw

end HigherOrder

end Builtins

namespace Value

theorem Meets.error (m : String) : (Value.error m).Meets I := ⟨.error m, .error m⟩

theorem Holds.of_isError {v : Value} (h : v.isError = true) : v.Holds I := by
  cases v <;> simp only [Value.isError, Bool.false_eq_true] at h
  exact .error _

theorem Holds.literalValue {l : Literal} (h : I.litOk l = true) : (Eval.literalValue l).Holds I := by
  cases l
  case int n => exact .int h
  all_goals constructor

/-- A function that meets an invariant has a body whose literals satisfy it and a captured
scope that meets it. -/
theorem Meets.func {id : FuncId} {ps : List (String × Ty)} {r : Ty} {body : Option Expr}
    {closure : Env} {t : Ty} (h : (Value.func id ps r body closure t).Meets I) :
    (∀ b, body = some b → b.litsOk I = true) ∧ closure.Meets I := by
  obtain ⟨hh, hb⟩ := h
  cases hh with
  | func hbody hclosure =>
    cases hb with
    | func hbounded => exact ⟨hbody, fun f hf b hb => ⟨hclosure f hf b hb, hbounded f hf b hb⟩⟩

end Value

theorem Expr.litsOk_of_mem {es : List Expr} (h : Expr.litsOkAll I es = true) :
    ∀ e ∈ es, e.litsOk I = true := by
  induction es with
  | nil => simp
  | cons e es ih =>
    simp only [Expr.litsOkAll, Bool.and_eq_true] at h
    intro e' he'
    rcases List.mem_cons.mp he' with rfl | he'
    · exact h.1
    · exact ih h.2 e' he'

theorem Expr.litsOk_of_mem_entries {es : List (Tree.LitNode × Expr)}
    (h : Expr.litsOkEntries I es = true) :
    ∀ p ∈ es, I.litOk p.1.literal = true ∧ p.2.litsOk I = true := by
  induction es with
  | nil => simp
  | cons p es ih =>
    simp only [Expr.litsOkEntries, Bool.and_eq_true] at h
    intro p' hp'
    rcases List.mem_cons.mp hp' with rfl | hp'
    · exact h.1
    · exact ih h.2 p' hp'

namespace Eval

theorem firstError_meets {vs : List Value} (hvs : ∀ v ∈ vs, v.Meets I) {bad : Value}
    (h : firstError vs = some bad) : bad.Meets I :=
  hvs bad (List.mem_of_find?_eq_some h)

/-- Binding arguments that meet an invariant gives an argument as the outcome, an error
value, or a frame of bindings that meet it. -/
theorem bindArgs_meets (fn : String) (pos : Position) {frame : Frame} {args : List Value}
    {ps : List (String × Ty)} (hframe : ∀ b ∈ frame, b.2.Meets I)
    (hargs : ∀ a ∈ args, a.Meets I) :
    Returns (bindArgs fn pos frame args ps) fun r =>
      (∀ v, r = .error v → v.Meets I) ∧ ∀ f, r = .ok f → ∀ b ∈ f, b.2.Meets I := by
  fun_induction bindArgs fn pos frame args ps with
  | case1 frame v vs name t ps herr =>
    refine Returns.pure ⟨fun v' hv' => ?_, fun f hf => (by cases hf)⟩
    cases hv'
    exact hargs v List.mem_cons_self
  | case2 frame v vs name t ps herr r hr ih =>
    refine ih (fun b hb => ?_) fun a ha => hargs a (List.mem_cons_of_mem v ha)
    rcases Env.Frame.mem_set hb with hb | rfl
    · exact hframe b hb
    · exact (hargs v List.mem_cons_self).retype r
  | case3 =>
    refine Returns.bind Returns.trivial fun _ _ =>
      Returns.pure ⟨fun v' hv' => ?_, fun f hf => (by cases hf)⟩
    cases hv'
    exact .error _
  | case4 =>
    refine Returns.pure ⟨fun v hv => (by cases hv), fun f hf => ?_⟩
    cases hf
    exact hframe

/-- How a case meets a subject keeps an invariant: a matching case gives a scope that meets
it, and a guard that gives neither `true` nor `false` gives a value that meets it. -/
def CaseOutcome.Meets (I : Inv) : CaseOutcome → Prop
  | .matched env => env.Meets I
  | .skipped => True
  | .failed g => g.Meets I

section Engine

variable {k : Engine} (hk : k.Keeps I)
include hk

theorem walkBindings_meets {env : Env} {e : Option Expr} (henv : env.Meets I)
    (he : Expr.litsOkOpt I e = true) :
    Returns (walkBindings k env e) fun r => r.2.Meets I ∧ Expr.litsOkOpt I r.1 = true := by
  fun_induction walkBindings k env e with
  | case1 env name t value next pos ih =>
    simp only [Expr.litsOkOpt, Expr.litsOk, Bool.and_eq_true] at he
    exact Returns.bind (hk.eval henv he.1) fun v hv => ih v (henv.bind name hv) he.2
  | case2 env name t next pos ih =>
    exact ih henv (by simpa [Expr.litsOkOpt, Expr.litsOk] using he)
  | case3 env e _ _ => exact Returns.pure ⟨henv, he⟩

theorem tryCase_meets {env : Env} {subject : Value} {c : Case} (henv : env.Meets I)
    (hs : subject.Meets I) (hc : c.litsOk I = true) :
    Returns (tryCase k env subject c) (CaseOutcome.Meets I) := by
  cases c with
  | any => exact Returns.pure henv
  | typed name t p pos =>
    have henv' := henv.bind name hs
    simp only [tryCase]
    split
    · exact Returns.pure trivial
    cases p with
    | none => exact Returns.pure henv'
    | some p =>
      have hp : p.litsOk I = true := by simpa [Case.litsOk, Expr.litsOkOpt] using hc
      refine Returns.bind (hk.eval henv' hp) fun g hg => ?_
      split
      · exact Returns.pure henv'
      · exact Returns.pure trivial
      · exact Returns.pure hg
  | literal => exact Returns.pure (by split <;> trivial)
  | multi => exact Returns.pure (by split <;> trivial)
  | range =>
    refine Returns.pure ?_
    split
    · split <;> trivial
    · trivial

theorem matchCases_holds {env : Env} {E : Ty} {subject : Value} (pos : Position)
    (henv : env.Meets I) (hs : subject.Meets I) :
    ∀ {cases : List (Case × Expr)}, Expr.litsOkCases I cases = true →
      Returns (matchCases k env E subject pos cases) (Value.Holds I)
  | [], _ => fail_holds _ _
  | (c, body) :: rest, h => by
    simp only [Expr.litsOkCases, Bool.and_eq_true] at h
    simp only [matchCases]
    refine Returns.bind (tryCase_meets hk henv hs h.1.1) fun o ho => ?_
    cases o with
    | matched env' => exact (hk.eval ho h.1.2).mono fun v hv => hv.holds
    | failed g => exact Returns.pure ho.holds
    | skipped => exact matchCases_holds pos henv hs h.2

theorem applyTo_holds {env : Env} {E : Ty} {callee : Value} {args : List Expr} (pos : Position)
    (henv : env.Meets I) (hcallee : callee.Meets I) (hargs : Expr.litsOkAll I args = true) :
    Returns (applyTo k env E callee args pos) (Value.Holds I) := by
  have hlits := Expr.litsOk_of_mem hargs
  unfold applyTo
  split
  next s a =>
    refine Returns.bind (hk.eval henv (hlits a (by simp))) fun v hv => ?_
    split
    · split
      · exact conformValue_holds (.char _) E pos
      · exact fail_holds _ _
    · exact Returns.pure hv.holds
  case h_2 | h_3 =>
    have hes := hcallee.holds.asList? rfl
    refine Returns.bind (hk.eval henv (hlits _ (List.mem_singleton_self _))) fun v hv => ?_
    split
    · split
      next x hx =>
        split at hx
        · exact conformValue_holds (hes x (List.mem_of_getElem? hx)) E pos
        · cases hx
      · exact fail_holds _ _
    · exact Returns.pure hv.holds
  next ps t a =>
    cases hcallee.holds with
    | dict hkeys hvals =>
    refine Returns.bind (hk.eval henv (hlits a (by simp))) fun key hkey => ?_
    split
    · exact Returns.pure hkey.holds
    split
    next k' v hfind => exact conformValue_holds (hvals _ (List.mem_of_find?_eq_some hfind)) E pos
    next => exact fail_holds _ _
  next id params result body closure t =>
    split
    · exact fail_holds _ _
    refine Returns.bind (Returns.mapM_forall (Q := Value.Meets I) fun p hp => ?_) fun vs hvs => ?_
    · obtain ⟨a, n, t⟩ := p
      exact hk.eval henv (hlits a (List.of_mem_zip hp).1)
    split
    next bad hbad => exact Returns.pure (firstError_meets hvs.2 hbad).holds
    next => exact Returns.bind (hk.call hcallee hvs.2) fun r hr => conformValue_holds hr.holds E pos
  next => exact fail_holds _ _

/-- A call keeps an invariant's conditions: the arguments are bound as values that meet it, a
builtin runs on them, and a function literal's body is evaluated in the scope it captured. -/
theorem callStep_holds (hI : I.Kept) (cfg : RunConfig) {f : Value} {args : List Value}
    (pos : Position) (hf : f.Meets I) (hargs : ∀ a ∈ args, a.Meets I) :
    Returns (callStep k cfg f args pos) (Value.Holds I) := by
  unfold callStep
  split
  next id params result body closure t =>
    split
    · exact fail_holds _ _
    refine Returns.bind (bindArgs_meets _ pos (by simp) hargs) fun o ho => ?_
    split
    next v => exact Returns.pure (ho.1 v rfl).holds
    next frame =>
      have hframe := ho.2 frame rfl
      split
      next _ b =>
        refine Returns.bind Returns.trivial fun _ _ =>
          Builtins.run_holds hk hI b (fun a ha => ?_) pos
        obtain ⟨p, -, hp⟩ := List.mem_filterMap.mp ha
        obtain ⟨b', hb', rfl⟩ := Option.map_eq_some_iff.mp hp
        exact hframe b' (List.mem_of_find?_eq_some hb')
      next n body' =>
        obtain ⟨hbody, hclosure⟩ := hf.func
        exact (hk.eval (Env.Meets.cons hframe hclosure) (hbody body' rfl)).mono
          fun v hv => hv.holds
      next => exact Returns.pure .null
  next => exact fail_holds _ _

/-- The pairs of a dictionary literal meet an invariant when its keys and values satisfy it. -/
theorem dictPairs_meets {env : Env} {kt vt : Ty} (henv : env.Meets I)
    {pairs : List (Tree.LitNode × Expr)} (hp : Expr.litsOkEntries I pairs = true) :
    Returns (dictPairs k env kt vt pairs) fun r => ∀ p ∈ r.1, p.1.Meets I ∧ p.2.Meets I := by
  have hlits := Expr.litsOk_of_mem_entries hp
  cases pairs with
  | nil => exact Returns.pure (by simp)
  | cons first rest =>
    obtain ⟨kn, ve⟩ := first
    simp only [dictPairs]
    refine Returns.bind (hk.eval henv (e := .lit kn.literal kn.pos)
      (hlits _ List.mem_cons_self).1) fun key hkey => ?_
    refine Returns.bind (hk.eval henv (hlits _ List.mem_cons_self).2) fun val hval => ?_
    refine Returns.bind (Returns.mapM_forall (Q := fun p => p.1.Meets I ∧ p.2.Meets I)
      fun x hx => ?_) fun others hothers => ?_
    · have hx' := hlits x (List.mem_cons_of_mem _ hx)
      refine Returns.bind (hk.eval henv (e := .lit x.1.literal x.1.pos) hx'.1) fun key' hkey' => ?_
      exact Returns.bind (hk.eval henv hx'.2) fun val' hval' => Returns.pure ⟨hkey', hval'⟩
    refine Returns.pure fun p hp => ?_
    rcases List.mem_cons.mp hp with rfl | hp
    · exact ⟨hkey, hval⟩
    · exact hothers.2 p hp

/-- One step of evaluation keeps an invariant's conditions: through an engine that keeps the
invariant, an expression whose literals satisfy it, evaluated in a scope that meets it, gives
a value that satisfies its conditions. -/
theorem step_holds (hI : I.Kept) (cfg : RunConfig) {env : Env} {E : Ty} {e : Expr}
    (henv : env.Meets I) (he : e.litsOk I = true) : Returns (step k cfg env E e) (Value.Holds I) := by
  unfold step
  refine Returns.bind Returns.trivial fun _ _ => ?_
  cases e with
  | lit l pos => exact conformValue_holds (.literalValue he) E pos
  | bind name t value next pos | aliasType name t next pos =>
    refine Returns.bind (walkBindings_meets hk henv he) fun r hr => ?_
    split
    next rest env' =>
      exact (hk.eval hr.1 (by simpa [Expr.litsOkOpt] using hr.2)).mono fun v hv => hv.holds
    next => exact conformValue_holds .null E pos
  | lam params result body pos =>
    refine Returns.bind Returns.trivial fun id _ => conformValue_holds ?_ E pos
    exact .func (fun b hb => by cases hb; exact he) fun f hf b hb => (henv f hf b hb).holds
  | apply callee args pos =>
    simp only [Expr.litsOk, Bool.and_eq_true] at he
    refine Returns.bind (hk.eval henv he.1) fun f hf => ?_
    split
    · exact Returns.pure hf.holds
    · exact applyTo_holds hk pos henv hf he.2
  | matchOn subject cases pos =>
    simp only [Expr.litsOk, Bool.and_eq_true] at he
    refine Returns.bind (hk.eval henv he.1) fun s hs => ?_
    split
    · exact Returns.pure hs.holds
    · exact matchCases_holds hk pos henv hs he.2
  | prim op left right pos =>
    simp only [Expr.litsOk, Bool.and_eq_true] at he
    dsimp only
    refine Returns.bind (hk.eval henv he.1) fun l hl => ?_
    -- the right operand, when there is one, meets the invariant; both ways the operands are
    -- checked next
    split
    all_goals
      refine Returns.bind (P := fun r => ∀ b, r = some b → Value.Meets I b) ?_ fun r hr => ?_
    · refine Returns.map (hk.eval henv (by simpa [Expr.litsOkOpt] using he.2))
        fun v hv b hb => ?_
      cases hb
      exact hv
    pick_goal 2
    · exact Returns.pure fun b hb => by cases hb
    all_goals
      have hops : ∀ v ∈ l :: r.toList, v.Meets I := by
        intro v hv
        rcases List.mem_cons.mp hv with rfl | hv
        · exact hl
        · exact hr v (Option.mem_toList.mp hv)
      split
      next bad hbad => exact Returns.pure (firstError_meets hops hbad).holds
      next =>
        have hv := Operators.apply_holds hI op hl.holds fun b hb => (hr b hb).holds
        split
        · exact Returns.bind Returns.trivial fun _ _ => conformValue_holds hv E pos
        · exact conformValue_holds hv E pos
  | ref name pos =>
    simp only
    split
    next v hv => exact conformValue_holds (henv.lookup hv).holds E pos
    next => exact fail_holds _ _
  | branch c t e pos =>
    simp only [Expr.litsOk, Bool.and_eq_true] at he
    obtain ⟨⟨hc, ht⟩, he'⟩ := he
    dsimp only
    -- a mismatch of the two branches' static types is only reported
    refine Returns.ite (Returns.bind Returns.trivial fun _ _ => ?_) ?_
    all_goals
      refine Returns.bind (hk.eval henv hc) fun v hv => ?_
      split
      · exact (hk.eval henv ht).mono fun v hv => hv.holds
      · split
        next e' =>
          exact (hk.eval henv (by simpa [Expr.litsOkOpt] using he')).mono fun v hv => hv.holds
        next => exact conformValue_holds .null E pos
      · exact Returns.pure hv.holds
  | iter name iterable body pos =>
    -- what the body gives is dropped
    dsimp only
    refine Returns.bind Returns.trivial fun it _ => ?_
    split
    next herr => exact Returns.pure (.of_isError herr)
    split
    · exact fail_holds _ _
    · exact Returns.bind Returns.trivial fun _ _ => conformValue_holds .null E pos
  | list es pos =>
    have hlits := Expr.litsOk_of_mem (by simpa [Expr.litsOk] using he)
    dsimp only
    split
    · exact conformValue_holds (.listOf (by simp) _) E pos
    next e rest =>
      refine Returns.bind (hk.eval henv (hlits e List.mem_cons_self)) fun first hfirst => ?_
      refine Returns.bind (Returns.mapM_forall (Q := Value.Meets I) fun x hx =>
        hk.eval henv (hlits x (List.mem_cons_of_mem e hx))) fun others hothers => ?_
      have hall : ∀ v ∈ first :: others, v.Meets I := by
        intro v hv
        rcases List.mem_cons.mp hv with rfl | hv
        · exact hfirst
        · exact hothers.2 v hv
      split
      next bad hbad => exact Returns.pure (firstError_meets hall hbad).holds
      next => exact conformValue_holds (.listOf (fun v hv => (hall v hv).holds) _) E pos
  | tuple es pos =>
    have hlits := Expr.litsOk_of_mem (by simpa [Expr.litsOk] using he)
    dsimp only
    refine Returns.bind (Returns.mapM_forall (Q := Value.Meets I) fun p hp => ?_) fun vs hvs => ?_
    · obtain ⟨e, t⟩ := p
      exact hk.eval henv (hlits e (List.of_mem_zip hp).1)
    split
    next bad hbad => exact Returns.pure (firstError_meets hvs.2 hbad).holds
    next => exact conformValue_holds (.tupleOf fun v hv => (hvs.2 v hv).holds) E pos
  | access target index pos =>
    refine Returns.bind (hk.eval henv (by simpa [Expr.litsOk] using he)) fun v hv => ?_
    split
    next vs t =>
      cases hv.holds with
      | tuple hes =>
        split
        next x hx => exact conformValue_holds (hes x (List.mem_of_getElem? hx)) E pos
        next => exact fail_holds _ _
    next m => exact Returns.pure (.error m)
    next => exact fail_holds _ _
  | dict pairs pos =>
    dsimp only
    split
    · exact conformValue_holds (.dict (by simp) (by simp)) _ pos
    next hne =>
      refine Returns.bind (dictPairs_meets hk henv he) fun r hr => ?_
      split
      next bad hbad =>
        refine Returns.pure (firstError_meets (fun v hv => ?_) hbad).holds
        obtain ⟨p, hp, hv⟩ := List.mem_flatMap.mp hv
        simp only [List.mem_cons, List.not_mem_nil, or_false] at hv
        rcases hv with rfl | rfl
        · exact (hr p hp).1
        · exact (hr p hp).2
      next =>
        exact conformValue_holds (.dict (fun p hp => (hr p hp).1.holds)
          fun p hp => (hr p hp).2.holds) _ pos
  | schema columns pos => exact conformValue_holds (.schema he) E pos
  | empty pos => exact conformValue_holds .null E pos

end Engine

end Eval

mutual

/-- The literals of every expression satisfy an invariant that every literal and every schema
satisfies. -/
theorem Expr.litsOk_of_forall (hl : ∀ l, I.litOk l = true) (hs : ∀ cs, I.schema cs = true) :
    ∀ e : Expr, e.litsOk I = true
  | .lit l _ => hl l
  | .ref _ _ | .empty _ => rfl
  | .schema cs _ => hs cs
  | .bind _ _ v next _ => by
    simp only [Expr.litsOk, Expr.litsOk_of_forall hl hs v, Expr.litsOkOpt_of_forall hl hs next,
      Bool.and_self]
  | .aliasType _ _ next _ => Expr.litsOkOpt_of_forall hl hs next
  | .lam _ _ body _ => Expr.litsOk_of_forall hl hs body
  | .apply f args _ => by
    simp only [Expr.litsOk, Expr.litsOk_of_forall hl hs f, Expr.litsOkAll_of_forall hl hs args,
      Bool.and_self]
  | .prim _ l r _ => by
    simp only [Expr.litsOk, Expr.litsOk_of_forall hl hs l, Expr.litsOkOpt_of_forall hl hs r,
      Bool.and_self]
  | .branch c t e _ => by
    simp only [Expr.litsOk, Expr.litsOk_of_forall hl hs c, Expr.litsOk_of_forall hl hs t,
      Expr.litsOkOpt_of_forall hl hs e, Bool.and_self]
  | .matchOn s cases _ => by
    simp only [Expr.litsOk, Expr.litsOk_of_forall hl hs s, Expr.litsOkCases_of_forall hl hs cases,
      Bool.and_self]
  | .iter _ it body _ => by
    simp only [Expr.litsOk, Expr.litsOk_of_forall hl hs it, Expr.litsOk_of_forall hl hs body,
      Bool.and_self]
  | .list es _ | .tuple es _ => Expr.litsOkAll_of_forall hl hs es
  | .access t _ _ => Expr.litsOk_of_forall hl hs t
  | .dict pairs _ => Expr.litsOkEntries_of_forall hl hs pairs

theorem Expr.litsOkOpt_of_forall (hl : ∀ l, I.litOk l = true) (hs : ∀ cs, I.schema cs = true) :
    ∀ e : Option Expr, Expr.litsOkOpt I e = true
  | none => rfl
  | some e => Expr.litsOk_of_forall hl hs e

theorem Expr.litsOkAll_of_forall (hl : ∀ l, I.litOk l = true) (hs : ∀ cs, I.schema cs = true) :
    ∀ es : List Expr, Expr.litsOkAll I es = true
  | [] => rfl
  | e :: es => by
    simp only [Expr.litsOkAll, Expr.litsOk_of_forall hl hs e, Expr.litsOkAll_of_forall hl hs es,
      Bool.and_self]

theorem Expr.litsOkCases_of_forall (hl : ∀ l, I.litOk l = true) (hs : ∀ cs, I.schema cs = true) :
    ∀ cs : List (Case × Expr), Expr.litsOkCases I cs = true
  | [] => rfl
  | (c, body) :: cs => by
    simp only [Expr.litsOkCases, Case.litsOk_of_forall hl hs c, Expr.litsOk_of_forall hl hs body,
      Expr.litsOkCases_of_forall hl hs cs, Bool.and_self]

theorem Expr.litsOkEntries_of_forall (hl : ∀ l, I.litOk l = true)
    (hs : ∀ cs, I.schema cs = true) : ∀ es : List (Tree.LitNode × Expr), Expr.litsOkEntries I es = true
  | [] => rfl
  | (k, v) :: es => by
    simp only [Expr.litsOkEntries, hl k.literal, Expr.litsOk_of_forall hl hs v,
      Expr.litsOkEntries_of_forall hl hs es, Bool.and_self]

theorem Case.litsOk_of_forall (hl : ∀ l, I.litOk l = true) (hs : ∀ cs, I.schema cs = true) :
    ∀ c : Case, c.litsOk I = true
  | .typed _ _ p _ => Expr.litsOkOpt_of_forall hl hs p
  | .any _ | .literal _ _ | .multi _ _ | .range _ _ _ => rfl

end

/-- The root scope meets every invariant: it binds only builtins, which capture nothing. -/
theorem Env.root_meets : Env.root.Meets I := by
  intro f hf b hb
  simp only [Env.root, List.mem_singleton] at hf
  subst hf
  obtain ⟨b', -, rfl⟩ := List.mem_map.mp hb
  exact ⟨.func (fun _ hb => by cases hb) (fun _ hf => by cases hf),
    .func fun _ hf => by cases hf⟩

namespace Eval

/-- Evaluation at every depth keeps an invariant whose places of making keep it, when every
number is within its bound. -/
theorem engine_keeps (hI : I.Kept) (hseq : ∀ n, I.seq n) (cfg : RunConfig) :
    ∀ n, Engine.Keeps I ⟨eval n cfg, call n cfg⟩
  | 0 => ⟨fun _ _ => Returns.throw, fun _ _ => Returns.throw⟩
  | n + 1 =>
    have hk := engine_keeps hI hseq cfg n
    ⟨fun henv he => (step_holds hk hI cfg henv he).mono fun v hv =>
        ⟨hv, Value.bounded_of_forall hseq v⟩,
      fun hf hargs => (callStep_holds hk hI cfg _ hf hargs).mono fun v hv =>
        ⟨hv, Value.bounded_of_forall hseq v⟩⟩

theorem reportHalt_meets (root : Expr) (h : Halt) : Returns (reportHalt root h) (Value.Meets I) :=
  Returns.bind Returns.trivial fun _ _ => Returns.pure (.error _)

/-- A program run in a scope that meets an invariant, by a top engine that keeps it, gives a
value that meets it, a halt included. -/
theorem runProgram_meets {cfg : RunConfig} (hk : (topEngine cfg).Keeps I) {env : Env} {e : Expr}
    (henv : env.Meets I) (he : e.litsOk I = true) : Returns (runProgram cfg env e) (Value.Meets I) :=
  Returns.tryCatch (hk.eval henv he) fun h => reportHalt_meets e h

/-- A session line keeps a session's scope meeting an invariant that the top engine keeps, and
its value meets it. -/
theorem runTopLevel_meets {cfg : RunConfig} (hk : (topEngine cfg).Keeps I) {env : Env}
    {e : Expr} (henv : env.Meets I) (he : e.litsOk I = true) :
    Returns (runTopLevel cfg env e) fun r => r.1.Meets I ∧ r.2.Meets I := by
  refine Returns.tryCatch ?_ fun h =>
    Returns.bind (reportHalt_meets e h) fun v hv => Returns.pure ⟨hv, henv⟩
  refine Returns.bind (walkBindings_meets hk henv he) fun r hr => ?_
  split
  next env' => exact Returns.pure ⟨⟨.null, .null⟩, hr.1⟩
  next rest env' =>
    have hrest : rest.litsOk I = true := by simpa [Expr.litsOkOpt] using hr.2
    exact Returns.bind (hk.eval hr.1 hrest) fun v hv => Returns.pure ⟨hv, hr.1⟩

end Eval

end Retl
