import Retl.Proofs.ElementTyping
import Retl.Proofs.Refinement
/-!
# Static types are sound

Analysis knows the type of some nodes before running them (`Expr.static`): literals,
function literals, schemas, empty blocks, comparisons and logical operators, lists and
tuples built from such nodes, a `let` chain by what follows it, and a field of a
statically known tuple. Evaluation agrees: a node whose static type has no `unknown` in
it evaluates, in any scope and under any expected type, to an error or to a value whose
type conforms to the static type.

Two invariants carry the proof, each kept by one step of evaluation from an engine that
keeps it, and so kept at every depth:

* under no expected type a node evaluates to a value exactly of its static type, each
  field of a tuple exactly of its member's type in turn (`Value.Exact`). A field access
  evaluates its target this way, so a target that is statically a tuple of `n` members
  always has `n` fields, and an index that analysis accepted is never out of range;
* under an expected type `E` a node evaluates to a value whose type is among those that
  `Ty.Narrowed E` allows for its static type, which all conform to it.

The scope plays no part: a node whose static type is known reads no name whose value
could change its type.
-/

namespace Retl

open Eval

mutual

/-- A value exactly of a static type: of that very type, which is neither `any` nor a
union; for a tuple type, a tuple with one field per member, each exactly of its member. -/
def Value.Exact (v : Value) : Ty → Prop
  | .tuple ss => ∃ vs, v = .tuple vs (.tuple ss) ∧ Value.ExactAll vs ss
  | S => ¬S.IsOpen ∧ v.type = S

/-- Values exactly of static types, position by position. -/
def Value.ExactAll : List Value → List Ty → Prop
  | [], [] => True
  | v :: vs, s :: ss => v.Exact s ∧ Value.ExactAll vs ss
  | _, _ => False

end

namespace Value

/-- What a node evaluates to under no expected type, when its static type is `S`. -/
def ExactOutcome (S : Ty) (v : Value) : Prop := v.isError = true ∨ v.Exact S

/-- What a node evaluates to under the expected type `E`, when its static type is `S`:
an error, or a value of a resolved type that `Ty.Narrowed E` allows for `S`, and then `S`
conforms to `E`. -/
def StaticOutcome (S E : Ty) (v : Value) : Prop :=
  v.isError = true ∨
    (v.type.hasUnknown = false ∧ Ty.Narrowed E v.type S ∧ (S.unify E).hasUnknown = false)

theorem Exact.type_eq {v : Value} {S : Ty} (h : v.Exact S) : v.type = S := by
  cases S with
  | tuple ss =>
    obtain ⟨vs, rfl, -⟩ := h
    rfl
  | _ =>
    simp only [Value.Exact] at h
    exact h.2

theorem Exact.not_isOpen {v : Value} {S : Ty} (h : v.Exact S) : ¬S.IsOpen := by
  cases S with
  | tuple ss => simp [Ty.IsOpen]
  | _ =>
    simp only [Value.Exact] at h
    exact h.1

theorem exact_of_type {v : Value} {S : Ty} (hS : ∀ ss, S ≠ .tuple ss) (ho : ¬S.IsOpen)
    (h : v.type = S) : v.Exact S := by
  cases S with
  | tuple ss => exact absurd rfl (hS ss)
  | _ =>
    simp only [Value.Exact]
    exact ⟨ho, h⟩

theorem ExactAll.length_eq : ∀ {vs : List Value} {ss : List Ty}, Value.ExactAll vs ss →
    vs.length = ss.length
  | [], [], _ => rfl
  | _ :: _, _ :: _, h => by
    rw [Value.ExactAll] at h
    simp [h.2.length_eq]
  | [], _ :: _, h | _ :: _, [], h => by simp [Value.ExactAll] at h

theorem ExactAll.getElem? : ∀ {vs : List Value} {ss : List Ty}, Value.ExactAll vs ss →
    ∀ {i : Nat} {s : Ty}, ss[i]? = some s → ∃ w, vs[i]? = some w ∧ w.Exact s
  | [], [], _, _, _, hs => by simp at hs
  | v :: vs, s' :: ss, h, i, s, hs => by
    rw [Value.ExactAll] at h
    cases i with
    | zero =>
      obtain rfl : s' = s := by simpa using hs
      exact ⟨v, rfl, h.1⟩
    | succ i => simpa using h.2.getElem? (by simpa using hs)
  | [], _ :: _, h, _, _, _ | _ :: _, [], h, _, _, _ => by simp [Value.ExactAll] at h

theorem isError_eq_false_of_type {v : Value} (h : v.type.hasUnknown = false) :
    v.isError = false := by
  cases v <;> simp_all [Value.type, Value.isError]

theorem retype_of_isError {v : Value} (h : v.isError = true) (t : Ty) :
    (v.retype t).isError = true := by
  cases v <;> simp_all [Value.isError, Value.retype]

/-- Retyping a value to what its type resolved to gives it that type: a scalar's type
resolves only to itself. -/
theorem type_retype_unify {v : Value} (hv : v.isError = false) {E : Ty}
    (h : (v.type.unify E).hasUnknown = false) :
    (v.retype (v.type.unify E)).type = v.type.unify E := by
  cases v <;> simp only [isError, Bool.true_eq_false] at hv
  case list | tuple | dict | table | func => rfl
  all_goals
    have hhead := Ty.head_unify (by simp [Ty.IsOpen, Value.type]) (by simp [Value.type]) E h
    revert hhead
    simp only [Value.retype, Value.type]
    generalize Ty.unify _ E = r
    cases r <;> simp [Ty.head]

end Value

namespace Operators

theorem compare_isBool (f : Ordering → Bool) (a b : Value) :
    (compare f a b).isError = true ∨ (compare f a b).type = .bool := by
  unfold compare
  split <;> simp [cannot, Value.isError, Value.type]

theorem logical_isBool (name : String) (f : Bool → Bool → Bool) (a b : Value) :
    (logical name f a b).isError = true ∨ (logical name f a b).type = .bool := by
  unfold logical
  split <;> simp [cannot, Value.isError, Value.type]

/-- An operator that yields a boolean gives a boolean or an error. -/
theorem apply_isBool {op : PrimOp} (h : op.yieldsBool = true) (a : Value) (b : Option Value) :
    (apply op a b).isError = true ∨ (apply op a b).type = .bool := by
  cases b with
  | none =>
    cases op <;> simp only [PrimOp.yieldsBool, Bool.false_eq_true] at h
    case not =>
      cases a <;> simp [apply, unary, cannotApply, Value.isError, Value.type]
    all_goals simp [apply, unary, Value.isError]
  | some b =>
    cases op <;> simp only [PrimOp.yieldsBool, Bool.false_eq_true] at h <;>
      simp only [apply, binary]
    case lt | le | gt | ge => exact compare_isBool _ a b
    case and | or => exact logical_isBool _ _ a b
    case eq | ne | same => exact Or.inr rfl
    case not => exact Or.inl rfl

end Operators

namespace Eval

theorem literalValue_type (l : Literal) : (literalValue l).type = l.type := by
  cases l <;> rfl

/-- `conformValue` gives an error, or the value retyped to what its type resolved to. -/
theorem conformValue_resolves (v : Value) (E : Ty) (pos : Position) :
    Returns (conformValue v E pos) fun w => w.isError = true ∨
      (w = v.retype (v.type.unify E) ∧ (v.type.unify E).hasUnknown = false) := by
  unfold conformValue
  split
  next herr => exact Returns.pure (Or.inl herr)
  split
  next t ht =>
    obtain ⟨hunify, hok⟩ := Ty.conform?_eq_some.mp ht
    refine Returns.pure (Or.inr ⟨?_, hunify ▸ hok⟩)
    rw [hunify]
    split
    next heq => rw [heq, Value.retype_type]
    next => rfl
  next => exact Returns.bind Returns.trivial fun _ _ => Returns.pure (Or.inl rfl)

/-- Conforming a value of a type allowed for `S` under `E` gives a value of such a type. -/
theorem conformValue_narrowed {v : Value} {E S : Ty} (hx : v.type.hasUnknown = false)
    (hn : Ty.Narrowed E v.type S)
    (hSE : (v.type.unify E).hasUnknown = false → (S.unify E).hasUnknown = false)
    (pos : Position) :
    Returns (conformValue v E pos) (Value.StaticOutcome S E) := by
  refine (conformValue_resolves v E pos).mono fun w hw => ?_
  rcases hw with herr | ⟨rfl, hok⟩
  · exact Or.inl herr
  have htype := Value.type_retype_unify (Value.isError_eq_false_of_type hx) hok
  refine Or.inr ⟨?_, ?_, hSE hok⟩
  · rw [htype]
    exact hok
  · rw [htype]
    exact hn.unify hx hok

/-- Conforming a value of the static type itself. -/
theorem conformValue_static {v : Value} {E S : Ty} (hS : S.hasUnknown = false) (hv : v.type = S)
    (pos : Position) : Returns (conformValue v E pos) (Value.StaticOutcome S E) :=
  conformValue_narrowed (by rw [hv]; exact hS) (by rw [hv]; exact .refines (.refl S))
    (fun h => by rwa [← hv]) pos

/-- Under no expected type, conforming leaves a value exactly of its static type as it is. -/
theorem conformValue_exact {v : Value} {S : Ty} (hv : Value.ExactOutcome S v) (pos : Position) :
    Returns (conformValue v .unknown pos) (Value.ExactOutcome S) := by
  refine (conformValue_retype v .unknown pos).mono fun w hw => ?_
  rcases hw with herr | rfl
  · exact Or.inl herr
  rcases hv with herr | hex
  · exact Or.inl (Value.retype_of_isError herr _)
  · right
    rw [Ty.unify_unknown_right (hex.type_eq ▸ hex.not_isOpen), Value.retype_type]
    exact hex

/-- The links of a `let` chain leave what follows them, of the chain's static type. -/
theorem walkBindings_static (k : Engine) (env : Env) (o : Option Expr) :
    Returns (walkBindings k env o) fun r => Expr.staticOpt r.1 = Expr.staticOpt o := by
  fun_induction walkBindings k env o with
  | case1 env name t value next pos ih =>
    refine Returns.bind Returns.trivial fun v _ => (ih v).mono fun r hr => ?_
    simpa [Expr.staticOpt, Expr.static] using hr
  | case2 env name t next pos ih =>
    refine (ih).mono fun r hr => ?_
    simpa [Expr.staticOpt, Expr.static] using hr
  | case3 env e _ _ => exact Returns.pure rfl

theorem conformValue_of_isError {v : Value} (h : v.isError = true) (E : Ty) (pos : Position) :
    Returns (conformValue v E pos) fun w => w.isError = true := by
  unfold conformValue
  rw [if_pos h]
  exact Returns.pure h

end Eval

namespace Value

theorem ExactAll.map_type : ∀ {vs : List Value} {ss : List Ty}, Value.ExactAll vs ss →
    vs.map Value.type = ss
  | [], [], _ => rfl
  | _ :: _, _ :: _, h => by
    rw [Value.ExactAll] at h
    rw [List.map_cons, h.1.type_eq, h.2.map_type]
  | [], _ :: _, h | _ :: _, [], h => by simp [Value.ExactAll] at h

end Value

theorem Ty.ne_unknown_of_ok {t : Ty} (h : t.hasUnknown = false) : t ≠ .unknown := by
  rintro rfl
  simp at h

theorem Expr.static_ok_of_mem {es : List Expr} (h : Expr.anyUnknown es = false) {e : Expr}
    (he : e ∈ es) : e.static.hasUnknown = false := by
  induction es with
  | nil => simp at he
  | cons e' es ih =>
    simp only [Expr.anyUnknown, Bool.or_eq_false_iff] at h
    rcases List.mem_cons.mp he with rfl | he
    · exact h.1
    · exact ih h.2 he

theorem Expr.anyUnknown_statics {es : List Expr} (h : Expr.anyUnknown es = false) :
    Ty.anyUnknown (Expr.statics es) = false := by
  induction es with
  | nil => rfl
  | cons e es ih =>
    simp only [Expr.anyUnknown, Bool.or_eq_false_iff] at h
    simp [Expr.statics, h.1, ih h.2]

theorem Expr.length_statics (es : List Expr) : (Expr.statics es).length = es.length := by
  induction es with
  | nil => rfl
  | cons e es ih => simp [Expr.statics, ih]

/-- Two tuple types conform when they have the same length and their members do. -/
theorem Ty.unify_tuple_ok {ss ts : List Ty} (hss : Ty.anyUnknown ss = false)
    (hz : Ty.anyUnknown (Ty.unifyZip ss ts) = false) (hlen : ss.length = ts.length) :
    ((Ty.tuple ss).unify (.tuple ts)).hasUnknown = false := by
  rw [Ty.unify.eq_7]
  split
  · simpa using hss
  next hne =>
    have hne' : ss ≠ [] := by
      rintro rfl
      exact hne (by simp [List.eq_nil_of_length_eq_zero hlen.symm])
    rw [Ty.unifyPairwise_of_length hne' hlen]
    simpa using hz

namespace Eval

/-- The fields of a tuple literal evaluated under no expected type: exactly of their static
types, when none is an error. -/
theorem exactAll_of_forall₂ : ∀ {es : List Expr} {vs : List Value},
    List.Forall₂ (fun p v => Value.ExactOutcome p.1.static v)
      (es.zip (es.map fun _ => Ty.unknown)) vs →
    (∀ v ∈ vs, v.isError = false) → Value.ExactAll vs (Expr.statics es)
  | [], [], _, _ => by simp [Expr.statics, Value.ExactAll]
  | e :: es, v :: vs, h, hok => by
    simp only [List.map_cons, List.zip_cons_cons, List.forall₂_cons] at h
    rw [Expr.statics, Value.ExactAll]
    exact ⟨h.1.resolve_left (Bool.eq_false_iff.mp (hok v List.mem_cons_self)),
      exactAll_of_forall₂ h.2 fun w hw => hok w (List.mem_cons_of_mem v hw)⟩
  | [], _ :: _, h, _ => by simp at h
  | _ :: _, [], h, _ => by simp at h

/-- The fields of a tuple literal evaluated under an expected tuple type of the same
length: each of a type allowed for its static type under its expected member. -/
theorem narrowedAll_of_forall₂ : ∀ {es : List Expr} {ts : List Ty} {vs : List Value},
    es.length = ts.length →
    List.Forall₂ (fun p v => Value.StaticOutcome p.1.static p.2 v) (es.zip ts) vs →
    (∀ v ∈ vs, v.isError = false) →
    Ty.NarrowedAll ts (vs.map Value.type) (Expr.statics es) ∧
      Ty.anyUnknown (vs.map Value.type) = false ∧
      Ty.anyUnknown (Ty.unifyZip (Expr.statics es) ts) = false
  | [], [], [], _, _, _ => by simp [Expr.statics, Ty.unifyZip, Ty.NarrowedAll.nil]
  | e :: es, t :: ts, v :: vs, hlen, h, hok => by
    simp only [List.zip_cons_cons, List.forall₂_cons] at h
    have hv : v.isError = false := hok v List.mem_cons_self
    obtain ⟨hx, hn, hSE⟩ := h.1.resolve_left (Bool.eq_false_iff.mp hv)
    obtain ⟨hns, hxs, hSEs⟩ := narrowedAll_of_forall₂ (by simpa using hlen) h.2
      fun w hw => hok w (List.mem_cons_of_mem v hw)
    refine ⟨.cons hn hns, ?_, ?_⟩
    · simp only [List.map_cons, Ty.anyUnknown, hx, hxs, Bool.or_self]
    · simp only [Expr.statics, Ty.unifyZip, Ty.anyUnknown, Bool.or_eq_false_iff]
      exact ⟨hSE, hSEs⟩
  | [], _ :: _, _, hlen, _, _ | _ :: _, [], _, hlen, _, _ => by simp at hlen
  | [], [], _ :: _, _, h, _ | _ :: _, _ :: _, [], _, h, _ => by simp at h

end Eval

/-- An engine whose evaluations under no expected type give values exactly of the nodes'
static types. -/
def Engine.KeepsExact (k : Engine) : Prop :=
  ∀ env e, e.static ≠ .unknown → Returns (k.eval env .unknown e) (Value.ExactOutcome e.static)

/-- An engine whose evaluations give values of the types allowed for the nodes' static
types. -/
def Engine.KeepsStatic (k : Engine) : Prop :=
  ∀ env E e, e.static.hasUnknown = false →
    Returns (k.eval env E e) (Value.StaticOutcome e.static E)

namespace Eval

section Engine

variable {k : Engine}

/-- The fields of a tuple literal evaluated under no expected type. -/
theorem tupleFields_exact (hk : k.KeepsExact) (env : Env) {es : List Expr}
    (hes : Expr.anyUnknown es = false) :
    Returns ((es.zip (es.map fun _ => Ty.unknown)).mapM fun p => k.eval env p.2 p.1)
      fun vs => firstError vs = none → Value.ExactAll vs (Expr.statics es) := by
  refine (Returns.mapM (P := fun p v => Value.ExactOutcome p.1.static v) fun p hp => ?_).mono
    fun vs hvs hnone => exactAll_of_forall₂ hvs (firstError_eq_none hnone)
  obtain ⟨e, t⟩ := p
  have hmem := List.of_mem_zip hp
  obtain ⟨_, -, rfl⟩ := List.mem_map.mp hmem.2
  exact hk env e (Ty.ne_unknown_of_ok (Expr.static_ok_of_mem hes hmem.1))

/-- One step under no expected type keeps nodes exactly of their static types. -/
theorem step_exact (hk : k.KeepsExact) (cfg : RunConfig) (env : Env) {e : Expr}
    (he : e.static ≠ .unknown) :
    Returns (step k cfg env .unknown e) (Value.ExactOutcome e.static) := by
  unfold step
  refine Returns.bind Returns.trivial fun _ _ => ?_
  cases e with
  | lit l pos =>
    refine conformValue_exact (Or.inr (Value.exact_of_type ?_ ?_ (literalValue_type l))) pos
    · cases l <;> simp [Literal.type]
    · cases l <;> simp [Literal.type, Ty.IsOpen]
  | bind name t value next pos | aliasType name t next pos =>
    refine Returns.bind (walkBindings_static k env _) fun r hr => ?_
    split
    next rest env' =>
      simp only [Expr.staticOpt] at hr
      rw [← hr] at he ⊢
      exact hk env' rest he
    next =>
      simp only [Expr.staticOpt] at hr
      rw [← hr]
      exact conformValue_exact
        (Or.inr (Value.exact_of_type (by simp) (by simp [Ty.IsOpen]) rfl)) pos
  | lam params result body pos =>
    refine Returns.bind Returns.trivial fun _ _ => conformValue_exact (Or.inr ?_) pos
    exact Value.exact_of_type (by simp [Expr.static]) (by simp [Expr.static, Ty.IsOpen]) rfl
  | apply | matchOn | ref | branch | iter | dict => simp [Expr.static] at he
  | prim op left right pos =>
    by_cases hop : op.yieldsBool = true
    · simp only [Expr.static, hop, if_true]
      refine Returns.bind Returns.trivial fun l _ => ?_
      -- a boolean operator gives a boolean or an error, which conforming leaves as it is
      split
      all_goals
        refine Returns.bind Returns.trivial fun r _ => ?_
        split
        next bad hbad => exact Returns.pure (Or.inl (firstError_eq_some hbad))
        next =>
          have hout : Value.ExactOutcome .bool (Operators.apply op l r) :=
            (Operators.apply_isBool hop l r).imp id fun h =>
              Value.exact_of_type (by simp) (by simp [Ty.IsOpen]) h
          split
          · exact Returns.bind Returns.trivial fun _ _ => conformValue_exact hout pos
          · exact conformValue_exact hout pos
    · simp [Expr.static, hop] at he
  | list es pos =>
    cases es with
    | nil => simp [Expr.static, Expr.listStatic] at he
    | cons e rest =>
      have hS : (e.static.hasUnknown || Expr.anyUnknown rest) = false := by
        cases h : (e.static.hasUnknown || Expr.anyUnknown rest)
        · rfl
        · simp only [Expr.static, Expr.listStatic, h, if_true] at he
          exact absurd rfl he
      simp only [Expr.static, Expr.listStatic, hS, Bool.false_eq_true, if_false]
      simp only [Bool.or_eq_false_iff] at hS
      refine Returns.bind (hk env e (Ty.ne_unknown_of_ok hS.1)) fun first hfirst => ?_
      refine Returns.bind Returns.trivial fun others _ => ?_
      split
      next bad hbad => exact Returns.pure (Or.inl (firstError_eq_some hbad))
      next hnone =>
        have hexact : first.Exact e.static := hfirst.resolve_left
          (Bool.eq_false_iff.mp (firstError_eq_none hnone first List.mem_cons_self))
        refine conformValue_exact
          (Or.inr (Value.exact_of_type (by simp) (by simp [Ty.IsOpen]) ?_)) pos
        show Ty.list first.type = Ty.list e.static
        rw [hexact.type_eq]
  | tuple es pos =>
    by_cases hes : Expr.anyUnknown es = true
    · simp [Expr.static, hes] at he
    simp only [Bool.not_eq_true] at hes
    simp only [Expr.static, hes, Bool.false_eq_true, if_false]
    refine Returns.bind (tupleFields_exact hk env hes) fun vs hvs => ?_
    split
    next bad hbad => exact Returns.pure (Or.inl (firstError_eq_some hbad))
    next hnone =>
      have hall := hvs hnone
      refine conformValue_exact (Or.inr ?_) pos
      simp only [Value.Exact]
      exact ⟨vs, by rw [Value.tupleOf, hall.map_type], hall⟩
  | access target index pos =>
    simp only [Expr.static] at he ⊢
    split at he
    next ts hts =>
      obtain ⟨s, hs⟩ : ∃ s, ts[index]? = some s := by
        cases h : ts[index]? <;> simp_all
      simp only [hs, Option.getD_some]
      refine Returns.bind (hk env target (by simp [hts])) fun v hv => ?_
      rw [hts] at hv
      rcases hv with herr | ⟨vs, rfl, hvs⟩
      · cases v <;> simp only [Value.isError, Bool.false_eq_true] at herr
        exact Returns.pure (Or.inl rfl)
      · obtain ⟨w, hw, hws⟩ := hvs.getElem? hs
        simp only [hw]
        exact conformValue_exact (Or.inr hws) pos
    next => simp at he
  | schema columns pos =>
    exact conformValue_exact (Or.inr (Value.exact_of_type (by simp) (by simp [Ty.IsOpen]) rfl)) pos
  | empty pos =>
    exact conformValue_exact (Or.inr (Value.exact_of_type (by simp) (by simp [Ty.IsOpen]) rfl)) pos

/-- One step under an expected type keeps nodes of the types allowed for their static
types. -/
theorem step_static (hx : k.KeepsExact) (hk : k.KeepsStatic) (cfg : RunConfig) (env : Env)
    (E : Ty) {e : Expr} (he : e.static.hasUnknown = false) :
    Returns (step k cfg env E e) (Value.StaticOutcome e.static E) := by
  unfold step
  refine Returns.bind Returns.trivial fun _ _ => ?_
  cases e with
  | lit l pos => exact conformValue_static he (literalValue_type l) pos
  | bind name t value next pos | aliasType name t next pos =>
    refine Returns.bind (walkBindings_static k env _) fun r hr => ?_
    split
    next rest env' =>
      simp only [Expr.staticOpt] at hr
      rw [← hr] at he ⊢
      exact hk env' E rest he
    next =>
      simp only [Expr.staticOpt] at hr
      rw [← hr] at he ⊢
      exact conformValue_static he (by rfl) pos
  | lam params result body pos =>
    exact Returns.bind Returns.trivial fun _ _ => conformValue_static he (by rfl) pos
  | apply | matchOn | ref | branch | iter | dict => simp [Expr.static] at he
  | prim op left right pos =>
    by_cases hop : op.yieldsBool = true
    · simp only [Expr.static, hop, if_true]
      refine Returns.bind Returns.trivial fun l _ => ?_
      split
      all_goals
        refine Returns.bind Returns.trivial fun r _ => ?_
        split
        next bad hbad => exact Returns.pure (Or.inl (firstError_eq_some hbad))
        next =>
          -- conforming leaves an error an error; a boolean is of the static type itself
          have hout : Returns (conformValue (Operators.apply op l r) E pos)
              (Value.StaticOutcome .bool E) := by
            rcases Operators.apply_isBool hop l r with herr | hbool
            · exact (conformValue_of_isError herr E pos).mono fun w hw => Or.inl hw
            · exact conformValue_static rfl hbool pos
          split
          · exact Returns.bind Returns.trivial fun _ _ => hout
          · exact hout
    · simp [Expr.static, hop] at he
  | list es pos =>
    cases es with
    | nil => simp [Expr.static, Expr.listStatic] at he
    | cons e rest =>
      have hS : (e.static.hasUnknown || Expr.anyUnknown rest) = false := by
        cases h : (e.static.hasUnknown || Expr.anyUnknown rest)
        · rfl
        · simp [Expr.static, Expr.listStatic, h] at he
      simp only [Expr.static, Expr.listStatic, hS, Bool.false_eq_true, if_false] at he ⊢
      simp only [Bool.or_eq_false_iff] at hS
      -- the element type expected: that of an expected list, or none
      split
      next e' =>
        refine Returns.bind (hk env e' e hS.1) fun first hfirst => ?_
        refine Returns.bind Returns.trivial fun others _ => ?_
        split
        next bad hbad => exact Returns.pure (Or.inl (firstError_eq_some hbad))
        next hnone =>
          obtain ⟨hx1, hn1, hSE1⟩ := hfirst.resolve_left
            (Bool.eq_false_iff.mp (firstError_eq_none hnone first List.mem_cons_self))
          have hSE : (Ty.unify (.list e.static) (.list e')).hasUnknown = false := by
            simpa [Ty.unify_list] using hSE1
          split
          next ms =>
            -- the elements keep the expected union, which needs no unknown of its own
            by_cases hU : (Ty.union ms).hasUnknown = true
            · refine (conformValue_resolves _ _ pos).mono fun w hw => ?_
              rcases hw with herr | ⟨-, hok⟩
              · exact Or.inl herr
              · simp only [Value.listOf, Value.type, Ty.unify_self, Ty.hasUnknown] at hok
                simp [hok] at hU
            · exact conformValue_narrowed (by simpa [Value.listOf, Value.type] using hU)
                (.list (.union hSE1)) (fun _ => hSE) pos
          next =>
            exact conformValue_narrowed (by exact hx1) (.list hn1) (fun _ => hSE) pos
      next =>
        refine Returns.bind (hx env e (Ty.ne_unknown_of_ok hS.1)) fun first hfirst => ?_
        refine Returns.bind Returns.trivial fun others _ => ?_
        split
        next bad hbad => exact Returns.pure (Or.inl (firstError_eq_some hbad))
        next hnone =>
          have hexact : first.Exact e.static := hfirst.resolve_left
            (Bool.eq_false_iff.mp (firstError_eq_none hnone first List.mem_cons_self))
          exact conformValue_static he
            (by show Ty.list first.type = Ty.list e.static; rw [hexact.type_eq]) pos
  | tuple es pos =>
    by_cases hes : Expr.anyUnknown es = true
    · simp [Expr.static, hes] at he
    simp only [Bool.not_eq_true] at hes
    simp only [Expr.static, hes, Bool.false_eq_true, if_false] at he ⊢
    -- the fields' types expected: those of an expected tuple of the same length, or none;
    -- either way the tuple they make conforms as its static type allows
    have hfields : Returns ((es.zip (match E with
        | .tuple ts => if ts.length == es.length then ts else es.map fun _ => Ty.unknown
        | _ => es.map fun _ => Ty.unknown)).mapM fun p => k.eval env p.2 p.1)
        fun vs => firstError vs = none →
          Returns (conformValue (Value.tupleOf vs) E pos)
            (Value.StaticOutcome (.tuple (Expr.statics es)) E) := by
      split
      next ts =>
        split
        next hlen =>
          have hlen' : es.length = ts.length := (beq_iff_eq.mp hlen).symm
          refine (Returns.mapM (P := fun p v => Value.StaticOutcome p.1.static p.2 v)
            fun p hp => ?_).mono fun vs hvs hnone => ?_
          · exact hk env p.2 p.1 (Expr.static_ok_of_mem hes (List.of_mem_zip hp).1)
          · obtain ⟨hns, hxs, hSEs⟩ :=
              narrowedAll_of_forall₂ hlen' hvs (firstError_eq_none hnone)
            refine conformValue_narrowed (by simpa [Value.tupleOf] using hxs) (.tuple hns)
              (fun _ => ?_) pos
            exact Ty.unify_tuple_ok (Expr.anyUnknown_statics hes) hSEs
              (by rw [Expr.length_statics, hlen'])
        next =>
          exact (tupleFields_exact hx env hes).mono fun vs hvs hnone =>
            conformValue_static he (by rw [Value.tupleOf, (hvs hnone).map_type]; rfl) pos
      next =>
        exact (tupleFields_exact hx env hes).mono fun vs hvs hnone =>
          conformValue_static he (by rw [Value.tupleOf, (hvs hnone).map_type]; rfl) pos
    refine Returns.bind hfields fun vs hvs => ?_
    split
    next bad hbad => exact Returns.pure (Or.inl (firstError_eq_some hbad))
    next hnone => exact hvs hnone
  | access target index pos =>
    simp only [Expr.static] at he ⊢
    split at he
    next ts hts =>
      obtain ⟨s, hs⟩ : ∃ s, ts[index]? = some s := by
        cases h : ts[index]? <;> simp_all
      simp only [hs, Option.getD_some] at he ⊢
      refine Returns.bind (hx env target (by simp [hts])) fun v hv => ?_
      rw [hts] at hv
      rcases hv with herr | ⟨vs, rfl, hvs⟩
      · cases v <;> simp only [Value.isError, Bool.false_eq_true] at herr
        exact Returns.pure (Or.inl rfl)
      · obtain ⟨w, hw, hws⟩ := hvs.getElem? hs
        simp only [hw]
        exact conformValue_static he hws.type_eq pos
    next => simp at he
  | schema columns pos => exact conformValue_static he (by rfl) pos
  | empty pos => exact conformValue_static he (by rfl) pos

end Engine

theorem eval_keepsExact (cfg : RunConfig) : ∀ n, Engine.KeepsExact ⟨eval n cfg, call n cfg⟩
  | 0 => fun _ _ _ => Returns.throw
  | n + 1 => fun env _ he => step_exact (eval_keepsExact cfg n) cfg env he

theorem eval_keepsStatic (cfg : RunConfig) : ∀ n, Engine.KeepsStatic ⟨eval n cfg, call n cfg⟩
  | 0 => fun _ _ _ _ => Returns.throw
  | n + 1 => fun env E _ he =>
    step_static (eval_keepsExact cfg n) (eval_keepsStatic cfg n) cfg env E he

/-- Static types are sound. A node whose static type has no `unknown` in it evaluates, in
any scope and under any expected type, to an error or to a value whose type conforms to the
static type. A node that is statically a tuple of `n` members evaluates under no expected
type, as a field access evaluates its target, to an error or to a tuple of exactly `n`
fields, so a field index below the static length is never out of range. -/
theorem static_types_are_sound (cfg : RunConfig) (n : Nat) (env : Env) (E : Ty) (e : Expr) :
    (e.static.hasUnknown = false →
      Returns (eval n cfg env E e) fun v => v.isError = true ∨ v.type.conformsTo e.static = true) ∧
    (∀ ts, e.static = .tuple ts →
      Returns (eval n cfg env .unknown e) fun v =>
        v.isError = true ∨ ∃ vs, v = .tuple vs (.tuple ts) ∧ vs.length = ts.length) := by
  refine ⟨fun he => ?_, fun ts hts => ?_⟩
  · refine (eval_keepsStatic cfg n env E e he).mono fun v hv => ?_
    rcases hv with herr | ⟨hx, hn, -⟩
    · exact Or.inl herr
    · exact Or.inr (Ty.conformsTo_iff.mpr (hn.conforms hx))
  · refine (eval_keepsExact cfg n env e (by simp [hts])).mono fun v hv => ?_
    rw [hts] at hv
    rcases hv with herr | hexact
    · exact Or.inl herr
    · simp only [Value.Exact] at hexact
      obtain ⟨vs, rfl, hvs⟩ := hexact
      exact Or.inr ⟨vs, rfl, hvs.length_eq⟩

end Eval

end Retl
