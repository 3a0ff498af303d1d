import Retl.Proofs.Reporting
import Retl.Proofs.EvaluationOrder
/-!
# Structural equality

`Value.equal` is the equality of `==`, `!=` and `===`, and the one a dictionary compares
its keys with. It looks at kinds and contents and never at the types values carry: a
table is compared as the list of its rows, with lists and with tables alike; lists and
tuples element by element; dictionaries as lists of pairs in insertion order; scalars and
schemas by content; and functions by which function they are (`FuncId`), which
conformance never changes. An error is equal to nothing, not even to itself.

So `equal` is symmetric and transitive on all values, and reflexive on the values no
error can be reached from (`Value.Clean`); values of different kinds are never equal.
The operators agree with it, and a dictionary applied to a key gives the value of its
first pair whose key is equal to the key (`structural_equality_laws`).
-/

namespace Retl

namespace Value

/-- The kind equality sees: a table is a list of rows, every other value is of its own
kind. -/
def equalityKind (v : Value) : String :=
  match v with
  | .table .. => "List"
  | v => v.kindName

/-- Two lists of values are element-wise equal. -/
def EqualAll (xs ys : List Value) : Prop := List.Forall₂ (fun x y => x.equal y = true) xs ys

/-- Two association lists are pair-wise equal, keys and values. -/
def EqualPairs (ps qs : List (Value × Value)) : Prop :=
  List.Forall₂ (fun p q => p.1.equal q.1 = true ∧ p.2.equal q.2 = true) ps qs

theorem equalAll_iff {xs ys : List Value} : equalAll xs ys = true ↔ EqualAll xs ys := by
  induction xs generalizing ys with
  | nil => cases ys <;> simp [equalAll, EqualAll]
  | cons x xs ih =>
    cases ys with
    | nil => simp [equalAll, EqualAll]
    | cons y ys =>
      rw [equalAll, Bool.and_eq_true, ih, EqualAll, EqualAll, List.forall₂_cons]

theorem equalPairs_iff {ps qs : List (Value × Value)} :
    equalPairs ps qs = true ↔ EqualPairs ps qs := by
  induction ps generalizing qs with
  | nil => cases qs <;> simp [equalPairs, EqualPairs]
  | cons p ps ih =>
    cases qs with
    | nil => simp [equalPairs, EqualPairs]
    | cons q qs =>
      obtain ⟨k, v⟩ := p
      obtain ⟨k', v'⟩ := q
      rw [equalPairs, Bool.and_eq_true, Bool.and_eq_true, ih, EqualPairs, EqualPairs,
        List.forall₂_cons]

/-! ### Symmetry -/

mutual

theorem equal_symm (a b : Value) : a.equal b = b.equal a := by
  cases a <;> cases b <;> simp only [equal]
  all_goals first
    | rfl
    | exact Bool.beq_comm
    | exact equalAll_symm _ _
    | exact equalPairs_symm _ _
termination_by sizeOf a
decreasing_by
  all_goals
    simp only [Value.list.sizeOf_spec, Value.tuple.sizeOf_spec, Value.dict.sizeOf_spec,
      Value.table.sizeOf_spec]
    omega

theorem equalAll_symm (xs ys : List Value) : equalAll xs ys = equalAll ys xs := by
  match xs, ys with
  | [], [] => rfl
  | x :: xs, y :: ys => rw [equalAll, equalAll, equal_symm x y, equalAll_symm xs ys]
  | [], _ :: _ | _ :: _, [] => rfl
termination_by sizeOf xs
decreasing_by
  all_goals
    simp only [List.cons.sizeOf_spec]
    omega

theorem equalPairs_symm (ps qs : List (Value × Value)) : equalPairs ps qs = equalPairs qs ps := by
  match ps, qs with
  | [], [] => rfl
  | (k, v) :: ps, (k', v') :: qs =>
    rw [equalPairs, equalPairs, equal_symm k k', equal_symm v v', equalPairs_symm ps qs]
  | [], _ :: _ | _ :: _, [] => rfl
termination_by sizeOf ps
decreasing_by
  all_goals
    simp only [List.cons.sizeOf_spec, Prod.mk.sizeOf_spec]
    omega

end

/-! ### Transitivity -/

mutual

theorem equal_trans {a b c : Value} (hab : a.equal b = true) (hbc : b.equal c = true) :
    a.equal c = true := by
  -- only values of one kind are equal, a table counting as a list
  cases a <;> cases b <;> simp only [equal, Bool.false_eq_true] at hab
  all_goals cases c <;> simp only [equal, Bool.false_eq_true] at hbc ⊢
  all_goals first
    | exact equalAll_trans hab hbc
    | exact equalPairs_trans hab hbc
    | (simp only [beq_iff_eq] at hab hbc ⊢; exact hab.trans hbc)
termination_by sizeOf a
decreasing_by
  all_goals
    subst_vars
    simp only [Value.list.sizeOf_spec, Value.tuple.sizeOf_spec, Value.dict.sizeOf_spec,
      Value.table.sizeOf_spec]
    omega

theorem equalAll_trans {xs ys zs : List Value} (hab : equalAll xs ys = true)
    (hbc : equalAll ys zs = true) : equalAll xs zs = true := by
  match xs, ys, zs with
  | [], [], [] => rfl
  | x :: xs, y :: ys, z :: zs =>
    simp only [equalAll, Bool.and_eq_true] at hab hbc ⊢
    exact ⟨equal_trans hab.1 hbc.1, equalAll_trans hab.2 hbc.2⟩
  | [], [], _ :: _ | [], _ :: _, _ | _ :: _, [], _ | _ :: _, _ :: _, [] =>
    simp [equalAll] at hab hbc
termination_by sizeOf xs
decreasing_by
  all_goals
    simp only [List.cons.sizeOf_spec]
    omega

theorem equalPairs_trans {ps qs rs : List (Value × Value)} (hab : equalPairs ps qs = true)
    (hbc : equalPairs qs rs = true) : equalPairs ps rs = true := by
  match ps, qs, rs with
  | [], [], [] => rfl
  | (k, v) :: ps, (k', v') :: qs, (k'', v'') :: rs =>
    simp only [equalPairs, Bool.and_eq_true] at hab hbc ⊢
    exact ⟨⟨equal_trans hab.1.1 hbc.1.1, equal_trans hab.1.2 hbc.1.2⟩,
      equalPairs_trans hab.2 hbc.2⟩
  | [], [], _ :: _ | [], _ :: _, _ | _ :: _, [], _ | _ :: _, _ :: _, [] =>
    simp [equalPairs] at hab hbc
termination_by sizeOf ps
decreasing_by
  all_goals
    simp only [List.cons.sizeOf_spec, Prod.mk.sizeOf_spec]
    omega

end

/-! ### Reflexivity -/

/-- A value no error can be reached from is equal to itself. -/
theorem equal_self_of_clean {a : Value} (h : a.Clean) : a.equal a = true := by
  induction h with
  | list _ ih | tuple _ ih | table _ ih =>
    exact equalAll_iff.mpr (List.forall₂_same.mpr ih)
  | dict _ _ ihk ihv =>
    exact equalPairs_iff.mpr (List.forall₂_same.mpr fun p hp => ⟨ihk p hp, ihv p hp⟩)
  | _ => simp [equal]

/-- An error is equal to nothing, itself included. -/
theorem error_equal (msg : String) (b : Value) : (Value.error msg).equal b = false := by
  cases b <;> rfl

/-! ### What equality compares -/

/-- Equality ignores the types values carry, so retyping a value changes nothing. -/
theorem retype_equal (v : Value) (t : Ty) (w : Value) : (v.retype t).equal w = v.equal w := by
  cases v <;> cases w <;> rfl

theorem equalityKind_eq_of_equal {a b : Value} (h : a.equal b = true) :
    a.equalityKind = b.equalityKind := by
  cases a <;> cases b <;> simp only [equal, Bool.false_eq_true] at h <;> rfl

/-- A list or a table is equal exactly to the lists and tables whose elements or rows are
equal to its own, one for one. -/
theorem equal_iff_of_asList? {a : Value} {xs : List Value} {t : Ty} (ha : a.asList? = some (xs, t))
    (b : Value) : a.equal b = true ↔ ∃ ys u, b.asList? = some (ys, u) ∧ EqualAll xs ys := by
  cases a <;> simp only [asList?, reduceCtorEq, Option.some.injEq, Prod.mk.injEq] at ha
  all_goals
    obtain ⟨rfl, rfl⟩ := ha
    cases b <;> simp [equal, asList?, equalAll_iff]

theorem dict_equal_iff (ps : List (Value × Value)) (t : Ty) (b : Value) :
    (Value.dict ps t).equal b = true ↔ ∃ qs u, b = .dict qs u ∧ EqualPairs ps qs := by
  cases b <;> simp [equal, equalPairs_iff]

theorem func_equal_iff (id : FuncId) (ps : List (String × Ty)) (r : Ty) (body : Option Expr)
    (cl : List Frame) (t : Ty) (b : Value) :
    (Value.func id ps r body cl t).equal b = true ↔
      ∃ ps' r' body' cl' t', b = .func id ps' r' body' cl' t' := by
  constructor
  · intro h
    cases b
    case func j ps' r' body' cl' t' =>
      have hj : id = j := beq_iff_eq.mp h
      exact ⟨ps', r', body', cl', t', hj ▸ rfl⟩
    all_goals simp only [equal, Bool.false_eq_true] at h
  · rintro ⟨ps', r', body', cl', t', rfl⟩
    exact beq_self_eq_true id

/-- The first pair of an association list whose key is equal to `probe`. -/
theorem find?_first_equal {ps pre post : List (Value × Value)} {key val probe : Value}
    (hps : ps = pre ++ (key, val) :: post) (hpre : ∀ q ∈ pre, q.1.equal probe = false)
    (hkey : key.equal probe = true) :
    ps.find? (fun q => q.1.equal probe) = some (key, val) := by
  subst hps
  have hnone : pre.find? (fun q => q.1.equal probe) = none :=
    List.find?_eq_none.mpr fun q hq => by simp [hpre q hq]
  have hfirst : ((key, val) :: post).find? (fun q => q.1.equal probe) = some (key, val) :=
    List.find?_cons_of_pos hkey
  rw [List.find?_append, hnone, Option.none_or, hfirst]

end Value

namespace Operators

theorem eq_of_same {a b : Value} (h : binary .same a b = .bool true) : binary .eq a b = .bool true := by
  simp only [binary, Value.bool.injEq, Bool.and_eq_true] at h ⊢
  exact h.1

end Operators

/-- The laws of structural equality, and how the operators and dictionary lookup follow it. -/
structure EqualityLaws : Prop where
  /-- A value no error can be reached from is equal to itself. -/
  refl : ∀ a : Value, a.Clean → a.equal a = true
  symm : ∀ a b : Value, a.equal b = b.equal a
  trans : ∀ a b c : Value, a.equal b = true → b.equal c = true → a.equal c = true
  /-- An error is equal to nothing, so no value with an error inside is equal to itself. -/
  errors : ∀ msg b, (Value.error msg).equal b = false
  /-- Lists and tables are compared by their elements and rows, with lists and tables. -/
  sequences : ∀ (a : Value) xs t, a.asList? = some (xs, t) →
    ∀ b, a.equal b = true ↔ ∃ ys u, b.asList? = some (ys, u) ∧ Value.EqualAll xs ys
  /-- Dictionaries are compared as lists of pairs, in insertion order. -/
  dicts : ∀ ps t b, (Value.dict ps t).equal b = true ↔
    ∃ qs u, b = .dict qs u ∧ Value.EqualPairs ps qs
  /-- Functions are equal when they are the same function. -/
  funcs : ∀ id ps r body cl t b, (Value.func id ps r body cl t).equal b = true ↔
    ∃ ps' r' body' cl' t', b = .func id ps' r' body' cl' t'
  /-- Conformance retypes values, and equality does not see types. -/
  retype : ∀ (v : Value) (t : Ty) (w : Value), (v.retype t).equal w = v.equal w
  kinds : ∀ a b : Value, a.equalityKind ≠ b.equalityKind → a.equal b = false
  /-- `==` is equality, `!=` its negation, and `===` asks for equality and more. -/
  operators : ∀ a b, Operators.binary .eq a b = .bool (a.equal b) ∧
    Operators.binary .ne a b = .bool (!a.equal b) ∧
    (Operators.binary .same a b = .bool true → Operators.binary .eq a b = .bool true)
  /-- A dictionary applied to a key that is no error gives the value of its first pair
  whose key is equal to it. -/
  lookup : ∀ (k : Engine) env E ps t a pos m probe m₁ pre key val post,
    (k.eval env t.keyType a).exec m = (.ok probe, m₁) → probe.isError = false →
    ps = pre ++ (key, val) :: post → (∀ q ∈ pre, q.1.equal probe = false) →
    key.equal probe = true →
    (Eval.applyTo k env E (.dict ps t) [a] pos).exec m = (Eval.conformValue val E pos).exec m₁

/-- Structural equality is an equivalence on the values no error can be reached from,
symmetric and transitive on all values, blind to types and to the table/list difference,
and never relates values of different kinds; the equality operators and dictionary lookup
follow it. -/
theorem structural_equality_laws : EqualityLaws where
  refl _ h := Value.equal_self_of_clean h
  symm := Value.equal_symm
  trans _ _ _ hab hbc := Value.equal_trans hab hbc
  errors := Value.error_equal
  sequences _ _ _ ha := Value.equal_iff_of_asList? ha
  dicts := Value.dict_equal_iff
  funcs := Value.func_equal_iff
  retype := Value.retype_equal
  kinds a b hk := Bool.eq_false_iff.mpr fun h => hk (Value.equalityKind_eq_of_equal h)
  operators _ _ := ⟨rfl, rfl, Operators.eq_of_same⟩
  lookup _ _ _ _ _ _ _ _ _ _ _ _ _ _ ha hprobe hps hpre hkey := by
    rw [Eval.exec_applyTo_key ha, if_neg (ne_true_of_eq_false hprobe),
      Value.find?_first_equal hps hpre hkey]
    rfl

example : (Value.int 1).equal (.bool true) = false := rfl

example : (Value.char 'a').equal (.string "a") = false := rfl

end Retl
