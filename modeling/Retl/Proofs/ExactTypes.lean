import Retl.Proofs.Reconformance
import Retl.Proofs.EvalLogic
/-!
# Exact types pass conformance unchanged

A type is exact when no union, `any` or `unknown` stands anywhere inside it (`Ty.isExact`).
Conformance never changes such a type: met against any type, on either side, it either comes
back as it was or the result has an `unknown` inside, which conformance reports as a mismatch.
The union search, `any` and `unknown` on the other side and the pairwise rules all end in one of
these two outcomes (`Ty.unify_of_isExact_left`, with `Ty.unify_comm` for the other side).

So a value whose type is exact crosses every typed boundary either untouched, with the machine
as it was, or poisoned: it becomes the error value of the mismatch, and the mismatch is recorded
as a type diagnostic at the boundary (`Eval.conformValue_of_isExact`).
-/

namespace Retl

namespace Ty

mutual

/-- An exact type has no `unknown` inside. -/
theorem hasUnknown_of_isExact : ∀ {t : Ty}, t.isExact = true → t.hasUnknown = false
  | .int, _ | .bool, _ | .char, _ | .string, _ | .null, _ | .schema, _ => rfl
  | .union _, h | .any, h | .unknown, h => by simp at h
  | .list e, h => by
    simp only [isExact] at h
    simp only [hasUnknown, hasUnknown_of_isExact h]
  | .tuple es, h => by
    simp only [isExact] at h
    simp only [hasUnknown, anyUnknown_of_allExact h]
  | .dict k v, h => by
    simp only [isExact, Bool.and_eq_true] at h
    simp only [hasUnknown, hasUnknown_of_isExact h.1, hasUnknown_of_isExact h.2, Bool.or_self]
  | .func ps r, h => by
    simp only [isExact, Bool.and_eq_true] at h
    simp only [hasUnknown, anyUnknown_of_allExact h.1, hasUnknown_of_isExact h.2, Bool.or_self]

theorem anyUnknown_of_allExact : ∀ {ts : List Ty}, allExact ts = true → anyUnknown ts = false
  | [], _ => rfl
  | t :: ts, h => by
    simp only [allExact, Bool.and_eq_true] at h
    simp only [anyUnknown, hasUnknown_of_isExact h.1, anyUnknown_of_allExact h.2, Bool.or_self]

end

/-- An exact type met against any type comes back as it was, or the meeting fails. -/
theorem unify_isExact_left {t : Ty} (ht : t.isExact = true) (s : Ty) :
    unify t s = t ∨ (unify t s).hasUnknown = true := by
  cases h : (unify t s).hasUnknown
  · exact Or.inl (unify_of_isExact_left ht h)
  · exact Or.inr rfl

/-- Any type met against an exact type resolves to it, or the meeting fails. -/
theorem unify_isExact_right {t : Ty} (ht : t.isExact = true) (s : Ty) :
    unify s t = t ∨ (unify s t).hasUnknown = true := by
  rw [unify_comm]
  exact unify_isExact_left ht s

end Ty

namespace Eval

/-- The machine after a boundary records the type mismatch of `actual` against `expected`. -/
def recordMismatch (m : Machine) (actual expected : Ty) (pos : Position) : Machine :=
  { m with
    diagnostics := m.diagnostics.push
      { severity := .type, message := actual.mismatchMessage expected, position := some pos } }

/-- A value of an exact type crosses a typed boundary untouched, or it is poisoned and the
mismatch recorded. -/
theorem conformValue_of_isExact {v : Value} (hv : v.type.isExact = true) (E : Ty) (pos : Position)
    (m : Machine) :
    (conformValue v E pos).exec m = (.ok v, m) ∨
      (conformValue v E pos).exec m =
        (.ok (.error (v.type.mismatchMessage E)), recordMismatch m v.type E pos) := by
  have herr : v.isError = false := by
    cases v <;> simp_all [Value.type, Value.isError]
  unfold conformValue
  rw [if_neg (by simp [herr])]
  rcases Ty.unify_isExact_left hv E with hsame | hbad
  · -- the agreed type is the value's own, so the value is given back as it is
    have hok : v.type.conform? E = some v.type := by
      rw [Ty.conform?, hsame, Ty.hasUnknown_of_isExact hv]
      rfl
    left
    rw [hok]
    simp
  · have hnone : v.type.conform? E = none := by
      rw [Ty.conform?, hbad]
      rfl
    right
    rw [hnone]
    rfl

end Eval

/-- Conformance never changes an exact type: met against any type, on either side, the result
is the type itself or holds an `unknown`; so a value of that type crosses a boundary unchanged
or becomes the error value of the mismatch, which is recorded. -/
theorem exact_types_pass_unchanged (t s : Ty) (ht : t.isExact = true) :
    (Ty.unify t s = t ∨ (Ty.unify t s).hasUnknown = true) ∧
      (Ty.unify s t = t ∨ (Ty.unify s t).hasUnknown = true) ∧
      ∀ (v : Value) (pos : Position) (m : Machine), v.type = t →
        (Eval.conformValue v s pos).exec m = (.ok v, m) ∨
          (Eval.conformValue v s pos).exec m =
            (.ok (.error (t.mismatchMessage s)), Eval.recordMismatch m t s pos) := by
  refine ⟨Ty.unify_isExact_left ht s, Ty.unify_isExact_right ht s, fun v pos m hv => ?_⟩
  subst hv
  exact Eval.conformValue_of_isExact ht s pos m

/-- A pair of an integer and a list of strings meets a union through its second member, where
`any` and `unknown` give way to it, and comes back as it was. -/
theorem exact_pair_passes_union :
    (Ty.tuple [.int, .list .string]).isExact = true ∧
      (Ty.unify (.tuple [.int, .list .string])
          (.union [.string, .tuple [.any, .list .unknown]]) = .tuple [.int, .list .string] ∨
        (Ty.unify (.tuple [.int, .list .string])
          (.union [.string, .tuple [.any, .list .unknown]])).hasUnknown = true) :=
  ⟨by decide, (exact_types_pass_unchanged _ _ (by decide)).1⟩

end Retl
