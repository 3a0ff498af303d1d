import Retl.Proofs.Conformance
/-!
# Conforming twice

A value already conformed to an expected type meets that type again whenever it crosses a
second boundary that expects the same type: a call checks the arguments that were evaluated
under the parameter types, and a function's result, conformed to its declared result type,
meets a `let` annotation of the same type.

The second meeting always succeeds (`Ty.unify_unify_ok`), but it need not leave the type as
the first one made it. A union meets a type that is not a union through its first member
that resolves, and what the first meeting made of a type can be taken by an earlier member
that refused the original type (`Ty.reconforming_narrows_through_earlier_member`).

Two cases are stable (`Ty.reconforming_settles`):
* the expected type holds no union: every other rule resolves part by part, so a part that
  has been resolved resolves to itself (`Ty.unify_unify_of_unionFree`);
* the value's type is exact, with no union, `any` or `unknown` inside it: such a type is
  its own resolution against every type it conforms to (`Ty.unify_eq_of_isExact`).
-/

namespace Retl

namespace Ty

mutual

/-- Whether a union occurs anywhere inside a type term, function results included. -/
def hasUnion : Ty → Bool
  | .union _ => true
  | .list e => e.hasUnion
  | .tuple es => anyUnion es
  | .dict k v => k.hasUnion || v.hasUnion
  | .func ps r => anyUnion ps || r.hasUnion
  | _ => false

/-- Whether a union occurs inside any of a list of type terms. -/
def anyUnion : List Ty → Bool
  | [] => false
  | t :: ts => t.hasUnion || anyUnion ts

end

mutual

/-- Whether a type term names one shape exactly: no union, no `any` and no `unknown`
anywhere inside it. -/
def isExact : Ty → Bool
  | .union _ | .any | .unknown => false
  | .list e => e.isExact
  | .tuple es => allExact es
  | .dict k v => k.isExact && v.isExact
  | .func ps r => allExact ps && r.isExact
  | _ => true

/-- Whether every type term of a list is exact. -/
def allExact : List Ty → Bool
  | [] => true
  | t :: ts => t.isExact && allExact ts

end

attribute [simp] hasUnion anyUnion isExact allExact

theorem not_isOpen_of_isExact {t : Ty} (h : t.isExact = true) : ¬t.IsOpen := by
  cases t <;> simp_all [IsOpen]

theorem ne_unknown_of_isExact {t : Ty} (h : t.isExact = true) : t ≠ .unknown := by
  rintro rfl
  simp at h

@[simp] theorem unify_list (x y : Ty) : unify (.list x) (.list y) = .list (unify x y) := by
  rw [unify.eq_6]
  split
  next h =>
    cases h
    simp
  · rfl

@[simp] theorem unify_dict (k v k' v' : Ty) :
    unify (.dict k v) (.dict k' v') = .dict (unify k k') (unify v v') := by
  rw [unify.eq_8]
  split
  next h =>
    cases h
    simp
  · rfl

mutual

/-- Against an expected type with no union, what a meeting resolved meets that type again
unchanged. -/
theorem unify_unify_of_unionFree (t E : Ty) (hE : E.hasUnion = false)
    (h : (unify t E).hasUnknown = false) : unify (unify t E) E = unify t E := by
  by_cases htE : t = E
  · subst htE
    simp
  by_cases ht : t.IsOpen
  · rcases isOpen_iff.mp ht with hany | ⟨ms, hms⟩
    · subst hany
      simp
    by_cases hEa : E = .any
    · subst hEa
      simp
    -- a union meets a type of fixed form through one member, which is smaller
    have hE' : ¬E.IsOpen := by
      rintro hopen
      rcases isOpen_iff.mp hopen with hany | ⟨ns, rfl⟩
      · exact hEa hany
      · simp at hE
    rw [hms, unify_union_left hE'] at h ⊢
    obtain ⟨m, hmem, heq, hok⟩ := exists_mem_of_unifyMember h
    rw [← heq]
    exact unify_unify_of_unionFree m E hE hok
  by_cases hE' : E.IsOpen
  · rcases isOpen_iff.mp hE' with hany | ⟨ns, rfl⟩
    · subst hany
      simp
    · simp at hE
  by_cases hEu : E = .unknown
  · subst hEu
    rw [unify_unknown_right ht, unify_unknown_right ht]
  by_cases htu : t = .unknown
  · subst htu
    rw [unify_unknown_left hE']
    simp
  cases t <;> cases E <;> simp only [IsOpen, not_true_eq_false] at ht hE' htu hEu
  case list.list x y =>
    simp only [unify_list, hasUnknown, hasUnion] at h hE ⊢
    rw [unify_unify_of_unionFree x y hE h]
  case tuple.tuple xs ys =>
    rw [unify.eq_7, if_neg htE] at h ⊢
    cases hp : unifyPairwise xs ys with
    | none => simp [hp] at h
    | some us =>
      simp only [hp, hasUnknown, hasUnion] at h hE ⊢
      rw [unify.eq_7]
      split
      · rfl
      · obtain ⟨rfl, -, -⟩ := unifyPairwise_eq_some hp
        rw [unifyPairwise_again hp, unifyZip_unifyZip_of_unionFree xs ys hE h]
  case dict.dict k v k' v' =>
    simp only [unify_dict, hasUnknown, hasUnion, Bool.or_eq_false_iff] at h hE ⊢
    rw [unify_unify_of_unionFree k k' hE.1 h.1, unify_unify_of_unionFree v v' hE.2 h.2]
  case func.func ps r qs s =>
    rw [unify.eq_9, if_neg htE] at h ⊢
    cases hp : unifyPairwise ps qs with
    | none => simp [hp] at h
    | some us =>
      simp only [hp, hasUnknown, hasUnion, Bool.or_eq_false_iff] at h hE ⊢
      rw [unify.eq_9]
      split
      · rfl
      · obtain ⟨rfl, -, -⟩ := unifyPairwise_eq_some hp
        rw [unifyPairwise_again hp, unifyZip_unifyZip_of_unionFree ps qs hE.1 h.1,
          unify_unify_of_unionFree r s hE.2 h.2]
  all_goals
    rw [unify.eq_def, if_neg htE] at h
    simp at h
termination_by sizeOf t + sizeOf E
decreasing_by
  all_goals
    subst_vars
    simp only [Ty.list.sizeOf_spec, Ty.tuple.sizeOf_spec, Ty.union.sizeOf_spec,
      Ty.dict.sizeOf_spec, Ty.func.sizeOf_spec]
    -- a union's member is smaller than the union
    first
      | omega
      | (have hlt := List.sizeOf_lt_of_mem ‹_ ∈ _›; omega)

theorem unifyZip_unifyZip_of_unionFree : ∀ (xs ys : List Ty), anyUnion ys = false →
    anyUnknown (unifyZip xs ys) = false → unifyZip (unifyZip xs ys) ys = unifyZip xs ys
  | x :: xs, y :: ys, hys, h => by
    simp only [unifyZip, anyUnknown, anyUnion, Bool.or_eq_false_iff] at hys h ⊢
    rw [unify_unify_of_unionFree x y hys.1 h.1, unifyZip_unifyZip_of_unionFree xs ys hys.2 h.2]
  | [], _, _, _ => by simp [unifyZip]
  | _ :: _, [], _, _ => by simp [unifyZip]
termination_by xs ys => sizeOf xs + sizeOf ys
decreasing_by
  all_goals
    simp only [List.cons.sizeOf_spec]
    omega

end

mutual

/-- An exact type is what every type that conforms to it resolves to. -/
theorem unify_eq_of_isExact (t E : Ty) (hE : E.isExact = true)
    (h : (unify t E).hasUnknown = false) : unify t E = E := by
  by_cases htE : t = E
  · subst htE
    simp
  have hE' := not_isOpen_of_isExact hE
  have hEu := ne_unknown_of_isExact hE
  by_cases ht : t.IsOpen
  · rcases isOpen_iff.mp ht with hany | ⟨ms, rfl⟩
    · subst hany
      simp
    · rw [unify_union_left hE'] at h ⊢
      obtain ⟨m, hmem, heq, hok⟩ := exists_mem_of_unifyMember h
      rw [← heq]
      exact unify_eq_of_isExact m E hE hok
  by_cases htu : t = .unknown
  · subst htu
    exact unify_unknown_left hE'
  cases t <;> cases E <;> simp only [IsOpen, not_true_eq_false, ne_eq] at ht hE' htu hEu
  case list.list x y =>
    simp only [unify_list, hasUnknown, isExact] at h hE ⊢
    rw [unify_eq_of_isExact x y hE h]
  case tuple.tuple xs ys =>
    rw [unify.eq_7, if_neg htE] at h ⊢
    cases hp : unifyPairwise xs ys with
    | none => simp [hp] at h
    | some us =>
      simp only [hp, hasUnknown, isExact] at h hE ⊢
      obtain ⟨rfl, -, hlen⟩ := unifyPairwise_eq_some hp
      rw [unifyZip_eq_of_allExact xs ys hE hlen h]
  case dict.dict k v k' v' =>
    simp only [unify_dict, hasUnknown, isExact, Bool.or_eq_false_iff, Bool.and_eq_true] at h hE ⊢
    rw [unify_eq_of_isExact k k' hE.1 h.1, unify_eq_of_isExact v v' hE.2 h.2]
  case func.func ps r qs s =>
    rw [unify.eq_9, if_neg htE] at h ⊢
    cases hp : unifyPairwise ps qs with
    | none => simp [hp] at h
    | some us =>
      simp only [hp, hasUnknown, isExact, Bool.or_eq_false_iff, Bool.and_eq_true] at h hE ⊢
      obtain ⟨rfl, -, hlen⟩ := unifyPairwise_eq_some hp
      rw [unifyZip_eq_of_allExact ps qs hE.1 hlen h.1, unify_eq_of_isExact r s hE.2 h.2]
  all_goals
    rw [unify.eq_def, if_neg htE] at h
    simp at h
termination_by sizeOf t + sizeOf E
decreasing_by
  all_goals
    subst_vars
    simp only [Ty.list.sizeOf_spec, Ty.tuple.sizeOf_spec, Ty.union.sizeOf_spec,
      Ty.dict.sizeOf_spec, Ty.func.sizeOf_spec]
    -- a union's member is smaller than the union
    first
      | omega
      | (have hlt := List.sizeOf_lt_of_mem ‹_ ∈ _›; omega)

theorem unifyZip_eq_of_allExact : ∀ (xs ys : List Ty), allExact ys = true →
    xs.length = ys.length → anyUnknown (unifyZip xs ys) = false → unifyZip xs ys = ys
  | x :: xs, y :: ys, hys, hlen, h => by
    simp only [unifyZip, anyUnknown, allExact, Bool.or_eq_false_iff, Bool.and_eq_true,
      List.length_cons, Nat.add_right_cancel_iff] at hys hlen h ⊢
    rw [unify_eq_of_isExact x y hys.1 h.1, unifyZip_eq_of_allExact xs ys hys.2 hlen h.2]
  | [], [], _, _, _ => by simp [unifyZip]
  | [], _ :: _, _, hlen, _ => by simp at hlen
  | _ :: _, [], _, hlen, _ => by simp at hlen
termination_by xs ys => sizeOf xs + sizeOf ys
decreasing_by
  all_goals
    simp only [List.cons.sizeOf_spec]
    omega

end

/-- An exact type meets every type it conforms to as itself. -/
theorem unify_of_isExact_left {a E : Ty} (ha : a.isExact = true)
    (h : (unify a E).hasUnknown = false) : unify a E = a := by
  rw [unify_comm] at h ⊢
  exact unify_eq_of_isExact E a ha h

/-- Conforming a resolved type to the same expected type again succeeds, and gives the same
type back when the expected type holds no union or the original type is exact; an exact type
is resolved to itself in the first place. -/
theorem reconforming_settles {a b r : Ty} (h : a.conform? b = some r) :
    (∃ r', r.conform? b = some r') ∧
      (b.hasUnion = false ∨ a.isExact = true → r.conform? b = some r) ∧
      (a.isExact = true → r = a) := by
  obtain ⟨rfl, hok⟩ := conform?_eq_some.mp h
  refine ⟨⟨_, conform?_eq_some.mpr ⟨rfl, unify_unify_ok a b hok⟩⟩, fun hstable => ?_,
    fun ha => unify_of_isExact_left ha hok⟩
  apply conform?_eq_some.mpr
  refine ⟨?_, hok⟩
  rcases hstable with hb | ha
  · exact unify_unify_of_unionFree a b hb hok
  · rw [unify_of_isExact_left ha hok, unify_of_isExact_left ha hok]

theorem reconforming_settles_on_tuple :
    (Ty.tuple [.any, .int]).conform? (.tuple [.int, .any]) = some (.tuple [.int, .int]) ∧
      (Ty.tuple [.int, .int]).conform? (.tuple [.int, .any]) = some (.tuple [.int, .int]) :=
  have h : (Ty.tuple [.any, .int]).conform? (.tuple [.int, .any]) = some (.tuple [.int, .int]) := by
    decide +kernel
  ⟨h, (reconforming_settles h).2.1 (Or.inl rfl)⟩

/-- Conforming twice to a union can narrow the type. Against
`union[tuple[list[int],list[union[int]]],tuple[list[union[int,string]],list[int]]]`, the type
`tuple[list[union[int,string]],list[union[int,string]]]` is refused by the first member (a
union of one member does not meet a union of two) and resolves through the second; what it
resolves to is then taken by the first member, which narrows it to `tuple[list[int],list[int]]`. -/
theorem reconforming_narrows_through_earlier_member :
    (Ty.tuple [.list (.union [.int, .string]), .list (.union [.int, .string])]).conform?
        (.union [.tuple [.list .int, .list (.union [.int])],
          .tuple [.list (.union [.int, .string]), .list .int]]) =
      some (.tuple [.list (.union [.int, .string]), .list .int]) ∧
    (Ty.tuple [.list (.union [.int, .string]), .list .int]).conform?
        (.union [.tuple [.list .int, .list (.union [.int])],
          .tuple [.list (.union [.int, .string]), .list .int]]) =
      some (.tuple [.list .int, .list .int]) := by
  decide +kernel

end Ty

end Retl
