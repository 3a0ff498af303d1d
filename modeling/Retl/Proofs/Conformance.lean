import Mathlib
import Retl.Types.Conformance
/-!
# Laws of conformance

The algebra of `Ty.unify` that every evaluation boundary relies on.

* Meeting is symmetric: `unify a b = unify b a`. The two one-sided union rules both
  search the union's members with the member first, so swapping the sides meets the
  same members in the same order.
* Meeting the expected type a second time keeps a resolved type resolved
  (`unify_unify_ok`): a value that conformed once conforms again to the same type.
* A resolved meeting keeps the outer form of a type that is neither `any`, a union nor
  `unknown` (`head_unify`): a list stays a list, a tuple or a function keeps its arity,
  and a scalar stays that scalar. This is why retyping a value never changes its kind.

All three go by recursion on the size of the two terms; the union cases recurse into a
member, which is smaller than its union.
-/

namespace Retl

namespace Ty

attribute [simp] hasUnknown anyUnknown

/-- `any` and unions: the two forms that meet another type through that type's own form
or through one of their members. -/
def IsOpen : Ty → Prop
  | .any | .union _ => True
  | _ => False

theorem isOpen_iff {t : Ty} : t.IsOpen ↔ t = .any ∨ ∃ ms, t = .union ms := by
  cases t <;> simp [IsOpen]

@[simp] theorem unify_self (a : Ty) : unify a a = a := by
  rw [unify.eq_def, if_pos rfl]

@[simp] theorem unify_any_left (e : Ty) : unify .any e = e := by
  rw [unify.eq_def]
  split <;> simp_all

@[simp] theorem unify_any_right (a : Ty) : unify a .any = a := by
  rw [unify.eq_def]
  split
  · rfl
  · cases a <;> simp_all

mutual

theorem unify_comm (a b : Ty) : unify a b = unify b a := by
  by_cases hab : a = b
  · rw [hab]
  rw [unify.eq_def, unify.eq_def, if_neg hab, if_neg (Ne.symm hab)]
  cases a <;> cases b <;> simp
  case list.list x y => exact unify_comm x y
  case tuple.tuple xs ys => rw [unifyPairwise_comm xs ys]
  case dict.dict k v k' v' => exact ⟨unify_comm k k', unify_comm v v'⟩
  case union.union ms ns => rw [unifyPairwise_comm ms ns]
  case func.func ps r qs s => rw [unifyPairwise_comm ps qs, unify_comm r s]
termination_by sizeOf a + sizeOf b
decreasing_by
  all_goals
    simp only [Ty.list.sizeOf_spec, Ty.tuple.sizeOf_spec, Ty.union.sizeOf_spec,
      Ty.dict.sizeOf_spec, Ty.func.sizeOf_spec]
    omega

theorem unifyPairwise_comm (as bs : List Ty) : unifyPairwise as bs = unifyPairwise bs as := by
  rw [unifyPairwise, unifyPairwise, unifyZip_comm as bs]
  congr 1
  simp only [Bool.or_eq_true, bne_iff_ne, ne_eq]
  grind
termination_by sizeOf as + sizeOf bs + 1
decreasing_by omega

theorem unifyZip_comm : ∀ (as bs : List Ty), unifyZip as bs = unifyZip bs as
  | a :: as, b :: bs => by
    rw [unifyZip, unifyZip, unify_comm a b, unifyZip_comm as bs]
  | [], [] | [], _ :: _ | _ :: _, [] => by simp [unifyZip]
termination_by as bs => sizeOf as + sizeOf bs
decreasing_by
  all_goals
    simp only [List.cons.sizeOf_spec]
    omega

end

theorem unify_unknown_right {a : Ty} (ha : ¬a.IsOpen) : unify a .unknown = a := by
  cases a <;> simp_all [IsOpen, unify]

theorem unify_unknown_left {e : Ty} (he : ¬e.IsOpen) : unify .unknown e = e := by
  rw [unify_comm, unify_unknown_right he]

theorem unify_union_right {a : Ty} (ha : ¬a.IsOpen) (ns : List Ty) :
    unify a (.union ns) = unifyMember ns a := by
  cases a <;> simp_all [IsOpen, unify]

theorem unify_union_left {e : Ty} (he : ¬e.IsOpen) (ms : List Ty) :
    unify (.union ms) e = unifyMember ms e := by
  cases e <;> simp_all [IsOpen, unify]

theorem unify_not_isOpen {a b : Ty} (ha : ¬a.IsOpen) (hb : ¬b.IsOpen) :
    ¬(unify a b).IsOpen := by
  rw [unify.eq_def]
  split
  · exact ha
  · split
    -- the arms for `any` and unions are ruled out by the hypotheses
    case h_1 | h_3 | h_4 => exact absurd trivial ha
    case h_2 | h_5 => exact absurd trivial hb
    -- an arm that meets `unknown` keeps the other side
    case h_10 => exact ha
    case h_11 => exact hb
    -- every other arm builds a fixed form or `unknown`
    case h_7 | h_9 => split <;> exact not_false
    all_goals exact not_false

theorem unifyMember_cons (m : Ty) (ms : List Ty) (o : Ty) :
    unifyMember (m :: ms) o =
      if (unify m o).hasUnknown then unifyMember ms o else unify m o := by
  rw [unifyMember]

@[simp] theorem unifyMember_nil (o : Ty) : unifyMember [] o = .unknown := by
  rw [unifyMember]

/-- A union meets a type through the first member that resolves against it. -/
theorem exists_mem_of_unifyMember {ms : List Ty} {o : Ty}
    (h : (unifyMember ms o).hasUnknown = false) :
    ∃ m ∈ ms, unify m o = unifyMember ms o ∧ (unify m o).hasUnknown = false := by
  induction ms with
  | nil => simp at h
  | cons m ms ih =>
    rw [unifyMember_cons] at h ⊢
    by_cases hm : (unify m o).hasUnknown
    · rw [if_pos hm] at h ⊢
      obtain ⟨m', hmem, heq, hok⟩ := ih h
      exact ⟨m', List.mem_cons_of_mem m hmem, heq, hok⟩
    · rw [if_neg hm]
      exact ⟨m, List.mem_cons_self, rfl, by simpa using hm⟩

theorem unifyMember_ok_of_mem {m : Ty} {ms : List Ty} {o : Ty} (hmem : m ∈ ms)
    (h : (unify m o).hasUnknown = false) : (unifyMember ms o).hasUnknown = false := by
  induction ms with
  | nil => simp at hmem
  | cons m' ms ih =>
    rw [unifyMember_cons]
    by_cases hm' : (unify m' o).hasUnknown
    · rw [if_pos hm']
      rcases List.mem_cons.mp hmem with rfl | hmem
      · simp [h] at hm'
      · exact ih hmem
    · rw [if_neg hm']
      simpa using hm'

/-- A resolved meeting with a type that is neither `any` nor a union is neither. -/
theorem unify_not_isOpen_right (n : Ty) {t : Ty} (ht : ¬t.IsOpen)
    (h : (unify n t).hasUnknown = false) : ¬(unify n t).IsOpen := by
  by_cases hn : n.IsOpen
  · rcases isOpen_iff.mp hn with hany | ⟨ms, hms⟩
    · subst hany
      simpa using ht
    · rw [hms, unify_union_left ht] at h ⊢
      obtain ⟨m, hmem, heq, hok⟩ := exists_mem_of_unifyMember h
      rw [← heq]
      exact unify_not_isOpen_right m ht hok
  · exact unify_not_isOpen hn ht
termination_by sizeOf n
decreasing_by
  have := List.sizeOf_lt_of_mem hmem
  subst hms
  simp
  omega

@[simp] theorem length_unifyZip (xs ys : List Ty) :
    (unifyZip xs ys).length = min xs.length ys.length := by
  induction xs generalizing ys with
  | nil => simp [unifyZip]
  | cons x xs ih =>
    cases ys with
    | nil => simp [unifyZip]
    | cons y ys => simp [unifyZip, ih, Nat.succ_min_succ]

theorem unifyPairwise_eq_some {xs ys us : List Ty} (h : unifyPairwise xs ys = some us) :
    us = unifyZip xs ys ∧ xs ≠ [] ∧ xs.length = ys.length := by
  rw [unifyPairwise] at h
  split at h
  · contradiction
  · simp_all

theorem unifyPairwise_of_length {xs ys : List Ty} (hne : xs ≠ []) (hlen : xs.length = ys.length) :
    unifyPairwise xs ys = some (unifyZip xs ys) := by
  rw [unifyPairwise, if_neg]
  have hne' : ys ≠ [] := by
    intro hys
    simp_all
  simp_all

/-- Members that resolved pairwise resolve pairwise again against the same list. -/
theorem unifyPairwise_again {xs ys us : List Ty} (h : unifyPairwise xs ys = some us) :
    unifyPairwise us ys = some (unifyZip us ys) := by
  obtain ⟨rfl, hne, hlen⟩ := unifyPairwise_eq_some h
  apply unifyPairwise_of_length
  · rw [← List.length_pos_iff] at hne ⊢
    simp [hlen] at hne ⊢
    omega
  · simp [hlen]

mutual

/-- Meeting the expected type again keeps a resolved type resolved. -/
theorem unify_unify_ok (t E : Ty) (h : (unify t E).hasUnknown = false) :
    (unify (unify t E) E).hasUnknown = false := by
  by_cases htE : t = E
  · subst htE
    simpa using h
  by_cases ht : t.IsOpen
  · rcases isOpen_iff.mp ht with hany | ⟨ms, hms⟩
    · subst hany
      simpa using h
    by_cases hE : E.IsOpen
    · rcases isOpen_iff.mp hE with hany | ⟨ns, hns⟩
      · subst hany
        simpa using h
      · -- two unions resolve member by member
        rw [hms, hns] at h ⊢
        rw [hms, hns] at htE
        rw [unify.eq_3, if_neg htE] at h ⊢
        cases hp : unifyPairwise ms ns with
        | none => simp [hp] at h
        | some us =>
          simp only [hp, hasUnknown] at h ⊢
          rw [unify.eq_3]
          split
          · simpa using h
          · obtain ⟨rfl, -, -⟩ := unifyPairwise_eq_some hp
            rw [unifyPairwise_again hp]
            simpa using unifyZip_unifyZip_ok ms ns h
    · rw [hms, unify_union_left hE] at h ⊢
      obtain ⟨m, hmem, heq, hok⟩ := exists_mem_of_unifyMember h
      rw [← heq]
      exact unify_unify_ok m E hok
  by_cases hE : E.IsOpen
  · rcases isOpen_iff.mp hE with hany | ⟨ns, hns⟩
    · subst hany
      simpa using h
    · -- the member that took `t` also takes what it made of `t`
      rw [hns, unify_union_right ht] at h ⊢
      obtain ⟨n, hmem, heq, hok⟩ := exists_mem_of_unifyMember h
      rw [← heq, unify_union_right (unify_not_isOpen_right n ht hok)]
      apply unifyMember_ok_of_mem hmem
      rw [unify_comm n (unify n t), unify_comm n t]
      rw [unify_comm] at hok
      exact unify_unify_ok t n hok
  by_cases hEu : E = .unknown
  · subst hEu
    rw [unify_unknown_right ht] at h ⊢
    rwa [unify_unknown_right ht]
  by_cases htu : t = .unknown
  · subst htu
    rw [unify_unknown_left hE] at h ⊢
    simpa using h
  rw [unify.eq_def t E, if_neg htE] at h ⊢
  cases t <;> cases E <;> simp only [IsOpen, not_true_eq_false] at ht hE htu hEu
  case list.list x y =>
    simp only [hasUnknown] at h ⊢
    rw [unify.eq_6]
    split
    · simpa using h
    · simpa using unify_unify_ok x y h
  case tuple.tuple xs ys =>
    cases hp : unifyPairwise xs ys with
    | none => simp [hp] at h
    | some us =>
      simp only [hp, hasUnknown] at h ⊢
      rw [unify.eq_7]
      split
      · simpa using h
      · obtain ⟨rfl, -, -⟩ := unifyPairwise_eq_some hp
        rw [unifyPairwise_again hp]
        simpa using unifyZip_unifyZip_ok xs ys h
  case dict.dict k v k' v' =>
    simp only [hasUnknown, Bool.or_eq_false_iff] at h ⊢
    rw [unify.eq_8]
    split
    · simpa using h
    · simp only [hasUnknown, Bool.or_eq_false_iff]
      exact ⟨unify_unify_ok k k' h.1, unify_unify_ok v v' h.2⟩
  case func.func ps r qs s =>
    cases hp : unifyPairwise ps qs with
    | none => simp [hp] at h
    | some us =>
      simp only [hp, hasUnknown, Bool.or_eq_false_iff] at h ⊢
      rw [unify.eq_9]
      split
      · simpa using h
      · obtain ⟨rfl, -, -⟩ := unifyPairwise_eq_some hp
        rw [unifyPairwise_again hp]
        simp only [hasUnknown, Bool.or_eq_false_iff]
        exact ⟨unifyZip_unifyZip_ok ps qs h.1, unify_unify_ok r s h.2⟩
  all_goals simp at h
termination_by sizeOf t + sizeOf E
decreasing_by
  all_goals
    subst_vars
    simp only [Ty.list.sizeOf_spec, Ty.tuple.sizeOf_spec, Ty.union.sizeOf_spec,
      Ty.dict.sizeOf_spec, Ty.func.sizeOf_spec]
    -- a union's member is smaller than the union
    first
      | omega
      | (have hlt := List.sizeOf_lt_of_mem ‹_ ∈ _›; omega)

theorem unifyZip_unifyZip_ok : ∀ (xs ys : List Ty), anyUnknown (unifyZip xs ys) = false →
    anyUnknown (unifyZip (unifyZip xs ys) ys) = false
  | x :: xs, y :: ys, h => by
    simp only [unifyZip, anyUnknown, Bool.or_eq_false_iff] at h ⊢
    exact ⟨unify_unify_ok x y h.1, unifyZip_unifyZip_ok xs ys h.2⟩
  | [], _, _ => by simp [unifyZip]
  | _ :: _, [], _ => by simp [unifyZip]
termination_by xs ys => sizeOf xs + sizeOf ys
decreasing_by
  all_goals
    simp only [List.cons.sizeOf_spec]
    omega

end

/-- The outer form of a type term: its constructor, with the arity of a tuple or a
function. -/
inductive Head where
  | int | bool | char | string | null | schema | unknown | any
  | list | tuple (arity : Nat) | dict | union | func (arity : Nat)
  deriving DecidableEq

/-- The outer form of a type term. -/
def head : Ty → Head
  | .int => .int
  | .bool => .bool
  | .char => .char
  | .string => .string
  | .null => .null
  | .schema => .schema
  | .unknown => .unknown
  | .any => .any
  | .list _ => .list
  | .tuple ts => .tuple ts.length
  | .dict _ _ => .dict
  | .union _ => .union
  | .func ps _ => .func ps.length

/-- A resolved meeting keeps the outer form of a type that is neither `any`, a union nor
`unknown`. -/
theorem head_unify {a : Ty} (ha : ¬a.IsOpen) (hu : a ≠ .unknown) (b : Ty)
    (h : (unify a b).hasUnknown = false) : (unify a b).head = a.head := by
  by_cases hab : a = b
  · subst hab
    simp
  by_cases hb : b.IsOpen
  · rcases isOpen_iff.mp hb with hany | ⟨ns, hns⟩
    · subst hany
      simp
    · rw [hns, unify_union_right ha] at h ⊢
      obtain ⟨n, hmem, heq, hok⟩ := exists_mem_of_unifyMember h
      rw [← heq, unify_comm]
      rw [unify_comm] at hok
      exact head_unify ha hu n hok
  by_cases hbu : b = .unknown
  · subst hbu
    rw [unify_unknown_right ha]
  rw [unify.eq_def a b, if_neg hab] at h ⊢
  cases a <;> cases b <;> simp only [IsOpen, ne_eq, not_true_eq_false] at ha hb hu hbu
  case tuple.tuple xs ys =>
    cases hp : unifyPairwise xs ys with
    | none => simp [hp] at h
    | some us =>
      obtain ⟨rfl, -, hlen⟩ := unifyPairwise_eq_some hp
      simp [hp, head, hlen]
  case func.func ps r qs s =>
    cases hp : unifyPairwise ps qs with
    | none => simp [hp] at h
    | some us =>
      obtain ⟨rfl, -, hlen⟩ := unifyPairwise_eq_some hp
      simp [hp, head, hlen]
  all_goals simp [head] at h ⊢
termination_by sizeOf b
decreasing_by
  all_goals
    subst_vars
    simp only [Ty.union.sizeOf_spec]
    -- a union's member is smaller than the union
    first
      | omega
      | (have hlt := List.sizeOf_lt_of_mem ‹_ ∈ _›; omega)

/-- Two types of fixed outer form meet only when the forms agree. -/
theorem head_eq_of_unify {a b : Ty} (ha : ¬a.IsOpen) (hau : a ≠ .unknown) (hb : ¬b.IsOpen)
    (hbu : b ≠ .unknown) (h : (unify a b).hasUnknown = false) : a.head = b.head := by
  have hleft := head_unify ha hau b h
  have hright := head_unify hb hbu a (by rwa [unify_comm])
  rw [unify_comm] at hright
  rw [← hleft, hright]

theorem conformsTo_iff {a b : Ty} : a.conformsTo b = true ↔ (unify a b).hasUnknown = false := by
  simp [conformsTo]

theorem conform?_eq_some {a b r : Ty} :
    a.conform? b = some r ↔ unify a b = r ∧ r.hasUnknown = false := by
  unfold conform?
  cases h : (unify a b).hasUnknown
  · simp only [h, Bool.false_eq_true, if_false, Option.some.injEq]
    constructor
    · rintro rfl
      exact ⟨rfl, h⟩
    · rintro ⟨rfl, -⟩
      rfl
  · simp only [h, if_true, reduceCtorEq, false_iff, not_and]
    rintro rfl
    simp [h]

/-- What conformance resolved conforms again to the same expected type. -/
theorem conformsTo_of_conform? {a b r : Ty} (h : a.conform? b = some r) : r.conformsTo b = true := by
  obtain ⟨rfl, hok⟩ := conform?_eq_some.mp h
  exact conformsTo_iff.mpr (unify_unify_ok a b hok)

/-- Conformance reads the same from either side. Two types meet in the same type whichever
of them is the value's, so each conforms to the other exactly when the other conforms to it,
and the checked form resolves to the same type, or fails and reports a mismatch, in the same
cases; only the order of the two types in the mismatch message differs. -/
theorem conformance_symmetric (a b : Ty) :
    unify a b = unify b a ∧ a.conformsTo b = b.conformsTo a ∧ a.conform? b = b.conform? a := by
  have hmeet := unify_comm a b
  refine ⟨hmeet, ?_, ?_⟩
  · simp only [conformsTo, hmeet]
  · simp only [conform?, hmeet]

end Ty

end Retl
