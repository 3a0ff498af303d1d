import Retl.Proofs.Reconformance
/-!
# Refinement of type terms

Conformance only ever makes a type more specific. `Ty.Refines x S` says that `x` is `S`
with some of its `any`s filled in and some of its unions settled on one of their
members, part by part:

* a resolved meeting refines the type it started from (`Ty.refines_unify`);
* refinement is transitive (`Ty.Refines.trans`), so a type conformed again and again
  still refines the type it started from;
* a refinement with nothing unknown in it conforms to what it refines
  (`Ty.Refines.conforms`).

A union is settled only on a member by a type that is itself neither `any` nor a union.
This is what makes refinement transitive: `union[int,string]` refines `any` and `any`
refines `union[any]`, yet `union[int,string]` does not meet `union[any]`, since two
unions meet member by member.

Evaluation gives a node a type that is a refinement of its static type, except where
the expected type takes over part of it: a list literal expecting a union for its
elements takes that union whole as its element type. `Ty.Narrowed E x S` collects the
types a node of static type `S` may have under the expected type `E`; they conform to
`S` (`Ty.Narrowed.conforms`) and stay such types when conformed to `E` once more
(`Ty.Narrowed.unify`).
-/

namespace Retl

namespace Ty

mutual

/-- `x` refines `S`: it is `S` with some `any`s filled in and some unions settled, part by
part. -/
inductive Refines : Ty → Ty → Prop
  | any (x : Ty) : Refines x .any
  | refl (x : Ty) : Refines x x
  | list {x s : Ty} : Refines x s → Refines (.list x) (.list s)
  | tuple {xs ss : List Ty} : RefinesAll xs ss → Refines (.tuple xs) (.tuple ss)
  | dict {k v k' v' : Ty} : Refines k k' → Refines v v' → Refines (.dict k v) (.dict k' v')
  | union {xs ss : List Ty} : RefinesAll xs ss → Refines (.union xs) (.union ss)
  | func {ps qs : List Ty} {r s : Ty} : ps ≠ [] → RefinesAll ps qs → Refines r s →
      Refines (.func ps r) (.func qs s)
  | member {x m : Ty} {ms : List Ty} : ¬x.IsOpen → m ∈ ms → Refines x m →
      Refines x (.union ms)

/-- Refinement member by member. -/
inductive RefinesAll : List Ty → List Ty → Prop
  | nil : RefinesAll [] []
  | cons {x s : Ty} {xs ss : List Ty} : Refines x s → RefinesAll xs ss →
      RefinesAll (x :: xs) (s :: ss)

end

theorem RefinesAll.length_eq : ∀ {xs ss : List Ty}, RefinesAll xs ss → xs.length = ss.length
  | _, _, .nil => rfl
  | _, _, .cons _ hs => by simp [hs.length_eq]

theorem RefinesAll.ne_nil {xs ss : List Ty} (h : RefinesAll xs ss) (hne : xs ≠ ss) :
    xs ≠ [] := by
  rintro rfl
  cases h
  exact hne rfl

mutual

/-- A refinement with nothing unknown in it conforms to what it refines. -/
theorem Refines.conforms {x S : Ty} (h : Refines x S) (hx : x.hasUnknown = false) :
    (unify x S).hasUnknown = false := by
  cases h with
  | any => simpa using hx
  | refl => simpa using hx
  | list h => simpa [unify_list] using h.conforms (by simpa using hx)
  | dict hk hv =>
    simp only [unify_dict, hasUnknown, Bool.or_eq_false_iff] at hx ⊢
    exact ⟨hk.conforms hx.1, hv.conforms hx.2⟩
  | tuple hs =>
    rw [unify.eq_7]
    split
    · exact hx
    next hne =>
      rw [unifyPairwise_of_length (hs.ne_nil (by simpa using hne)) hs.length_eq]
      simpa using hs.conforms (by simpa using hx)
  | union hs =>
    rw [unify.eq_3]
    split
    · exact hx
    next hne =>
      rw [unifyPairwise_of_length (hs.ne_nil (by simpa using hne)) hs.length_eq]
      simpa using hs.conforms (by simpa using hx)
  | func hne hs hr =>
    rw [unify.eq_9]
    split
    · exact hx
    · rw [unifyPairwise_of_length hne hs.length_eq]
      simp only [hasUnknown, Bool.or_eq_false_iff] at hx ⊢
      exact ⟨hs.conforms hx.1, hr.conforms hx.2⟩
  | member hopen hm h =>
    -- the settled member is one the union's search can take
    rw [unify_union_right hopen]
    exact unifyMember_ok_of_mem hm (by rw [unify_comm]; exact h.conforms hx)
termination_by sizeOf S
decreasing_by
  all_goals
    subst_vars
    simp only [Ty.list.sizeOf_spec, Ty.tuple.sizeOf_spec, Ty.union.sizeOf_spec,
      Ty.dict.sizeOf_spec, Ty.func.sizeOf_spec]
    -- a union's member is smaller than the union
    first
      | omega
      | (have hlt := List.sizeOf_lt_of_mem ‹_ ∈ _›; omega)

theorem RefinesAll.conforms {xs ss : List Ty} (h : RefinesAll xs ss)
    (hx : anyUnknown xs = false) : anyUnknown (unifyZip xs ss) = false := by
  cases h with
  | nil => simp [unifyZip]
  | cons h hs =>
    simp only [anyUnknown, Bool.or_eq_false_iff, unifyZip] at hx ⊢
    exact ⟨h.conforms hx.1, hs.conforms hx.2⟩
termination_by sizeOf ss
decreasing_by
  all_goals
    subst_vars
    simp only [List.cons.sizeOf_spec]
    omega

end

theorem hasUnknown_of_mem_union {m : Ty} {ms : List Ty} (hm : m ∈ ms)
    (h : (Ty.union ms).hasUnknown = false) : m.hasUnknown = false := by
  simp only [hasUnknown] at h
  induction ms with
  | nil => simp at hm
  | cons m' ms ih =>
    simp only [anyUnknown, Bool.or_eq_false_iff] at h
    rcases List.mem_cons.mp hm with rfl | hm
    · exact h.1
    · exact ih hm h.2

mutual

/-- A resolved meeting refines the type it started from. -/
theorem refines_unify (a E : Ty) (ha : a.hasUnknown = false)
    (h : (unify a E).hasUnknown = false) : Refines (unify a E) a := by
  by_cases haE : a = E
  · subst haE
    rw [unify_self]
    exact .refl a
  by_cases hao : a.IsOpen
  · rcases isOpen_iff.mp hao with rfl | ⟨ms, rfl⟩
    · rw [unify_any_left]
      exact .any E
    by_cases hEo : E.IsOpen
    · rcases isOpen_iff.mp hEo with rfl | ⟨ns, rfl⟩
      · rw [unify_any_right]
        exact .refl _
      · -- two unions meet member by member
        rw [unify.eq_3, if_neg haE] at h ⊢
        cases hp : unifyPairwise ms ns with
        | none => simp [hp] at h
        | some us =>
          simp only [hp, hasUnknown] at h ⊢
          obtain ⟨rfl, -, hlen⟩ := unifyPairwise_eq_some hp
          exact .union (refinesAll_unifyZip ms ns (by simpa using ha) h hlen)
    · -- a union meets a type of fixed form through one of its members
      rw [unify_union_left hEo] at h ⊢
      obtain ⟨m, hmem, heq, hok⟩ := exists_mem_of_unifyMember h
      rw [← heq]
      exact .member (unify_not_isOpen_right m hEo hok) hmem
        (refines_unify m E (hasUnknown_of_mem_union hmem ha) hok)
  by_cases hEo : E.IsOpen
  · rcases isOpen_iff.mp hEo with rfl | ⟨ns, rfl⟩
    · rw [unify_any_right]
      exact .refl a
    · -- the member of the expected union that takes `a` refines it
      rw [unify_union_right hao] at h ⊢
      obtain ⟨n, hmem, heq, hok⟩ := exists_mem_of_unifyMember h
      rw [← heq, unify_comm]
      rw [unify_comm] at hok
      exact refines_unify a n ha hok
  by_cases hEu : E = .unknown
  · subst hEu
    rw [unify_unknown_right hao]
    exact .refl a
  cases a <;> cases E <;> simp only [IsOpen, not_true_eq_false] at hao hEo hEu
  case list.list x y =>
    simp only [unify_list, hasUnknown] at h ha ⊢
    exact .list (refines_unify x y ha h)
  case tuple.tuple xs ys =>
    rw [unify.eq_7, if_neg haE] at h ⊢
    cases hp : unifyPairwise xs ys with
    | none => simp [hp] at h
    | some us =>
      simp only [hp, hasUnknown] at h ha ⊢
      obtain ⟨rfl, -, hlen⟩ := unifyPairwise_eq_some hp
      exact .tuple (refinesAll_unifyZip xs ys ha h hlen)
  case dict.dict k v k' v' =>
    simp only [unify_dict, hasUnknown, Bool.or_eq_false_iff] at h ha ⊢
    exact .dict (refines_unify k k' ha.1 h.1) (refines_unify v v' ha.2 h.2)
  case func.func ps r qs s =>
    rw [unify.eq_9, if_neg haE] at h ⊢
    cases hp : unifyPairwise ps qs with
    | none => simp [hp] at h
    | some us =>
      simp only [hp, hasUnknown, Bool.or_eq_false_iff] at h ha ⊢
      obtain ⟨rfl, hne, hlen⟩ := unifyPairwise_eq_some hp
      have hne' : unifyZip ps qs ≠ [] := List.ne_nil_of_length_pos (by
        rw [length_unifyZip, ← hlen, Nat.min_self]
        exact List.length_pos_iff.mpr hne)
      exact .func hne' (refinesAll_unifyZip ps qs ha.1 h.1 hlen) (refines_unify r s ha.2 h.2)
  all_goals
    rw [unify.eq_def, if_neg haE] at h
    simp at h ha
termination_by sizeOf a + sizeOf E
decreasing_by
  all_goals
    subst_vars
    simp only [Ty.list.sizeOf_spec, Ty.tuple.sizeOf_spec, Ty.union.sizeOf_spec,
      Ty.dict.sizeOf_spec, Ty.func.sizeOf_spec]
    -- a union's member is smaller than the union
    first
      | omega
      | (have hlt := List.sizeOf_lt_of_mem ‹_ ∈ _›; omega)

theorem refinesAll_unifyZip : ∀ (xs ys : List Ty), anyUnknown xs = false →
    anyUnknown (unifyZip xs ys) = false → xs.length = ys.length →
    RefinesAll (unifyZip xs ys) xs
  | x :: xs, y :: ys, hx, h, hlen => by
    simp only [unifyZip, anyUnknown, Bool.or_eq_false_iff] at hx h ⊢
    exact .cons (refines_unify x y hx.1 h.1)
      (refinesAll_unifyZip xs ys hx.2 h.2 (by simpa using hlen))
  | [], [], _, _, _ => by simpa [unifyZip] using RefinesAll.nil
  | [], _ :: _, _, _, hlen | _ :: _, [], _, _, hlen => by simp at hlen
termination_by xs ys => sizeOf xs + sizeOf ys
decreasing_by
  all_goals
    simp only [List.cons.sizeOf_spec]
    omega

end

/-- A refinement of a type that is neither `any` nor a union is neither. -/
theorem Refines.not_isOpen {x y : Ty} (h : Refines x y) (hy : ¬y.IsOpen) : ¬x.IsOpen := by
  cases h with
  | any | union _ | member _ _ _ => exact absurd trivial hy
  | refl => exact hy
  | list _ | tuple _ | dict _ _ | func _ _ _ => simp [IsOpen]

mutual

theorem Refines.trans {x y z : Ty} (h₁ : Refines x y) (h₂ : Refines y z) : Refines x z := by
  cases h₂ with
  | any => exact .any x
  | refl => exact h₁
  | list h₂ =>
    cases h₁ with
    | refl => exact .list h₂
    | list h₁ => exact .list (h₁.trans h₂)
  | tuple hs₂ =>
    cases h₁ with
    | refl => exact .tuple hs₂
    | tuple hs₁ => exact .tuple (hs₁.trans hs₂)
  | dict hk₂ hv₂ =>
    cases h₁ with
    | refl => exact .dict hk₂ hv₂
    | dict hk₁ hv₁ => exact .dict (hk₁.trans hk₂) (hv₁.trans hv₂)
  | func hne₂ hs₂ hr₂ =>
    cases h₁ with
    | refl => exact .func hne₂ hs₂ hr₂
    | func hne₁ hs₁ hr₁ => exact .func hne₁ (hs₁.trans hs₂) (hr₁.trans hr₂)
  | union hs₂ =>
    cases h₁ with
    | refl => exact .union hs₂
    | union hs₁ => exact .union (hs₁.trans hs₂)
    | member hx hm h₁ =>
      -- the member `x` settled on is refined by a member of the wider union
      obtain ⟨z, hz, hxz⟩ := hs₂.trans_mem hm h₁
      exact .member hx hz hxz
  | member hy hm h₂ => exact .member (h₁.not_isOpen hy) hm (h₁.trans h₂)
termination_by sizeOf z
decreasing_by
  all_goals
    subst_vars
    simp only [Ty.list.sizeOf_spec, Ty.tuple.sizeOf_spec, Ty.union.sizeOf_spec,
      Ty.dict.sizeOf_spec, Ty.func.sizeOf_spec]
    -- a union's member is smaller than the union
    first
      | omega
      | (have hlt := List.sizeOf_lt_of_mem ‹_ ∈ _›; omega)

theorem RefinesAll.trans {xs ys zs : List Ty} (h₁ : RefinesAll xs ys) (h₂ : RefinesAll ys zs) :
    RefinesAll xs zs := by
  cases h₂ with
  | nil => exact h₁
  | cons h₂ hs₂ =>
    cases h₁ with
    | cons h₁ hs₁ => exact .cons (h₁.trans h₂) (hs₁.trans hs₂)
termination_by sizeOf zs
decreasing_by
  all_goals
    subst_vars
    simp only [List.cons.sizeOf_spec]
    omega

theorem RefinesAll.trans_mem {ys zs : List Ty} (h₂ : RefinesAll ys zs) {x m : Ty} (hm : m ∈ ys)
    (h₁ : Refines x m) : ∃ z ∈ zs, Refines x z := by
  cases h₂ with
  | nil => simp at hm
  | cons hmz hs₂ =>
    rcases List.mem_cons.mp hm with rfl | hm
    · exact ⟨_, List.mem_cons_self, h₁.trans hmz⟩
    · obtain ⟨z, hz, hxz⟩ := hs₂.trans_mem hm h₁
      exact ⟨z, List.mem_cons_of_mem _ hz, hxz⟩
termination_by sizeOf zs
decreasing_by
  all_goals
    subst_vars
    simp only [List.cons.sizeOf_spec]
    omega

end

/-- Conforming a refinement again keeps it a refinement. -/
theorem Refines.unify {x S E : Ty} (h : Refines x S) (hx : x.hasUnknown = false)
    (hxE : (x.unify E).hasUnknown = false) : Refines (x.unify E) S :=
  (refines_unify x E hx hxE).trans h

mutual

/-- The types evaluation may give a node whose static type is `S` under the expected type
`E`: a refinement of `S`; or, where `E` is a list or a tuple type and so is `S`, such types
part by part; or an expected union taken whole, when `S` conforms to it. -/
inductive Narrowed : Ty → Ty → Ty → Prop
  | refines {E x S : Ty} : Refines x S → Narrowed E x S
  | list {e x s : Ty} : Narrowed e x s → Narrowed (.list e) (.list x) (.list s)
  | tuple {es xs ss : List Ty} : NarrowedAll es xs ss →
      Narrowed (.tuple es) (.tuple xs) (.tuple ss)
  | union {ms : List Ty} {S : Ty} : (unify S (.union ms)).hasUnknown = false →
      Narrowed (.union ms) (.union ms) S

/-- `Narrowed` member by member. -/
inductive NarrowedAll : List Ty → List Ty → List Ty → Prop
  | nil : NarrowedAll [] [] []
  | cons {e x s : Ty} {es xs ss : List Ty} : Narrowed e x s → NarrowedAll es xs ss →
      NarrowedAll (e :: es) (x :: xs) (s :: ss)

end

theorem NarrowedAll.length_eq : ∀ {es xs ss : List Ty}, NarrowedAll es xs ss →
    xs.length = ss.length ∧ xs.length = es.length
  | _, _, _, .nil => ⟨rfl, rfl⟩
  | _, _, _, .cons _ hs => ⟨by simp [hs.length_eq.1], by simp [hs.length_eq.2]⟩

theorem NarrowedAll.ne_nil {es xs ss : List Ty} (h : NarrowedAll es xs ss) (hne : xs ≠ ss) :
    xs ≠ [] := by
  rintro rfl
  cases h
  exact hne rfl

theorem NarrowedAll.ne_nil_right {es xs ss : List Ty} (h : NarrowedAll es xs ss)
    (hne : xs ≠ es) : xs ≠ [] := by
  rintro rfl
  cases h
  exact hne rfl

mutual

/-- What evaluation may give a node conforms to the node's static type. -/
theorem Narrowed.conforms {E x S : Ty} (h : Narrowed E x S) (hx : x.hasUnknown = false) :
    (unify x S).hasUnknown = false := by
  cases h with
  | refines h => exact h.conforms hx
  | list h => simpa [unify_list] using h.conforms (by simpa using hx)
  | tuple hs =>
    rw [unify.eq_7]
    split
    · exact hx
    next hne =>
      rw [unifyPairwise_of_length (hs.ne_nil (by simpa using hne)) hs.length_eq.1]
      simpa using hs.conforms (by simpa using hx)
  | union hS => rwa [unify_comm]
termination_by sizeOf S
decreasing_by
  all_goals
    subst_vars
    simp only [Ty.list.sizeOf_spec, Ty.tuple.sizeOf_spec]
    omega

theorem NarrowedAll.conforms {es xs ss : List Ty} (h : NarrowedAll es xs ss)
    (hx : anyUnknown xs = false) : anyUnknown (unifyZip xs ss) = false := by
  cases h with
  | nil => simp [unifyZip]
  | cons h hs =>
    simp only [anyUnknown, Bool.or_eq_false_iff, unifyZip] at hx ⊢
    exact ⟨h.conforms hx.1, hs.conforms hx.2⟩
termination_by sizeOf ss
decreasing_by
  all_goals
    subst_vars
    simp only [List.cons.sizeOf_spec]
    omega

end

mutual

/-- Conforming to the expected type once more keeps a type among those evaluation may give
the node. -/
theorem Narrowed.unify {E x S : Ty} (h : Narrowed E x S) (hx : x.hasUnknown = false)
    (hxE : (x.unify E).hasUnknown = false) : Narrowed E (x.unify E) S := by
  cases h with
  | refines h => exact .refines (h.unify hx hxE)
  | list h =>
    simp only [unify_list, hasUnknown] at hx hxE ⊢
    exact .list (h.unify hx hxE)
  | tuple hs =>
    rw [unify.eq_7] at hxE ⊢
    split
    · exact .tuple hs
    next hne =>
      rw [if_neg hne] at hxE
      have hp := unifyPairwise_of_length (hs.ne_nil_right (by simpa using hne)) hs.length_eq.2
      rw [hp] at hxE ⊢
      exact .tuple (hs.unify (by simpa using hx) (by simpa using hxE))
  | union hS =>
    rw [unify_self]
    exact .union hS
termination_by sizeOf S
decreasing_by
  all_goals
    subst_vars
    simp only [Ty.list.sizeOf_spec, Ty.tuple.sizeOf_spec]
    omega

theorem NarrowedAll.unify {es xs ss : List Ty} (h : NarrowedAll es xs ss)
    (hx : anyUnknown xs = false) (hxE : anyUnknown (unifyZip xs es) = false) :
    NarrowedAll es (unifyZip xs es) ss := by
  cases h with
  | nil => simpa [unifyZip] using NarrowedAll.nil
  | cons h hs =>
    simp only [anyUnknown, Bool.or_eq_false_iff, unifyZip] at hx hxE ⊢
    exact .cons (h.unify hx.1 hxE.1) (hs.unify hx.2 hxE.2)
termination_by sizeOf ss
decreasing_by
  all_goals
    subst_vars
    simp only [List.cons.sizeOf_spec]
    omega

end

end Ty

end Retl
