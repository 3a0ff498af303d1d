import Retl.Proofs.Simulation
/-!
# Builtins run alike on agreeing arguments

A builtin looks at its arguments only through what erasure keeps: their kinds, types,
scalars and elements. The higher-order builtins call their function through the engine,
so they run alike when the two engines do (`EngineSame`). Every builtin, on agreeing
arguments and through agreeing engines, runs alike (`Builtins.run_same`); the position it
reports at may differ.
-/

namespace Retl

open Eval

/-- Two engines run alike: they evaluate agreeing expressions in agreeing scopes, and call
agreeing functions on agreeing arguments, alike. -/
structure EngineSame (k₁ k₂ : Engine) : Prop where
  eval : ∀ p env₁ env₂ t e₁ e₂, Env.Same env₁ env₂ → Expr.Same e₁ e₂ →
    Sim p (k₁.eval env₁ t e₁) (k₂.eval env₂ t e₂) Value.Same
  call : ∀ p f₁ f₂ args₁ args₂ pos₁ pos₂, Value.Same f₁ f₂ →
    List.Forall₂ Value.Same args₁ args₂ →
    Sim p (k₁.call f₁ args₁ pos₁) (k₂.call f₂ args₂ pos₂) Value.Same

/-- Erasure keeps a function's parameters and result type. -/
theorem Builtins.signature?_erase (v : Value) :
    Builtins.signature? v.erase = Builtins.signature? v := by
  cases v <;> rfl

namespace Value.Same

variable {v₁ v₂ : Value}

/-- The elements of a list or table, on agreeing values, agree. -/
def ListSame (a b : List Value × Ty) : Prop := List.Forall₂ Value.Same a.1 b.1 ∧ a.2 = b.2

theorem asList? (h : Value.Same v₁ v₂) : Option.Rel ListSame v₁.asList? v₂.asList? := by
  have he := congrArg Value.asList? h.erase
  rw [asList?_erase, asList?_erase] at he
  cases h₁ : v₁.asList? with
  | none =>
    rw [h₁, Option.map_none] at he
    rw [Option.map_eq_none_iff.mp he.symm]
    exact .none
  | some a =>
    rw [h₁, Option.map_some] at he
    obtain ⟨b, h₂, hab⟩ := Option.map_eq_some_iff.mp he.symm
    rw [h₂]
    simp only [Prod.mk.injEq] at hab
    exact .some ⟨forall₂_same_iff.mpr ⟨hab.1.symm, tidy_of_asList? h₁ h.tidy⟩, hab.2.symm⟩

theorem items? (h : Value.Same v₁ v₂) :
    Option.Rel (List.Forall₂ Value.Same) v₁.items? v₂.items? := by
  have he := congrArg Value.items? h.erase
  rw [items?_erase, items?_erase] at he
  cases h₁ : v₁.items? with
  | none =>
    rw [h₁, Option.map_none] at he
    rw [Option.map_eq_none_iff.mp he.symm]
    exact .none
  | some a =>
    rw [h₁, Option.map_some] at he
    obtain ⟨b, h₂, hab⟩ := Option.map_eq_some_iff.mp he.symm
    rw [h₂]
    exact .some (forall₂_same_iff.mpr ⟨hab.symm, tidy_of_items? h₁ h.tidy⟩)

theorem signature?_eq (h : Value.Same v₁ v₂) : Builtins.signature? v₁ = Builtins.signature? v₂ := by
  rw [← Builtins.signature?_erase, h.erase, Builtins.signature?_erase]

theorem requires_eq (h : Value.Same v₁ v₂) (fn param expected : String) :
    Builtins.requires fn param expected v₁ = Builtins.requires fn param expected v₂ := by
  simp only [Builtins.requires, h.type_eq]

end Value.Same

namespace Builtins

variable {p : String} {k₁ k₂ : Engine}

theorem map_same (hk : EngineSame k₁ k₂) {f₁ f₂ xs₁ xs₂ : Value} (hf : Value.Same f₁ f₂)
    (hxs : Value.Same xs₁ xs₂) (pos₁ pos₂ : Position) :
    Sim p (Builtins.map k₁ f₁ xs₁ pos₁) (Builtins.map k₂ f₂ xs₂ pos₂) Value.Same := by
  unfold Builtins.map
  have hl := hxs.asList?
  generalize xs₁.asList? = l₁ at hl ⊢
  generalize xs₂.asList? = l₂ at hl ⊢
  cases hl with
  | none => exact Sim.fail_eq (hxs.requires_eq _ _ _) _ _
  | some hab =>
  obtain ⟨hitems, -⟩ := hab
  dsimp only
  rw [hf.signature?_eq]
  cases signature? f₂ with
  | none => exact Sim.fail_eq (hf.requires_eq _ _ _) _ _
  | some sig =>
  dsimp only
  refine (Sim.forIn hitems (fun s₁ s₂ => Option.Rel Value.Same s₁.1 s₂.1 ∧
    List.Forall₂ Value.Same s₁.2.toList s₂.2.toList) ⟨.none, .nil⟩ ?_).bind ?_
  · rintro x y hxy ⟨r₁, out₁⟩ ⟨r₂, out₂⟩ ⟨-, hout⟩
    refine (hk.call p f₁ f₂ [x] [y] pos₁ pos₂ hf (.cons hxy .nil)).bind fun r₁ r₂ hr => ?_
    rw [hr.isError_eq]
    refine Sim.ite (Sim.pure ⟨.some hr, hout⟩) (Sim.pure ⟨.none, ?_⟩)
    simpa using List.rel_append hout (.cons hr .nil)
  · rintro ⟨r₁, out₁⟩ ⟨r₂, out₂⟩ ⟨hr, hout⟩
    dsimp only
    cases hr with
    | none => exact Sim.pure (Value.Same.listOf hout _)
    | some hr => exact Sim.pure hr

theorem filter_same (hk : EngineSame k₁ k₂) {f₁ f₂ xs₁ xs₂ : Value} (hf : Value.Same f₁ f₂)
    (hxs : Value.Same xs₁ xs₂) (pos₁ pos₂ : Position) :
    Sim p (Builtins.filter k₁ f₁ xs₁ pos₁) (Builtins.filter k₂ f₂ xs₂ pos₂) Value.Same := by
  unfold Builtins.filter
  rw [hf.signature?_eq]
  cases signature? f₂ with
  | none => exact Sim.fail_eq (hf.requires_eq _ _ _) _ _
  | some sig =>
  dsimp only
  refine Sim.ite (Sim.fail _ _ _) ?_
  have hl := hxs.asList?
  generalize xs₁.asList? = l₁ at hl ⊢
  generalize xs₂.asList? = l₂ at hl ⊢
  cases hl with
  | none => exact Sim.fail_eq (hxs.requires_eq _ _ _) _ _
  | some hab =>
  obtain ⟨hitems, ht⟩ := hab
  dsimp only
  rw [ht]
  refine (Sim.forIn hitems (fun s₁ s₂ => Option.Rel Value.Same s₁.1 s₂.1 ∧
    List.Forall₂ Value.Same s₁.2.toList s₂.2.toList) ⟨.none, .nil⟩ ?_).bind ?_
  · rintro x y hxy ⟨r₁, kept₁⟩ ⟨r₂, kept₂⟩ ⟨-, hkept⟩
    refine (hk.call p f₁ f₂ [x] [y] pos₁ pos₂ hf (.cons hxy .nil)).bind fun r₁ r₂ hr => ?_
    rw [hr.isError_eq]
    refine Sim.ite (Sim.pure ⟨.some hr, hkept⟩) ?_
    have he := hr.erase
    cases r₁ with
    | bool b =>
      obtain rfl := Value.erase_eq_bool.mp he.symm
      cases b
      · exact Sim.pure ⟨.none, hkept⟩
      · exact Sim.pure ⟨.none, by simpa using List.rel_append hkept (.cons hxy .nil)⟩
    | _ =>
      split <;> split <;> first
        | exact (Sim.fail_eq (hr.requires_eq _ _ _) _ _).bind fun a b hab =>
            Sim.pure ⟨.some hab, hkept⟩
        | contradiction
  · rintro ⟨r₁, kept₁⟩ ⟨r₂, kept₂⟩ ⟨hr, hkept⟩
    dsimp only
    cases hr with
    | none => exact Sim.pure (Value.Same.listOf hkept _)
    | some hr => exact Sim.pure hr

theorem fold_same (hk : EngineSame k₁ k₂) (name : String) (fromRight : Bool)
    {init₁ init₂ xs₁ xs₂ f₁ f₂ : Value} (hinit : Value.Same init₁ init₂)
    (hxs : Value.Same xs₁ xs₂) (hf : Value.Same f₁ f₂) (pos₁ pos₂ : Position) :
    Sim p (Builtins.fold k₁ name fromRight init₁ xs₁ f₁ pos₁)
      (Builtins.fold k₂ name fromRight init₂ xs₂ f₂ pos₂) Value.Same := by
  unfold Builtins.fold
  have hl := hxs.asList?
  generalize xs₁.asList? = l₁ at hl ⊢
  generalize xs₂.asList? = l₂ at hl ⊢
  cases hl with
  | none => exact Sim.fail_eq (hxs.requires_eq _ _ _) _ _
  | @some a b hab =>
  obtain ⟨hitems, ht⟩ := hab
  dsimp only
  rw [hf.signature?_eq]
  cases signature? f₂ with
  | none => exact Sim.fail_eq (hf.requires_eq _ _ _) _ _
  | some sig =>
  dsimp only
  rw [ht, hinit.type_eq, hf.type_eq]
  refine Sim.ite (Sim.fail _ _ _) (Sim.ite (Sim.fail _ _ _) ?_)
  have hitems' : List.Forall₂ Value.Same (if fromRight = true then a.1.reverse else a.1)
      (if fromRight = true then b.1.reverse else b.1) := by
    split
    · exact List.forall₂_reverse_iff.mpr hitems
    · exact hitems
  refine (Sim.forIn hitems' (fun s₁ s₂ => Option.Rel Value.Same s₁.1 s₂.1 ∧
    Value.Same s₁.2 s₂.2) ⟨.none, hinit⟩ ?_).bind ?_
  · rintro x y hxy ⟨r₁, acc₁⟩ ⟨r₂, acc₂⟩ ⟨-, hacc⟩
    have hcall : ∀ x' y', Value.Same x' y' → Sim p
        (do
          let acc ← k₁.call f₁ [acc₁, x'] pos₁
          if acc.isError = true then pure (ForInStep.done (some acc, acc))
          else pure (ForInStep.yield (none, acc)))
        (do
          let acc ← k₂.call f₂ [acc₂, y'] pos₂
          if acc.isError = true then pure (ForInStep.done (some acc, acc))
          else pure (ForInStep.yield (none, acc)))
        (StepSame fun s₁ s₂ => Option.Rel Value.Same s₁.1 s₂.1 ∧ Value.Same s₁.2 s₂.2) := by
      intro x' y' hxy'
      refine (hk.call p f₁ f₂ _ _ pos₁ pos₂ hf (.cons hacc (.cons hxy' .nil))).bind
        fun a₁ a₂ ha => ?_
      rw [ha.isError_eq]
      exact Sim.ite (Sim.pure ⟨.some ha, ha⟩) (Sim.pure ⟨.none, ha⟩)
    have he := hxy.erase
    dsimp only
    split <;> split
    all_goals first
      | exact hcall _ _ hxy
      | (simp only [Value.erase, Value.char.injEq] at he
         subst he
         exact hcall _ _ (Value.Same.refl rfl))
      | (have hc := Value.erase_eq_char.mp (by simpa only [Value.erase] using he.symm)
         simp_all)
      | (have hc := Value.erase_eq_char.mp (by simpa only [Value.erase] using he)
         simp_all)
  · rintro ⟨r₁, acc₁⟩ ⟨r₂, acc₂⟩ ⟨hr, hacc⟩
    dsimp only
    cases hr with
    | none => exact Sim.pure hacc
    | some hr => exact Sim.pure hr

theorem zip_same {xs₁ xs₂ ys₁ ys₂ : Value} (hxs : Value.Same xs₁ xs₂) (hys : Value.Same ys₁ ys₂)
    (pos₁ pos₂ : Position) :
    Sim p (Builtins.zip xs₁ ys₁ pos₁) (Builtins.zip xs₂ ys₂ pos₂) Value.Same := by
  unfold Builtins.zip
  have hl := hxs.asList?
  generalize xs₁.asList? = l₁ at hl ⊢
  generalize xs₂.asList? = l₂ at hl ⊢
  cases hl with
  | none => exact Sim.fail_eq (hxs.requires_eq _ _ _) _ _
  | some hab =>
  obtain ⟨has, hta⟩ := hab
  have hl' := hys.asList?
  generalize ys₁.asList? = l₁' at hl' ⊢
  generalize ys₂.asList? = l₂' at hl' ⊢
  cases hl' with
  | none => exact Sim.fail_eq (hys.requires_eq _ _ _) _ _
  | some hab' =>
  obtain ⟨hbs, htb⟩ := hab'
  dsimp only
  rw [hta, htb, has.length_eq, hbs.length_eq]
  refine Sim.ite ((Sim.fail _ _ _).bind fun _ _ _ => Sim.pure (Value.Same.listOf .nil _))
    (Sim.pure (Value.Same.listOf ?_ _))
  refine List.forall₂_map_left_iff.mpr (List.forall₂_map_right_iff.mpr ?_)
  exact (forall₂_zip_zip has hbs).imp fun a b hab => Value.Same.tupleOf (.cons hab.1 (.cons hab.2 .nil))

theorem tidy_of_fieldValue {text : String} {t : Ty} {v : Value}
    (h : fieldValue text t = .ok (some v)) : v.tidy = true := by
  cases t <;> simp only [fieldValue] at h
  case int =>
    split at h
    next n =>
      simp only [pure, Except.pure, Except.ok.injEq] at h
      split at h <;> cases h
      rfl
    all_goals cases h
  case bool =>
    simp only [pure, Except.pure, Except.ok.injEq] at h
    split at h
    · cases h; rfl
    · split at h <;> cases h; rfl
  case char =>
    split at h <;> cases h
    rfl
  case string | any =>
    cases h
    rfl
  case null =>
    simp only [pure, Except.pure, Except.ok.injEq] at h
    split at h <;> cases h
    rfl
  -- every other column type reads no value
  all_goals cases h

/-- Both sides' rows are the same and hold no function. -/
def RowsSame (s₁ s₂ : Array Value) : Prop := s₁ = s₂ ∧ s₁.toList.all Value.tidy = true

theorem readCSV_same (path : String) (columns : List (String × Ty)) (header : Bool)
    (pos₁ pos₂ : Position) :
    Sim p (readCSV path columns header pos₁) (readCSV path columns header pos₂) Value.Same := by
  unfold readCSV
  refine Sim.get.bind fun m₁ m₂ hm => ?_
  dsimp only
  rw [hm.files]
  cases m₂.files.read path with
  | error e =>
    cases e
    case nullCharacter => exact Sim.throw _
    all_goals exact Sim.fail _ _ _
  | ok bytes =>
  refine (Sim.pure (R := Eq) rfl).bind fun b₁ b₂ hb => ?_
  subst hb
  cases Utf8.decodeStream b₁ with
  | error e => exact Sim.throw_bind _
  | ok text =>
  refine (Sim.pure (R := Eq) rfl).bind fun t₁ t₂ ht => ?_
  subst ht
  cases Csv.read t₁ with
  | none => exact Sim.throw _
  | some records =>
  dsimp only
  refine (Sim.forIn (List.forall₂_same.mpr fun _ _ => rfl) RowsSame ⟨rfl, rfl⟩ ?_).bind
    fun r₁ r₂ hr => Sim.pure ?_
  · rintro x _ rfl s₁ s₂ ⟨rfl, hs⟩
    obtain ⟨raw, index⟩ := x
    dsimp only
    refine Sim.ite ((Sim.fail _ _ _).bind fun _ _ _ => Sim.pure ⟨rfl, hs⟩) ?_
    refine (Sim.mapM (S := fun a b => a = b ∧ ∀ v, a = some v → v.tidy = true)
      (List.forall₂_same.mpr fun _ _ => rfl) ?_).bind fun fs₁ fs₂ hfs => ?_
    · rintro ⟨text, _, t⟩ _ rfl
      dsimp only
      cases hv : fieldValue text t with
      | error c => exact Sim.throw _
      | ok v => exact Sim.pure ⟨rfl, fun w hw => tidy_of_fieldValue (hw ▸ hv)⟩
    · have hfs' : fs₁ = fs₂ := (List.forall₂_iff_get.mp (hfs.imp fun _ _ h => h.1)).elim
        (fun hlen hget => List.ext_get hlen hget)
      subst hfs'
      split
      · exact (Sim.fail _ _ _).bind fun _ _ _ => Sim.pure ⟨rfl, hs⟩
      · refine Sim.pure ⟨rfl, ?_⟩
        simp only [Array.toList_push, List.all_append, hs, List.all_cons, List.all_nil,
          Bool.and_true, Bool.true_and, Value.tidy, Value.tidyAll_eq_all, List.all_eq_true]
        intro v hv
        obtain ⟨o, ho, hov⟩ := List.mem_filterMap.mp hv
        have := List.forall₂_same.mp hfs o ho
        exact this.2 v hov
  · obtain ⟨rfl, hr⟩ := hr
    exact Value.Same.refl (by simpa using hr)

theorem fieldText?_erase (v : Value) : fieldText? v.erase = fieldText? v := by
  cases v <;> rfl

theorem map_fieldText?_eq {vs₁ vs₂ : List Value} (h : List.Forall₂ Value.Same vs₁ vs₂) :
    vs₁.map fieldText? = vs₂.map fieldText? := by
  induction h with
  | nil => rfl
  | cons hv _ ih => rw [List.map_cons, List.map_cons, ih, ← fieldText?_erase, hv.erase,
      fieldText?_erase]

theorem writeCSV_same (path : String) {t₁ t₂ : Value} (ht : Value.Same t₁ t₂) (header : Bool)
    (pos₁ pos₂ : Position) :
    Sim p (writeCSV path t₁ header pos₁) (writeCSV path t₂ header pos₂) Value.Same := by
  unfold writeCSV
  cases t₁ with
  | table cs rs₁ ty =>
    obtain ⟨rs₂, rfl, hrs⟩ := ht.table_inv
    dsimp only
    refine (Sim.forIn hrs (fun s₁ s₂ => Option.Rel Value.Same s₁.1 s₂.1 ∧ s₁.2 = s₂.2)
      ⟨.none, rfl⟩ ?_).bind ?_
    · rintro row₁ row₂ hrow ⟨r₁, rec₁⟩ ⟨r₂, rec₂⟩ ⟨-, rfl⟩
      cases row₁ with
      | tuple vs₁ t =>
        obtain ⟨vs₂, rfl, hvs⟩ := hrow.tuple_inv
        dsimp only
        simp only [map_fieldText?_eq hvs]
        exact Sim.ite ((Sim.fail _ _ _).bind fun _ _ h => Sim.pure ⟨.some h, rfl⟩)
          (Sim.pure ⟨.none, rfl⟩)
      | _ =>
        -- a row that is no tuple has an agreeing row that is no tuple either
        have he := hrow.erase
        cases row₂ <;> first
          | (dsimp only
             exact Sim.ite ((Sim.fail _ _ _).bind fun _ _ h => Sim.pure ⟨.some h, rfl⟩)
               (Sim.pure ⟨.none, rfl⟩))
          | simp [Value.erase] at he
    · rintro ⟨r₁, rec₁⟩ ⟨r₂, rec₂⟩ ⟨hr, rfl⟩
      dsimp only
      cases hr with
      | some hr => exact Sim.pure hr
      | none =>
        refine Sim.get.bind fun m₁ m₂ hm => ?_
        rw [hm.files]
        cases m₂.files.write path _ with
        | ok files =>
          refine (Sim.set ?_).bind fun _ _ _ => Sim.pure (Value.Same.refl (v := .null) rfl)
          exact ⟨hm.diagnostics, hm.output, hm.input, rfl, hm.lambdas⟩
        | error e =>
          cases e
          case nullCharacter => exact Sim.throw _
          all_goals exact Sim.fail _ _ _
  | _ =>
    dsimp only
    split
    · have he := ht.erase
      simp_all [Value.erase]
    · exact Sim.fail_eq (ht.requires_eq _ _ _) _ _

theorem cell_same (i : Nat) {r₁ r₂ : Value} (h : Value.Same r₁ r₂) :
    Sim p (cell i r₁) (cell i r₂) Value.Same := by
  -- a tuple is read as a list is: the item at `i` agrees, or is missing on both sides
  have hcell : ∀ {vs₁ vs₂ : List Value} (t₁ t₂ : Ty), List.Forall₂ Value.Same vs₁ vs₂ →
      Sim p (cell i (.list vs₁ t₁)) (cell i (.list vs₂ t₂)) Value.Same := by
    intro vs₁ vs₂ t₁ t₂ hvs
    have hi := forall₂_getElem? hvs i
    simp only [cell]
    generalize vs₁[i]? = o₁ at hi ⊢
    generalize vs₂[i]? = o₂ at hi ⊢
    cases hi with
    | none => exact Sim.throw _
    | some h => exact Sim.pure h
  cases r₁ with
  | tuple vs₁ t =>
    obtain ⟨vs₂, rfl, hvs⟩ := h.tuple_inv
    exact hcell t t hvs
  | list vs₁ t =>
    obtain ⟨vs₂, rfl, hvs⟩ := h.list_inv
    exact hcell t t hvs
  | _ =>
    have he := h.erase
    cases r₂ <;> first
      | exact Sim.throw _
      | simp [Value.erase] at he

theorem rowProblem_erase (cs : List (String × Ty)) (r : Value) :
    rowProblem cs r.erase = rowProblem cs r := by
  cases r with
  | tuple es t =>
    simp [rowProblem, Value.erase, List.zip_map_left, List.findSome?_map, Function.comp_def]
  | _ => simp [rowProblem, Value.erase, Value.type]

/-- A search along numbered elements that looks at each element only up to agreement
finds the same on agreeing lists. -/
theorem findSome?_zipIdx_eq {γ : Type} {g : Value × Nat → Option γ}
    (hg : ∀ a b, Value.Same a b → ∀ i, g (a, i) = g (b, i)) {l₁ l₂ : List Value}
    (h : List.Forall₂ Value.Same l₁ l₂) (k : Nat) :
    (l₁.zipIdx k).findSome? g = (l₂.zipIdx k).findSome? g := by
  induction h generalizing k with
  | nil => rfl
  | cons hab _ ih => simp only [List.zipIdx_cons, List.findSome?_cons, hg _ _ hab, ih]

theorem rowProblem_eq {cs : List (String × Ty)} {r₁ r₂ : Value} (h : Value.Same r₁ r₂) :
    rowProblem cs r₁ = rowProblem cs r₂ := by
  rw [← rowProblem_erase, h.erase, rowProblem_erase]

/-- Every builtin runs alike on agreeing arguments, through agreeing engines. -/
theorem run_same (hk : EngineSame k₁ k₂) (b : Builtin) {args₁ args₂ : List Value}
    (hargs : List.Forall₂ Value.Same args₁ args₂) (pos₁ pos₂ : Position) :
    Sim p (run k₁ b args₁ pos₁) (run k₂ b args₂ pos₂) Value.Same := by
  unfold run
  -- the arguments on the right have the shape of those on the left, whose arm is taken
  split <;> (try simp only [List.forall₂_cons_left_iff, List.forall₂_nil_left_iff,
    Value.Same.int_left, Value.Same.string_left, Value.Same.schema_left, Value.Same.bool_left,
    exists_eq_left, exists_and_left] at hargs)
  case h_1 f xs =>
    obtain ⟨f₂, hf, _, ⟨xs₂, hxs, rfl⟩, rfl⟩ := hargs
    exact map_same hk hf hxs _ _
  case h_2 f xs =>
    obtain ⟨f₂, hf, _, ⟨xs₂, hxs, rfl⟩, rfl⟩ := hargs
    exact filter_same hk hf hxs _ _
  case h_3 init xs f =>
    obtain ⟨init₂, hinit, _, ⟨xs₂, hxs, _, ⟨f₂, hf, rfl⟩, rfl⟩, rfl⟩ := hargs
    exact fold_same hk _ _ hinit hxs hf _ _
  case h_4 init xs f =>
    obtain ⟨init₂, hinit, _, ⟨xs₂, hxs, _, ⟨f₂, hf, rfl⟩, rfl⟩, rfl⟩ := hargs
    exact fold_same hk _ _ hinit hxs hf _ _
  case h_5 xs ys =>
    obtain ⟨xs₂, hxs, _, ⟨ys₂, hys, rfl⟩, rfl⟩ := hargs
    exact zip_same hxs hys _ _
  case h_6 xs a e =>
    obtain ⟨xs₂, hxs, rfl⟩ := hargs
    dsimp only
    have hl := hxs.asList?
    generalize xs.asList? = l₁ at hl ⊢
    generalize xs₂.asList? = l₂ at hl ⊢
    cases hl with
    | none => exact Sim.fail_eq (hxs.requires_eq _ _ _) _ _
    | some hab =>
    obtain ⟨hitems, ht⟩ := hab
    dsimp only
    rw [ht, hitems.length_eq]
    exact Sim.ite (Sim.pure (Value.Same.listOf
      (List.forall₂_drop _ (List.forall₂_take _ hitems)) _)) (Sim.fail _ _ _)
  case h_7 str a e =>
    subst hargs
    exact Sim.ite (Sim.pure (Value.Same.refl rfl)) (Sim.fail _ _ _)
  case h_8 x =>
    obtain ⟨x₂, hx, rfl⟩ := hargs
    have he := hx.erase
    have hlen : (x.items?.map List.length).getD 0 = (x₂.items?.map List.length).getD 0 := by
      have hi := hx.items?
      generalize x.items? = i₁ at hi ⊢
      generalize x₂.items? = i₂ at hi ⊢
      cases hi with
      | none => rfl
      | some h => simp [h.length_eq]
    dsimp only
    -- the arms agree because erasure keeps each value's constructor
    split <;> split <;> first
      | exact Sim.fail_eq (by rw [hx.type_eq]) _ _
      | (rw [hlen]; exact Sim.pure (Value.Same.refl rfl))
      | (cases x₂ <;> first
          | (simp only [Value.erase, reduceCtorEq] at he; done)
          | (exfalso; solve_by_elim))
      | (cases x <;> first
          | (simp only [Value.erase, reduceCtorEq] at he; done)
          | (exfalso; solve_by_elim))
  case h_9 x =>
    obtain ⟨x₂, hx, rfl⟩ := hargs
    rw [hx.type_eq]
    exact Sim.pure (Value.Same.refl rfl)
  case h_10 a e =>
    subst hargs
    exact Sim.pure (Value.Same.refl (by simp [Value.tidy]))
  case h_11 x =>
    obtain ⟨x₂, hx, rfl⟩ := hargs
    dsimp only
    rw [hx.scalarText?_eq]
    cases x₂.scalarText? with
    | none => exact Sim.fail_eq (by rw [hx.type_eq]) _ _
    | some text => exact (Sim.emit _).bind fun _ _ _ => Sim.pure (Value.Same.refl rfl)
  case h_12 x =>
    obtain ⟨x₂, hx, rfl⟩ := hargs
    dsimp only
    rw [hx.scalarText?_eq]
    cases x₂.scalarText? with
    | none => exact Sim.fail_eq (by rw [hx.type_eq]) _ _
    | some text => exact (Sim.emit _).bind fun _ _ _ => Sim.pure (Value.Same.refl rfl)
  case h_13 =>
    subst hargs
    exact Sim.readLine.bind fun _ _ h => h ▸ Sim.pure (Value.Same.refl rfl)
  case h_14 n =>
    subst hargs
    exact Sim.pure (Value.Same.refl rfl)
  case h_15 str =>
    subst hargs
    dsimp only
    cases parseIntText str with
    | malformed => exact Sim.fail _ _ _
    | tooLong count => exact Sim.throw _
    | number n => exact Sim.ite (Sim.pure (Value.Same.refl rfl)) (Sim.fail _ _ _)
  case h_16 cs rows =>
    obtain ⟨_, ⟨rows₂, hrows, rfl⟩, rfl⟩ := hargs
    dsimp only
    have hl := hrows.asList?
    generalize rows.asList? = l₁ at hl ⊢
    generalize rows₂.asList? = l₂ at hl ⊢
    cases hl with
    | none => exact Sim.fail_eq (hrows.requires_eq _ _ _) _ _
    | @some a b hab =>
    obtain ⟨items₁, t₁⟩ := a
    obtain ⟨items₂, t₂⟩ := b
    dsimp only
    rw [findSome?_zipIdx_eq ?_ hab.1]
    · dsimp only
      split
      · exact Sim.fail _ _ _
      · exact Sim.pure (Value.Same.tableOf hab.1 _)
    · intro r₁ r₂ hr i
      dsimp only
      rw [rowProblem_eq hr]
  case h_17 t name =>
    obtain ⟨t₂, ht, rfl⟩ := hargs
    dsimp only
    cases t with
    | table cs rs ty =>
      obtain ⟨rs₂, rfl, hrs⟩ := ht.table_inv
      dsimp only
      split
      · exact (Sim.mapM hrs fun _ _ h => cell_same _ h).bind fun _ _ hcells =>
          Sim.pure (Value.Same.listOf hcells _)
      · exact Sim.fail _ _ _
    | _ =>
      dsimp only
      split
      · have he := ht.erase
        simp_all [Value.erase]
      · exact Sim.fail_eq (ht.requires_eq _ _ _) _ _
  case h_18 t =>
    obtain ⟨t₂, ht, rfl⟩ := hargs
    dsimp only
    cases t with
    | table cs rs ty =>
      obtain ⟨rs₂, rfl, hrs⟩ := ht.table_inv
      exact Sim.pure (Value.Same.listOf hrs _)
    | _ =>
      dsimp only
      split
      · have he := ht.erase
        simp_all [Value.erase]
      · exact Sim.fail_eq (ht.requires_eq _ _ _) _ _
  case h_19 t =>
    obtain ⟨t₂, ht, rfl⟩ := hargs
    dsimp only
    cases t with
    | table cs rs ty =>
      obtain ⟨rs₂, rfl, hrs⟩ := ht.table_inv
      dsimp only
      rw [hrs.length_eq]
      exact Sim.pure (Value.Same.refl rfl)
    | _ =>
      dsimp only
      split
      · have he := ht.erase
        simp_all [Value.erase]
      · exact Sim.fail_eq (ht.requires_eq _ _ _) _ _
  case h_20 path cs header =>
    subst hargs
    exact readCSV_same _ _ _ _ _
  case h_21 path t header =>
    obtain ⟨_, ⟨t₂, ht, rfl⟩, rfl⟩ := hargs
    exact writeCSV_same _ ht _ _ _
  case h_22 =>
    split
    case h_22 => exact Sim.throw _
    -- the right-hand arms are each ruled out by the left-hand arguments they would need
    all_goals simp_all [List.forall₂_cons_right_iff]
    case h_21 _ _ header _ =>
      obtain ⟨_, -, rfl⟩ := hargs
      cases header <;> simp_all

end Builtins

end Retl
