import Retl.Proofs.EvalSimulation
/-!
# Evaluation runs alike on agreeing programs

One step of evaluation, through agreeing engines, runs alike on agreeing scopes and
expressions (`Eval.step_same`); it is proved one form at a time, each form from the parts
of `EvalSimulation`. By induction on the fuel, evaluation with some fuel then runs like
evaluation with at least as much (`Eval.engineSame_of_le`): the side with less fuel may
run out of depth, and otherwise both end alike.
-/

namespace Retl

open Eval
open Retl.Tree (LitNode)

namespace Eval

variable {p : String} {k₁ k₂ : Engine}

theorem tidy_literalValue (l : Literal) : (literalValue l).tidy = true := by
  cases l <;> rfl

theorem step_lit_same (cfg : RunConfig) (env₁ env₂ : Env) (t : Ty) (l : Literal)
    (pos₁ pos₂ : Position) :
    Sim p (step k₁ cfg env₁ t (.lit l pos₁)) (step k₂ cfg env₂ t (.lit l pos₂)) Value.Same := by
  unfold step
  exact (Sim.trace cfg _).bind fun _ _ _ =>
    Sim.conformValue (Value.Same.refl (tidy_literalValue l)) _ _ _

theorem step_apply_same (hk : EngineSame k₁ k₂) (cfg : RunConfig) {env₁ env₂ : Env}
    (henv : Env.Same env₁ env₂) (t : Ty) {f₁ f₂ : Expr} (hf : Expr.Same f₁ f₂)
    {args₁ args₂ : List Expr} (hargs : List.Forall₂ Expr.Same args₁ args₂) (pos₁ pos₂ : Position) :
    Sim p (step k₁ cfg env₁ t (.apply f₁ args₁ pos₁))
      (step k₂ cfg env₂ t (.apply f₂ args₂ pos₂)) Value.Same := by
  unfold step
  refine (Sim.trace cfg _).bind fun _ _ _ => ?_
  refine (hk.eval p _ _ .unknown _ _ henv hf).bind fun v₁ v₂ hv => ?_
  rw [hv.isError_eq]
  exact Sim.ite (Sim.pure hv) (applyTo_same hk henv hv hargs _ _ _)

theorem operator_same {a₁ a₂ : Value} (ha : Value.Same a₁ a₂) {b₁ b₂ : Option Value}
    (hb : Option.Rel Value.Same b₁ b₂) (op : PrimOp) :
    Value.Same (Operators.apply op a₁ b₁) (Operators.apply op a₂ b₂) := by
  refine ⟨?_, Operators.tidy_apply op ha.tidy ?_⟩
  · rw [Operators.erase_apply, Operators.erase_apply, ha.erase]
    cases hb with
    | none => rfl
    | some h => simp [h.erase]
  · cases hb with
    | none => simp
    | some h => simpa using h.tidy

theorem step_lam_same (cfg : RunConfig) {env₁ env₂ : Env} (henv : Env.Same env₁ env₂) (t : Ty)
    (ps : List (String × Ty)) (r : Ty) {b₁ b₂ : Expr} (hb : Expr.Same b₁ b₂)
    (pos₁ pos₂ : Position) :
    Sim p (step k₁ cfg env₁ t (.lam ps r b₁ pos₁)) (step k₂ cfg env₂ t (.lam ps r b₂ pos₂))
      Value.Same := by
  unfold step
  refine (Sim.trace cfg _).bind fun _ _ _ => Sim.freshLambda.bind fun id₁ id₂ hid => ?_
  subst hid
  -- the new function captures agreeing scopes
  refine Sim.conformValue ⟨?_, ?_⟩ _ _ _
  · have he := henv.erase
    simp only [Env.erase] at he
    simp only [Value.erase, Expr.eraseOpt, hb.erase, he]
  · simp only [Value.tidy, Expr.readsUserNamesOpt, hb.reads, henv.tidy, Bool.and_self]

theorem step_matchOn_same (hk : EngineSame k₁ k₂) (cfg : RunConfig) {env₁ env₂ : Env}
    (henv : Env.Same env₁ env₂) (t : Ty) {s₁ s₂ : Expr} (hs : Expr.Same s₁ s₂)
    {cs₁ cs₂ : List (Case × Expr)} (hcs : List.Forall₂ ArmSame cs₁ cs₂) (pos₁ pos₂ : Position) :
    Sim p (step k₁ cfg env₁ t (.matchOn s₁ cs₁ pos₁))
      (step k₂ cfg env₂ t (.matchOn s₂ cs₂ pos₂)) Value.Same := by
  unfold step
  refine (Sim.trace cfg _).bind fun _ _ _ => ?_
  refine (hk.eval p _ _ .unknown _ _ henv hs).bind fun v₁ v₂ hv => ?_
  rw [hv.isError_eq]
  exact Sim.ite (Sim.pure hv) (matchCases_same hk henv hv hcs _ _ _)

theorem step_prim_same (hk : EngineSame k₁ k₂) (cfg : RunConfig) {env₁ env₂ : Env}
    (henv : Env.Same env₁ env₂) (t : Ty) (op : PrimOp) {l₁ l₂ : Expr} (hl : Expr.Same l₁ l₂)
    {r₁ r₂ : Option Expr} (hr : Option.Rel Expr.Same r₁ r₂) (pos₁ pos₂ : Position) :
    Sim p (step k₁ cfg env₁ t (.prim op l₁ r₁ pos₁))
      (step k₂ cfg env₂ t (.prim op l₂ r₂ pos₂)) Value.Same := by
  unfold step
  refine (Sim.trace cfg _).bind fun _ _ _ => ?_
  refine (hk.eval p _ _ .unknown _ _ henv hl).bind fun a₁ a₂ ha => ?_
  -- the right operand, if any, is evaluated on both sides
  cases hr <;> dsimp only <;> first
    | refine (Sim.pure (Option.Rel.none (r := Value.Same))).bind fun b₁ b₂ hb => ?_
    | refine ((hk.eval p _ _ .unknown _ _ henv ‹_›).map fun _ _ h => Option.Rel.some h).bind
        fun b₁ b₂ hb => ?_
  -- then both sides go on alike from agreeing operands
  all_goals
    have hvals : List.Forall₂ Value.Same (a₁ :: b₁.toList) (a₂ :: b₂.toList) := by
      cases hb with
      | none => exact .cons ha .nil
      | some h => exact .cons ha (.cons h .nil)
    have hfe := firstError_same hvals
    generalize firstError (a₁ :: b₁.toList) = o₁ at hfe ⊢
    generalize firstError (a₂ :: b₂.toList) = o₂ at hfe ⊢
    cases hfe with
    | some hbad => exact Sim.pure hbad
    | none =>
      have hv := operator_same ha hb op
      generalize Operators.apply op a₁ b₁ = v₁ at hv ⊢
      generalize Operators.apply op a₂ b₂ = v₂ at hv ⊢
      -- an operator's error is recorded on both sides alike
      cases v₁ with
      | error m =>
        obtain rfl := Value.Same.error_left.mp hv
        exact (Sim.record _ _ _ _).bind fun _ _ _ => Sim.conformValue hv _ _ _
      | _ =>
        dsimp only
        split
        · have he := hv.erase
          simp [Value.erase] at he
        · exact Sim.conformValue hv _ _ _

theorem step_ref_same (cfg : RunConfig) {env₁ env₂ : Env} (henv : Env.Same env₁ env₂) (t : Ty)
    {n : String} (hn : isStatementName n = false) (pos₁ pos₂ : Position) :
    Sim p (step k₁ cfg env₁ t (.ref n pos₁)) (step k₂ cfg env₂ t (.ref n pos₂)) Value.Same := by
  unfold step
  refine (Sim.trace cfg _).bind fun _ _ _ => ?_
  have hl := henv.lookup hn
  dsimp only
  generalize env₁.lookup n = o₁ at hl ⊢
  generalize env₂.lookup n = o₂ at hl ⊢
  cases hl with
  | none => exact Sim.fail _ _ _
  | some hv => exact Sim.conformValue hv _ _ _

theorem step_branch_same (hk : EngineSame k₁ k₂) (cfg : RunConfig) {env₁ env₂ : Env}
    (henv : Env.Same env₁ env₂) (t : Ty) {c₁ c₂ a₁ a₂ : Expr} (hc : Expr.Same c₁ c₂)
    (ha : Expr.Same a₁ a₂) {b₁ b₂ : Option Expr} (hb : Option.Rel Expr.Same b₁ b₂)
    (pos₁ pos₂ : Position) :
    Sim p (step k₁ cfg env₁ t (.branch c₁ a₁ b₁ pos₁))
      (step k₂ cfg env₂ t (.branch c₂ a₂ b₂ pos₂)) Value.Same := by
  -- the branches' static types, which the type check reads, survive erasure
  have hts : a₁.static = a₂.static := by
    rw [← Expr.static_erase, ha.erase, Expr.static_erase]
  have hes : Expr.staticOpt b₁ = Expr.staticOpt b₂ := by
    cases hb with
    | none => rfl
    | some h =>
      simp only [Expr.staticOpt]
      rw [← Expr.static_erase, h.erase, Expr.static_erase]
  unfold step
  refine (Sim.trace cfg _).bind fun _ _ _ => ?_
  dsimp only
  rw [hts, hes]
  -- a mismatch of the branches' types is recorded on both sides or on neither
  split <;> try refine (Sim.record _ _ _ _).bind fun _ _ _ => ?_
  all_goals
    refine (hk.eval p _ _ .bool _ _ henv hc).bind fun g₁ g₂ hg => ?_
    cases g₁ with
    | bool b =>
      obtain rfl := Value.Same.bool_left.mp hg
      cases b
      · cases hb with
        | none => exact Sim.conformValue (Value.Same.refl rfl) _ _ _
        | some h => exact hk.eval p _ _ t _ _ henv h
      · exact hk.eval p _ _ t _ _ henv ha
    | _ =>
      dsimp only
      split
      · simp at hg
      · simp at hg
      · exact Sim.pure hg

/-- A loop's passes over agreeing items run alike. -/
theorem forItems_same (hk : EngineSame k₁ k₂) {env₁ env₂ : Env}
    (henv : Env.Same env₁ env₂) (t : Ty) (n : String) {b₁ b₂ : Expr} (hb : Expr.Same b₁ b₂)
    {xs₁ xs₂ : List Value} (hxs : List.Forall₂ Value.Same xs₁ xs₂) (pos₁ pos₂ : Position) :
    Sim p (do
        xs₁.forM fun x => discard <| k₁.eval (env₁.bind n x) .unknown b₁
        conformValue .null t pos₁)
      (do
        xs₂.forM fun x => discard <| k₂.eval (env₂.bind n x) .unknown b₂
        conformValue .null t pos₂) Value.Same := by
  refine (Sim.forM hxs fun x y hxy => ?_).bind fun _ _ _ =>
    Sim.conformValue (Value.Same.refl rfl) _ _ _
  exact (hk.eval p _ _ _ _ _ (henv.bind n hxy) hb).map fun _ _ _ => trivial

theorem step_iter_same (hk : EngineSame k₁ k₂) (cfg : RunConfig) {env₁ env₂ : Env}
    (henv : Env.Same env₁ env₂) (t : Ty) (n : String) {it₁ it₂ b₁ b₂ : Expr}
    (hit : Expr.Same it₁ it₂) (hb : Expr.Same b₁ b₂) (pos₁ pos₂ : Position) :
    Sim p (step k₁ cfg env₁ t (.iter n it₁ b₁ pos₁))
      (step k₂ cfg env₂ t (.iter n it₂ b₂ pos₂)) Value.Same := by
  unfold step
  refine (Sim.trace cfg _).bind fun _ _ _ => ?_
  refine (hk.eval p _ _ .unknown _ _ henv hit).bind fun v₁ v₂ hv => ?_
  dsimp only
  rw [hv.isError_eq]
  refine Sim.ite (Sim.pure hv) ?_
  cases v₁ with
  | int m =>
    obtain rfl := Value.Same.int_left.mp hv
    exact forItems_same hk henv t n hb (forall₂_same_refl (by simp [Value.tidy])) _ _
  | _ =>
    -- the second value has the first one's constructor, and both loop over their items
    cases v₂ <;> first
      | (have he := hv.erase
         simp [Value.erase] at he
         done)
      | (dsimp only
         have hi := hv.items?
         revert hi
         generalize Value.items? _ = i₁
         generalize Value.items? _ = i₂
         intro hi
         cases hi with
         | none => exact Sim.fail_eq (by rw [hv.type_eq]) _ _
         | some hxs => exact forItems_same hk henv t n hb hxs _ _)

theorem step_list_same (hk : EngineSame k₁ k₂) (cfg : RunConfig) {env₁ env₂ : Env}
    (henv : Env.Same env₁ env₂) (t : Ty) {es₁ es₂ : List Expr}
    (hes : List.Forall₂ Expr.Same es₁ es₂) (pos₁ pos₂ : Position) :
    Sim p (step k₁ cfg env₁ t (.list es₁ pos₁)) (step k₂ cfg env₂ t (.list es₂ pos₂))
      Value.Same := by
  unfold step
  refine (Sim.trace cfg _).bind fun _ _ _ => ?_
  cases hes with
  | nil => exact Sim.conformValue (Value.Same.refl (by simp)) _ _ _
  | cons hfirst hrest =>
    refine (hk.eval p _ _ _ _ _ henv hfirst).bind fun v₁ v₂ hv => ?_
    dsimp only
    -- the rest is evaluated under the type the first element fixed, the same on both sides
    rw [hv.type_eq]
    refine (Sim.mapM (S := Value.Same) hrest fun _ _ h => hk.eval p _ _ _ _ _ henv h).bind
      fun vs₁ vs₂ hvs => ?_
    have hall : List.Forall₂ Value.Same (v₁ :: vs₁) (v₂ :: vs₂) := .cons hv hvs
    have hfe := firstError_same hall
    generalize firstError (v₁ :: vs₁) = o₁ at hfe ⊢
    generalize firstError (v₂ :: vs₂) = o₂ at hfe ⊢
    cases hfe with
    | some hbad => exact Sim.pure hbad
    | none => exact Sim.conformValue (Value.Same.listOf hall _) _ _ _

theorem step_tuple_same (hk : EngineSame k₁ k₂) (cfg : RunConfig) {env₁ env₂ : Env}
    (henv : Env.Same env₁ env₂) (t : Ty) {es₁ es₂ : List Expr}
    (hes : List.Forall₂ Expr.Same es₁ es₂) (pos₁ pos₂ : Position) :
    Sim p (step k₁ cfg env₁ t (.tuple es₁ pos₁)) (step k₂ cfg env₂ t (.tuple es₂ pos₂))
      Value.Same := by
  -- the slots' types depend on the elements only through their count
  have hunknown : es₁.map (fun _ => Ty.unknown) = es₂.map (fun _ => Ty.unknown) := by
    simp only [List.map_const', hes.length_eq]
  unfold step
  refine (Sim.trace cfg _).bind fun _ _ _ => ?_
  dsimp only
  rw [hunknown, hes.length_eq]
  refine (Sim.mapM (S := Value.Same) (forall₂_zip_zip hes (List.forall₂_same.mpr fun _ _ => rfl))
    fun x y hxy => ?_).bind fun vs₁ vs₂ hvs => ?_
  · obtain ⟨e₁, t₁⟩ := x
    obtain ⟨e₂, t₂⟩ := y
    obtain ⟨he, heq⟩ := hxy
    cases heq
    exact hk.eval p _ _ _ _ _ henv he
  · have hfe := firstError_same hvs
    generalize firstError vs₁ = o₁ at hfe ⊢
    generalize firstError vs₂ = o₂ at hfe ⊢
    cases hfe with
    | some hbad => exact Sim.pure hbad
    | none => exact Sim.conformValue (Value.Same.tupleOf hvs) _ _ _

theorem step_access_same (hk : EngineSame k₁ k₂) (cfg : RunConfig) {env₁ env₂ : Env}
    (henv : Env.Same env₁ env₂) (t : Ty) {a₁ a₂ : Expr} (ha : Expr.Same a₁ a₂) (i : Nat)
    (pos₁ pos₂ : Position) :
    Sim p (step k₁ cfg env₁ t (.access a₁ i pos₁)) (step k₂ cfg env₂ t (.access a₂ i pos₂))
      Value.Same := by
  unfold step
  refine (Sim.trace cfg _).bind fun _ _ _ => ?_
  refine (hk.eval p _ _ .unknown _ _ henv ha).bind fun v₁ v₂ hv => ?_
  cases v₁ with
  | tuple vs ty =>
    obtain ⟨vs₂, rfl, hvs⟩ := hv.tuple_inv
    dsimp only
    rw [hvs.length_eq]
    have hi := forall₂_getElem? hvs i
    generalize vs[i]? = o₁ at hi ⊢
    generalize vs₂[i]? = o₂ at hi ⊢
    cases hi with
    | none => exact Sim.fail _ _ _
    | some h => exact Sim.conformValue h _ _ _
  | error m =>
    obtain rfl := Value.Same.error_left.mp hv
    exact Sim.pure (Value.Same.error m)
  | _ =>
    have he := hv.erase
    cases v₂ <;> first
      | (simp [Value.erase] at he; done)
      | exact Sim.fail_eq (by rw [hv.type_eq]) _ _

/-- The keys and values of agreeing pairs, one after another, agree. -/
theorem flatMap_pairs_same {ev₁ ev₂ : List (Value × Value)}
    (h : List.Forall₂ Value.PairSame ev₁ ev₂) :
    List.Forall₂ Value.Same (ev₁.flatMap fun x => [x.1, x.2]) (ev₂.flatMap fun x => [x.1, x.2]) := by
  induction h with
  | nil => exact .nil
  | cons hab _ ih =>
    simp only [List.flatMap_cons, List.cons_append, List.nil_append]
    exact .cons hab.1 (.cons hab.2 ih)

theorem dict_same {ev₁ ev₂ : List (Value × Value)} (h : List.Forall₂ Value.PairSame ev₁ ev₂)
    (ty : Ty) : Value.Same (.dict ev₁ ty) (.dict ev₂ ty) := by
  obtain ⟨he, ht⟩ := Value.forall₂_pairSame_iff.mp h
  exact ⟨by simp [Value.erase, he], by simpa [Value.tidy] using ht⟩

theorem step_dict_same (hk : EngineSame k₁ k₂) (cfg : RunConfig) {env₁ env₂ : Env}
    (henv : Env.Same env₁ env₂) (t : Ty) {ps₁ ps₂ : List (LitNode × Expr)}
    (hps : List.Forall₂ EntrySame ps₁ ps₂) (pos₁ pos₂ : Position) :
    Sim p (step k₁ cfg env₁ t (.dict ps₁ pos₁)) (step k₂ cfg env₂ t (.dict ps₂ pos₂))
      Value.Same := by
  unfold step
  refine (Sim.trace cfg _).bind fun _ _ _ => ?_
  dsimp only
  cases hps with
  | nil => exact Sim.conformValue (Value.Same.refl rfl) _ _ _
  | cons ha hrest =>
    refine (dictPairs_same hk henv _ _ (.cons ha hrest)).bind fun r₁ r₂ hr => ?_
    obtain ⟨ev₁, kt₁, vt₁⟩ := r₁
    obtain ⟨ev₂, kt₂, vt₂⟩ := r₂
    obtain ⟨hev, heq⟩ := hr
    cases heq
    have hfe := firstError_same (flatMap_pairs_same hev)
    dsimp only
    generalize firstError (ev₁.flatMap fun x => [x.1, x.2]) = o₁ at hfe ⊢
    generalize firstError (ev₂.flatMap fun x => [x.1, x.2]) = o₂ at hfe ⊢
    cases hfe with
    | some hbad => exact Sim.pure hbad
    | none => exact Sim.conformValue (dict_same hev _) _ _ _

theorem step_link_same (hk : EngineSame k₁ k₂) (cfg : RunConfig) {env₁ env₂ : Env}
    (henv : Env.Same env₁ env₂) (t : Ty) {e₁ e₂ : Expr} (he : Expr.Same e₁ e₂)
    (hl : e₁.isLink = true) :
    Sim p (step k₁ cfg env₁ t e₁) (step k₂ cfg env₂ t e₂) Value.Same := by
  have hwalk := walkBindings_same (p := p) hk henv he
  have herase := he.erase
  -- a binding and an alias both walk the chain they start, then evaluate what follows it
  cases e₁ <;> simp only [Expr.isLink, Bool.false_eq_true] at hl <;>
    cases e₂ <;> simp only [Expr.erase, reduceCtorEq] at herase <;>
    (unfold step
     refine (Sim.trace cfg _).bind fun _ _ _ => hwalk.bind fun r₁ r₂ hr => ?_
     obtain ⟨o₁, env₁'⟩ := r₁
     obtain ⟨o₂, env₂'⟩ := r₂
     obtain ⟨ho, henv'⟩ := hr
     cases ho with
     | none => exact Sim.conformValue (Value.Same.refl rfl) _ _ _
     | some hrest => exact hk.eval p _ _ t _ _ henv' hrest)

theorem optionRel_same {k₁ k₂ : Option Expr} (he : k₁.map Expr.erase = k₂.map Expr.erase)
    (hr : k₁.all Expr.readsUserNames = true) : Option.Rel Expr.Same k₁ k₂ := by
  cases k₁ <;> cases k₂ <;> simp at he
  · exact .none
  · exact .some ⟨he, by simpa using hr⟩

theorem forall₂_armSame {cs₁ cs₂ : List (Case × Expr)}
    (he : cs₁.map (fun c => (c.1.erase, c.2.erase)) = cs₂.map (fun c => (c.1.erase, c.2.erase)))
    (hr : (cs₁.all fun c => c.1.readsUserNames && c.2.readsUserNames) = true) :
    List.Forall₂ ArmSame cs₁ cs₂ := by
  induction cs₁ generalizing cs₂ with
  | nil => cases cs₂ <;> simp_all
  | cons c cs ih =>
    cases cs₂ with
    | nil => simp at he
    | cons c' cs' =>
      simp only [List.map_cons, List.cons.injEq, Prod.mk.injEq, List.all_cons,
        Bool.and_eq_true] at he hr
      exact .cons ⟨he.1.1, hr.1.1, he.1.2, hr.1.2⟩ (ih he.2 hr.2)

theorem forall₂_entrySame {ps₁ ps₂ : List (LitNode × Expr)}
    (he : ps₁.map (fun p => (p.1.erase, p.2.erase)) = ps₂.map (fun p => (p.1.erase, p.2.erase)))
    (hr : (ps₁.all fun p => p.2.readsUserNames) = true) :
    List.Forall₂ EntrySame ps₁ ps₂ := by
  induction ps₁ generalizing ps₂ with
  | nil => cases ps₂ <;> simp_all
  | cons e es ih =>
    cases ps₂ with
    | nil => simp at he
    | cons e' es' =>
      simp only [List.map_cons, List.cons.injEq, Prod.mk.injEq, List.all_cons,
        Bool.and_eq_true] at he hr
      have hlit : e.1.literal = e'.1.literal := by
        have h := congrArg Tree.LitNode.literal he.1.1
        exact h
      exact .cons ⟨hlit, he.1.2, hr.1⟩ (ih he.2 hr.2)

/-- One step of evaluation runs alike on agreeing scopes and expressions, through agreeing
engines. -/
theorem step_same (hk : EngineSame k₁ k₂) (cfg : RunConfig) {env₁ env₂ : Env}
    (henv : Env.Same env₁ env₂) (t : Ty) {e₁ e₂ : Expr} (he : Expr.Same e₁ e₂) :
    Sim p (step k₁ cfg env₁ t e₁) (step k₂ cfg env₂ t e₂) Value.Same := by
  cases hl : e₁.isLink
  case true => exact step_link_same hk cfg henv t he hl
  obtain ⟨herase, hreads⟩ := he
  -- the second expression has the first one's form, with parts that agree
  cases e₁ <;> simp only [Expr.isLink, Bool.true_eq_false] at hl <;>
    cases e₂ <;> simp only [Expr.erase, reduceCtorEq, Expr.lit.injEq, Expr.ref.injEq,
      Expr.lam.injEq, Expr.apply.injEq, Expr.prim.injEq, Expr.branch.injEq, Expr.matchOn.injEq,
      Expr.iter.injEq, Expr.list.injEq, Expr.tuple.injEq, Expr.access.injEq, Expr.dict.injEq,
      Expr.schema.injEq, Expr.eraseAll_eq_map, Expr.eraseOpt_eq_map, Expr.eraseCases_eq_map,
      Expr.eraseEntries_eq_map, and_true] at herase <;>
    simp only [Expr.readsUserNames, Expr.readsUserNamesAll_eq_all, Expr.readsUserNamesOpt_eq_all,
      Expr.readsUserNamesCases_eq_all, Expr.readsUserNamesEntries_eq_all, Bool.and_eq_true,
      Bool.not_eq_true'] at hreads
  case false.lit.lit =>
    subst herase
    exact step_lit_same cfg env₁ env₂ t _ _ _
  case false.ref.ref =>
    subst herase
    exact step_ref_same cfg henv t hreads _ _
  case false.lam.lam =>
    obtain ⟨rfl, rfl, hb⟩ := herase
    exact step_lam_same cfg henv t _ _ ⟨hb, hreads⟩ _ _
  case false.apply.apply =>
    exact step_apply_same hk cfg henv t ⟨herase.1, hreads.1⟩
      (Expr.forall₂_same_iff.mpr ⟨herase.2, hreads.2⟩) _ _
  case false.prim.prim =>
    obtain ⟨rfl, hl, hr⟩ := herase
    exact step_prim_same hk cfg henv t _ ⟨hl, hreads.1⟩ (optionRel_same hr hreads.2) _ _
  case false.branch.branch =>
    obtain ⟨hc, ha, hb⟩ := herase
    obtain ⟨⟨hrc, hra⟩, hrb⟩ := hreads
    exact step_branch_same hk cfg henv t ⟨hc, hrc⟩ ⟨ha, hra⟩ (optionRel_same hb hrb) _ _
  case false.matchOn.matchOn =>
    exact step_matchOn_same hk cfg henv t ⟨herase.1, hreads.1⟩
      (forall₂_armSame herase.2 hreads.2) _ _
  case false.iter.iter =>
    obtain ⟨rfl, hit, hb⟩ := herase
    exact step_iter_same hk cfg henv t _ ⟨hit, hreads.1⟩ ⟨hb, hreads.2⟩ _ _
  case false.list.list =>
    exact step_list_same hk cfg henv t (Expr.forall₂_same_iff.mpr ⟨herase, hreads⟩) _ _
  case false.tuple.tuple =>
    exact step_tuple_same hk cfg henv t (Expr.forall₂_same_iff.mpr ⟨herase, hreads⟩) _ _
  case false.access.access =>
    obtain ⟨ha, rfl⟩ := herase
    exact step_access_same hk cfg henv t ⟨ha, hreads⟩ _ _ _
  case false.dict.dict =>
    exact step_dict_same hk cfg henv t (forall₂_entrySame herase hreads) _ _
  case false.schema.schema =>
    subst herase
    unfold step
    exact (Sim.trace cfg _).bind fun _ _ _ => Sim.conformValue (Value.Same.refl rfl) _ _ _
  case false.empty.empty =>
    unfold step
    exact (Sim.trace cfg _).bind fun _ _ _ => Sim.conformValue (Value.Same.refl rfl) _ _ _

/-- Evaluation with some fuel runs like evaluation with at least as much: the side with
less fuel may run out of depth, and otherwise both end alike. -/
theorem engineSame_of_le (cfg : RunConfig) : ∀ {n n' : Nat}, n ≤ n' →
    EngineSame ⟨eval n cfg, call n cfg⟩ ⟨eval n' cfg, call n' cfg⟩
  | 0, _, _ =>
    ⟨fun _ _ _ _ _ _ _ _ m₁ _ _ => .ranOut m₁ _, fun _ _ _ _ _ _ _ _ _ m₁ _ _ => .ranOut m₁ _⟩
  | n + 1, 0, h => absurd h (Nat.not_succ_le_zero n)
  | _ + 1, _ + 1, h =>
    have ih := engineSame_of_le cfg (Nat.le_of_succ_le_succ h)
    ⟨fun _ _ _ _ _ _ henv he => step_same ih cfg henv _ he,
      fun _ _ _ _ _ _ _ hf hargs => callStep_same ih cfg hf hargs _ _⟩

end Eval

end Retl
