import Retl.Proofs.BuiltinSimulation
import Retl.Proofs.DroppedLines
/-!
# The evaluator's parts run alike

Each part of one evaluation step, given agreeing engines (`EngineSame`), runs alike on
agreeing scopes, expressions and values: the walk over a `let` chain, the cases of a
`match`, application, the binding of call arguments, calls, and dictionary literals.
Their results agree in the sense each part needs: a chain's walk ends on agreeing
scopes with agreeing rests, a case matches on both sides or on neither, and bound
arguments make frames with the same names.

An erased expression keeps everything evaluation reads of it besides positions and
statement names: its kind, its static type, and its shape.
-/

namespace Retl

open Eval
open Retl.Tree (LitNode)

namespace Expr

@[simp] theorem kind_erase (e : Expr) : e.erase.kind = e.kind := by
  cases e <;> rfl

@[simp] theorem eraseAll_eq_map (es : List Expr) : Expr.eraseAll es = es.map Expr.erase := by
  induction es with
  | nil => rfl
  | cons e es ih => simp only [Expr.eraseAll, ih, List.map_cons]

@[simp] theorem eraseOpt_eq_map (k : Option Expr) : Expr.eraseOpt k = k.map Expr.erase := by
  cases k <;> rfl

@[simp] theorem eraseCases_eq_map (cs : List (Case × Expr)) :
    Expr.eraseCases cs = cs.map fun c => (c.1.erase, c.2.erase) := by
  induction cs with
  | nil => rfl
  | cons c cs ih => simp only [Expr.eraseCases, ih, List.map_cons]

@[simp] theorem eraseEntries_eq_map (ps : List (LitNode × Expr)) :
    Expr.eraseEntries ps = ps.map fun p => (p.1.erase, p.2.erase) := by
  induction ps with
  | nil => rfl
  | cons p ps ih => simp only [Expr.eraseEntries, ih, List.map_cons]

@[simp] theorem readsUserNamesAll_eq_all (es : List Expr) :
    Expr.readsUserNamesAll es = es.all Expr.readsUserNames := by
  induction es with
  | nil => rfl
  | cons e es ih => simp only [Expr.readsUserNamesAll, ih, List.all_cons]

@[simp] theorem readsUserNamesOpt_eq_all (k : Option Expr) :
    Expr.readsUserNamesOpt k = k.all Expr.readsUserNames := by
  cases k <;> rfl

@[simp] theorem readsUserNamesCases_eq_all (cs : List (Case × Expr)) :
    Expr.readsUserNamesCases cs = cs.all fun c => c.1.readsUserNames && c.2.readsUserNames := by
  induction cs with
  | nil => rfl
  | cons c cs ih => simp only [Expr.readsUserNamesCases, ih, List.all_cons, Bool.and_assoc]

@[simp] theorem readsUserNamesEntries_eq_all (ps : List (LitNode × Expr)) :
    Expr.readsUserNamesEntries ps = ps.all fun p => p.2.readsUserNames := by
  induction ps with
  | nil => rfl
  | cons p ps ih => simp only [Expr.readsUserNamesEntries, ih, List.all_cons]

mutual

@[simp] theorem static_erase (e : Expr) : e.erase.static = e.static := by
  cases e with
  | bind n t v k p => simp only [Expr.erase, Expr.static, staticOpt_erase k]
  | aliasType n t k p => simp only [Expr.erase, Expr.static, staticOpt_erase k]
  | list es p => simp only [Expr.erase, Expr.static, listStatic_erase es]
  | tuple es p => simp only [Expr.erase, Expr.static, anyUnknown_erase es, statics_erase es]
  | access t i p => simp only [Expr.erase, Expr.static, static_erase t]
  | _ => rfl
termination_by sizeOf e
decreasing_by
  all_goals
    subst_vars
    simp only [Expr.bind.sizeOf_spec, Expr.aliasType.sizeOf_spec, Expr.list.sizeOf_spec,
      Expr.tuple.sizeOf_spec, Expr.access.sizeOf_spec]
    omega

theorem staticOpt_erase (k : Option Expr) : Expr.staticOpt (Expr.eraseOpt k) = Expr.staticOpt k := by
  match k with
  | none => rfl
  | some e => simp only [Expr.eraseOpt, Expr.staticOpt, static_erase e]
termination_by sizeOf k
decreasing_by
  all_goals
    simp only [Option.some.sizeOf_spec]
    omega

theorem listStatic_erase (es : List Expr) : Expr.listStatic (Expr.eraseAll es) = Expr.listStatic es := by
  match es with
  | [] => rfl
  | e :: es => simp only [Expr.eraseAll, Expr.listStatic, static_erase e, anyUnknown_erase es]
termination_by sizeOf es
decreasing_by
  all_goals
    simp only [List.cons.sizeOf_spec]
    omega

theorem statics_erase (es : List Expr) : Expr.statics (Expr.eraseAll es) = Expr.statics es := by
  match es with
  | [] => rfl
  | e :: es => simp only [Expr.eraseAll, Expr.statics, static_erase e, statics_erase es]
termination_by sizeOf es
decreasing_by
  all_goals
    simp only [List.cons.sizeOf_spec]
    omega

theorem anyUnknown_erase (es : List Expr) : Expr.anyUnknown (Expr.eraseAll es) = Expr.anyUnknown es := by
  match es with
  | [] => rfl
  | e :: es => simp only [Expr.eraseAll, Expr.anyUnknown, static_erase e, anyUnknown_erase es]
termination_by sizeOf es
decreasing_by
  all_goals
    simp only [List.cons.sizeOf_spec]
    omega

end

theorem forall₂_same_iff {es₁ es₂ : List Expr} :
    List.Forall₂ Expr.Same es₁ es₂ ↔
      es₁.map Expr.erase = es₂.map Expr.erase ∧ es₁.all Expr.readsUserNames = true := by
  induction es₁ generalizing es₂ with
  | nil => cases es₂ <;> simp
  | cons e es ih =>
    cases es₂ with
    | nil => simp
    | cons e' es' =>
      simp only [List.forall₂_cons, ih, List.map_cons, List.cons.injEq, List.all_cons,
        Bool.and_eq_true]
      exact ⟨fun ⟨h, h'⟩ => ⟨⟨h.erase, h'.1⟩, h.reads, h'.2⟩,
        fun ⟨⟨h₁, h₂⟩, h₃, h₄⟩ => ⟨⟨h₁, h₃⟩, h₂, h₄⟩⟩

/-- Whether an expression is a link of a statement chain: a binding or an alias. -/
def isLink : Expr → Bool
  | .bind .. | .aliasType .. => true
  | _ => false

@[simp] theorem isLink_erase (e : Expr) : e.erase.isLink = e.isLink := by
  cases e <;> rfl

end Expr

/-- A search along related lists with predicates that agree on related elements finds
related elements, or nothing on both sides. -/
theorem forall₂_find? {ρ₁ ρ₂ : Type} {R : ρ₁ → ρ₂ → Prop} {l₁ : List ρ₁} {l₂ : List ρ₂}
    {p₁ : ρ₁ → Bool} {p₂ : ρ₂ → Bool} (h : List.Forall₂ R l₁ l₂)
    (hp : ∀ a b, R a b → p₁ a = p₂ b) : Option.Rel R (l₁.find? p₁) (l₂.find? p₂) := by
  induction h with
  | nil => exact .none
  | cons hab _ ih =>
    rw [List.find?_cons, List.find?_cons, hp _ _ hab]
    split
    · exact .some hab
    · exact ih

/-- `forall₂_find?` with the searches named by equations, so that the predicates are taken
from where the searches stand. -/
theorem forall₂_find?_of_eq {ρ₁ ρ₂ : Type} {R : ρ₁ → ρ₂ → Prop} {l₁ : List ρ₁} {l₂ : List ρ₂}
    {p₁ : ρ₁ → Bool} {p₂ : ρ₂ → Bool} {r₁ : Option ρ₁} {r₂ : Option ρ₂}
    (h : List.Forall₂ R l₁ l₂) (h₁ : l₁.find? p₁ = r₁) (h₂ : l₂.find? p₂ = r₂)
    (hp : ∀ a b, R a b → p₁ a = p₂ b) : Option.Rel R r₁ r₂ :=
  h₁ ▸ h₂ ▸ forall₂_find? h hp

/-- Two pairs of values agree component by component. -/
def Value.PairSame (a b : Value × Value) : Prop := Value.Same a.1 b.1 ∧ Value.Same a.2 b.2

theorem Value.forall₂_pairSame_iff {ps₁ ps₂ : List (Value × Value)} :
    List.Forall₂ Value.PairSame ps₁ ps₂ ↔
      ps₁.map (fun p => (p.1.erase, p.2.erase)) = ps₂.map (fun p => (p.1.erase, p.2.erase)) ∧
        (ps₁.all fun p => p.1.tidy && p.2.tidy) = true := by
  induction ps₁ generalizing ps₂ with
  | nil => cases ps₂ <;> simp
  | cons a ps ih =>
    cases ps₂ with
    | nil => simp
    | cons b ps' =>
      simp only [List.forall₂_cons, ih, List.map_cons, List.cons.injEq, Prod.mk.injEq,
        List.all_cons, Bool.and_eq_true, Value.PairSame]
      exact ⟨fun ⟨⟨h₁, h₂⟩, h₃, h₄⟩ => ⟨⟨⟨h₁.erase, h₂.erase⟩, h₃⟩, ⟨h₁.tidy, h₂.tidy⟩, h₄⟩,
        fun ⟨⟨⟨h₁, h₂⟩, h₃⟩, ⟨h₄, h₅⟩, h₆⟩ => ⟨⟨⟨h₁, h₄⟩, ⟨h₂, h₅⟩⟩, h₃, h₆⟩⟩

namespace Value.Same

variable {v : Value}

@[simp] theorem char_left {c : Char} : Value.Same (.char c) v ↔ v = .char c :=
  ⟨fun h => Value.erase_eq_char.mp (by simpa only [Value.erase] using h.erase.symm),
    by rintro rfl; exact refl rfl⟩

@[simp] theorem null_left : Value.Same .null v ↔ v = .null :=
  ⟨fun h => Value.erase_eq_null.mp (by simpa only [Value.erase] using h.erase.symm),
    by rintro rfl; exact refl rfl⟩

@[simp] theorem error_left {m : String} : Value.Same (.error m) v ↔ v = .error m :=
  ⟨fun h => Value.erase_eq_error.mp (by simpa only [Value.erase] using h.erase.symm),
    by rintro rfl; exact refl rfl⟩

theorem dict_inv {ps₁ : List (Value × Value)} {t : Ty} (h : Value.Same (.dict ps₁ t) v) :
    ∃ ps₂, v = .dict ps₂ t ∧ List.Forall₂ Value.PairSame ps₁ ps₂ := by
  obtain ⟨he, ht⟩ := h
  cases v <;> simp only [Value.erase, erasePairs_eq_map, reduceCtorEq, Value.dict.injEq] at he
  obtain ⟨hps, rfl⟩ := he
  refine ⟨_, rfl, Value.forall₂_pairSame_iff.mpr ⟨hps, ?_⟩⟩
  simpa [Value.tidy, Bool.and_assoc] using ht

theorem func_inv {i : FuncId} {ps : List (String × Ty)} {r : Ty} {b₁ : Option Expr}
    {c₁ : Env} {t : Ty} (h : Value.Same (.func i ps r b₁ c₁ t) v) :
    ∃ b₂ c₂, v = .func i ps r b₂ c₂ t ∧ Option.Rel Expr.Same b₁ b₂ ∧ Env.Same c₁ c₂ := by
  obtain ⟨he, ht⟩ := h
  cases v <;> simp only [Value.erase, reduceCtorEq, Value.func.injEq] at he
  obtain ⟨rfl, rfl, rfl, hb, hc, rfl⟩ := he
  simp only [Value.tidy, Bool.and_eq_true] at ht
  refine ⟨_, _, rfl, ?_, ⟨hc, ht.2⟩⟩
  cases b₁ <;> cases ‹Option Expr› <;> simp at hb
  · exact .none
  · exact .some ⟨hb, by simpa using ht.1⟩

end Value.Same

theorem isStatementName_eq_of_eraseName {x₁ x₂ : String} (h : eraseName x₁ = eraseName x₂) :
    isStatementName x₁ = isStatementName x₂ := by
  have hdummy : isStatementName "dummy$" = true := by decide +kernel
  unfold eraseName at h
  split at h <;> split at h
  all_goals simp_all

namespace Env.Same

variable {env₁ env₂ : Env}

/-- A binding of a statement's value on the second side only is invisible too. -/
theorem bind_statement_right (h : Env.Same env₁ env₂) {d : String}
    (hd : isStatementName d = true) (v : Value) : Env.Same env₁ (env₂.bind d v) :=
  ⟨by simp only [Env.erase_bind, hd, if_true, h.erase], h.tidy⟩

/-- Bindings of agreeing values to names that erase alike: the same name, or two statement
names. -/
theorem bind_erased (h : Env.Same env₁ env₂) {x₁ x₂ : String} (hx : eraseName x₁ = eraseName x₂)
    {v₁ v₂ : Value} (hv : Value.Same v₁ v₂) : Env.Same (env₁.bind x₁ v₁) (env₂.bind x₂ v₂) := by
  have hs := isStatementName_eq_of_eraseName hx
  cases h₁ : isStatementName x₁
  · have hname : x₁ = x₂ := by simpa [eraseName, h₁, ← hs] using hx
    exact hname ▸ h.bind x₁ hv
  · exact (h.bind_statement h₁ hv.tidy).bind_statement_right (hs ▸ h₁) v₂

end Env.Same

namespace Eval

variable {p : String} {k₁ k₂ : Engine}

/-- What two walks over a statement chain end with: agreeing rests and agreeing scopes. -/
def WalkSame (r₁ r₂ : Option Expr × Env) : Prop :=
  Option.Rel Expr.Same r₁.1 r₂.1 ∧ Env.Same r₁.2 r₂.2

theorem walkLinks_of_isLink {e : Expr} (h : e.isLink = false) (k : Engine) (env : Env) :
    walkLinks k env e = pure (some e, env) := by
  cases e <;> simp_all [Expr.isLink, walkLinks]

theorem walkLinks_same (hk : EngineSame k₁ k₂) {env₁ : Env} {e₁ : Expr} :
    ∀ {env₂ : Env} {e₂ : Expr}, Env.Same env₁ env₂ → Expr.Same e₁ e₂ →
      Sim p (walkLinks k₁ env₁ e₁) (walkLinks k₂ env₂ e₂) WalkSame := by
  fun_induction walkLinks k₁ env₁ e₁ with
  | case1 env name t value next pos ih =>
    rintro env₂ e₂ henv ⟨he, hr⟩
    cases e₂ <;> simp only [Expr.erase, reduceCtorEq, Expr.bind.injEq] at he
    case bind name₂ t₂ value₂ next₂ pos₂ =>
    obtain ⟨hname, rfl, hvalue, hnext, -⟩ := he
    simp only [Expr.readsUserNames, Bool.and_eq_true] at hr
    simp only [walkLinks]
    refine (hk.eval p _ _ _ _ _ henv ⟨hvalue, hr.1⟩).bind fun v₁ v₂ hv => ?_
    have henv' := henv.bind_erased hname hv
    have ih' := ih v₁
    -- both chains go on, or both end here
    cases next <;> cases next₂ <;> simp at hnext
    · exact Sim.pure ⟨.none, henv'⟩
    · exact ih' henv' ⟨hnext, by simpa using hr.2⟩
  | case2 env name t pos =>
    rintro env₂ e₂ henv ⟨he, -⟩
    cases e₂ <;> simp only [Expr.erase, reduceCtorEq, Expr.aliasType.injEq] at he
    case aliasType name₂ t₂ next₂ pos₂ =>
    obtain ⟨rfl, rfl, hnext, -⟩ := he
    cases next₂ <;> simp at hnext
    exact Sim.pure ⟨.none, henv⟩
  | case3 env name t pos n ih =>
    rintro env₂ e₂ henv ⟨he, hr⟩
    cases e₂ <;> simp only [Expr.erase, reduceCtorEq, Expr.aliasType.injEq] at he
    case aliasType name₂ t₂ next₂ pos₂ =>
    obtain ⟨rfl, rfl, hnext, -⟩ := he
    cases next₂ <;> simp at hnext
    simp only [walkLinks]
    exact ih henv ⟨hnext, by simpa [Expr.readsUserNames] using hr⟩
  | case4 env e hbind halias =>
    intro env₂ e₂ henv hsame
    have h₁ : e.isLink = false := by
      cases e
      case bind => exact (hbind _ _ _ _ _ rfl).elim
      case aliasType => exact (halias _ _ _ _ rfl).elim
      all_goals rfl
    have h₂ : e₂.isLink = false := by
      rw [← Expr.isLink_erase, ← hsame.erase, Expr.isLink_erase, h₁]
    rw [walkLinks_of_isLink h₂]
    exact Sim.pure ⟨.some hsame, henv⟩

theorem walkBindings_same (hk : EngineSame k₁ k₂) {env₁ env₂ : Env} {e₁ e₂ : Expr}
    (henv : Env.Same env₁ env₂) (he : Expr.Same e₁ e₂) :
    Sim p (walkBindings k₁ env₁ (some e₁)) (walkBindings k₂ env₂ (some e₂)) WalkSame := by
  rw [walkBindings_some, walkBindings_some]
  exact walkLinks_same hk henv he

/-- How a case met the subject, alike on both sides: matching in agreeing scopes, skipped,
or failed on agreeing guard values. -/
def CaseSame : CaseOutcome → CaseOutcome → Prop
  | .matched env₁, .matched env₂ => Env.Same env₁ env₂
  | .skipped, .skipped => True
  | .failed g₁, .failed g₂ => Value.Same g₁ g₂
  | _, _ => False

theorem literalMatches_erase (v : Value) (l : Literal) :
    literalMatches v.erase l = literalMatches v l := by
  cases l <;> cases v <;> rfl

theorem literalMatches_eq {v₁ v₂ : Value} (h : Value.Same v₁ v₂) (l : Literal) :
    literalMatches v₁ l = literalMatches v₂ l := by
  rw [← literalMatches_erase v₁, h.erase, literalMatches_erase]

theorem tryCase_same (hk : EngineSame k₁ k₂) {env₁ env₂ : Env} (henv : Env.Same env₁ env₂)
    {s₁ s₂ : Value} (hs : Value.Same s₁ s₂) {c₁ c₂ : Case} (hc : c₁.erase = c₂.erase)
    (hr : c₁.readsUserNames = true) :
    Sim p (tryCase k₁ env₁ s₁ c₁) (tryCase k₂ env₂ s₂ c₂) CaseSame := by
  cases c₁ with
  | any pos =>
    cases c₂ <;> simp only [Case.erase, reduceCtorEq] at hc
    exact Sim.pure henv
  | typed name t pred pos =>
    cases c₂ <;> simp only [Case.erase, reduceCtorEq, Case.typed.injEq] at hc
    case typed name₂ t₂ pred₂ pos₂ =>
    obtain ⟨rfl, rfl, hpred, -⟩ := hc
    simp only [tryCase, hs.type_eq]
    refine Sim.ite (Sim.pure trivial) ?_
    have henv' := henv.bind name hs
    cases pred <;> cases pred₂ <;> simp at hpred
    · exact Sim.pure henv'
    · refine (hk.eval p _ _ .bool _ _ henv'
        ⟨hpred, by simpa [Case.readsUserNames] using hr⟩).bind fun g₁ g₂ hg => ?_
      -- the guard's values agree, so both take the same arm
      split <;> split <;> first
        | exact Sim.pure henv'
        | exact Sim.pure trivial
        | exact Sim.pure hg
        | simp_all
  | literal ln pos =>
    cases c₂ <;> simp only [Case.erase, reduceCtorEq, Case.literal.injEq] at hc
    case literal ln₂ pos₂ =>
    have hl : ln.literal = ln₂.literal := by
      have h := congrArg Tree.LitNode.literal hc.1
      exact h
    simp only [tryCase, literalMatches_eq hs, hl]
    split
    · exact Sim.pure henv
    · exact Sim.pure trivial
  | multi lits pos =>
    cases c₂ <;> simp only [Case.erase, reduceCtorEq, Case.multi.injEq] at hc
    case multi lits₂ pos₂ =>
    have hl : lits.map Tree.LitNode.literal = lits₂.map Tree.LitNode.literal := by
      simpa [List.map_map, Function.comp_def, Tree.LitNode.erase] using
        congrArg (List.map Tree.LitNode.literal) hc.1
    have hany : (lits.any fun ln => literalMatches s₁ ln.literal) =
        lits₂.any fun ln => literalMatches s₂ ln.literal := by
      simp only [literalMatches_eq hs]
      rw [show (fun ln : LitNode => literalMatches s₂ ln.literal) =
          (literalMatches s₂) ∘ Tree.LitNode.literal from rfl, ← List.any_map, ← List.any_map, hl]
    simp only [tryCase, hany]
    split
    · exact Sim.pure henv
    · exact Sim.pure trivial
  | range lo hi pos =>
    cases c₂ <;> simp only [Case.erase, reduceCtorEq, Case.range.injEq] at hc
    case range lo₂ hi₂ pos₂ =>
    obtain ⟨rfl, rfl, -⟩ := hc
    simp only [tryCase]
    cases s₁ with
    | int n =>
      obtain rfl := Value.Same.int_left.mp hs
      dsimp only
      split
      · exact Sim.pure henv
      · exact Sim.pure trivial
    | _ =>
      dsimp only
      split
      · simp at hs
      · exact Sim.pure trivial

/-- Two arms of `match`es agree: their patterns are equal up to erasure, the first's reads
no statement name, and their bodies agree. -/
def ArmSame (a b : Case × Expr) : Prop :=
  a.1.erase = b.1.erase ∧ a.1.readsUserNames = true ∧ Expr.Same a.2 b.2

theorem matchCases_same (hk : EngineSame k₁ k₂) {env₁ env₂ : Env} (henv : Env.Same env₁ env₂)
    {s₁ s₂ : Value} (hs : Value.Same s₁ s₂) {cs₁ cs₂ : List (Case × Expr)}
    (hcs : List.Forall₂ ArmSame cs₁ cs₂) (t : Ty) (pos₁ pos₂ : Position) :
    Sim p (matchCases k₁ env₁ t s₁ pos₁ cs₁) (matchCases k₂ env₂ t s₂ pos₂ cs₂) Value.Same := by
  induction hcs with
  | nil => exact Sim.fail_eq (by rw [hs.render_eq]) _ _
  | @cons a₁ a₂ cs₁ cs₂ harm _ ih =>
    obtain ⟨c₁, b₁⟩ := a₁
    obtain ⟨c₂, b₂⟩ := a₂
    obtain ⟨hc, hr, hb⟩ := harm
    simp only [matchCases]
    refine (tryCase_same hk henv hs hc hr).bind fun o₁ o₂ ho => ?_
    cases o₁ <;> cases o₂ <;> simp only [CaseSame] at ho
    · exact hk.eval p _ _ t _ _ ho hb
    · exact ih
    · exact Sim.pure ho

theorem firstError_same {vs₁ vs₂ : List Value} (h : List.Forall₂ Value.Same vs₁ vs₂) :
    Option.Rel Value.Same (firstError vs₁) (firstError vs₂) :=
  forall₂_find? h fun _ _ hv => hv.isError_eq

/-- Indexing agreeing lists at the same index. -/
theorem index_same {es₁ es₂ : List Value} (hes : List.Forall₂ Value.Same es₁ es₂) (i : Int)
    (t : Ty) (pos₁ pos₂ : Position) :
    Sim p (match (if 0 ≤ i then es₁[i.toNat]? else none) with
        | some v => conformValue v t pos₁
        | none => fail (indexMessage "List" i es₁.length) pos₁)
      (match (if 0 ≤ i then es₂[i.toNat]? else none) with
        | some v => conformValue v t pos₂
        | none => fail (indexMessage "List" i es₂.length) pos₂) Value.Same := by
  have hl : Option.Rel Value.Same (if 0 ≤ i then es₁[i.toNat]? else none)
      (if 0 ≤ i then es₂[i.toNat]? else none) := by
    split
    · exact forall₂_getElem? hes _
    · exact .none
  rw [hes.length_eq]
  generalize (if 0 ≤ i then es₁[i.toNat]? else none) = r₁ at hl ⊢
  generalize (if 0 ≤ i then es₂[i.toNat]? else none) = r₂ at hl ⊢
  cases hl with
  | none => exact Sim.fail _ _ _
  | some hv => exact Sim.conformValue hv _ _ _

/-- An index evaluated on both sides: an integer goes on alike, anything else is the
result. -/
theorem intArm_same {i₁ i₂ : Value} (hi : Value.Same i₁ i₂) {f₁ f₂ : Int → Eval Value}
    (hf : ∀ n, Sim p (f₁ n) (f₂ n) Value.Same) :
    Sim p (match i₁ with
        | .int n => f₁ n
        | bad => pure bad)
      (match i₂ with
        | .int n => f₂ n
        | bad => pure bad) Value.Same := by
  cases i₁ with
  | int n =>
    obtain rfl := Value.Same.int_left.mp hi
    exact hf n
  | _ =>
    dsimp only
    split
    · simp at hi
    · exact Sim.pure hi

theorem applyTo_same (hk : EngineSame k₁ k₂) {env₁ env₂ : Env} (henv : Env.Same env₁ env₂)
    {f₁ f₂ : Value} (hf : Value.Same f₁ f₂) {args₁ args₂ : List Expr}
    (hargs : List.Forall₂ Expr.Same args₁ args₂) (t : Ty) (pos₁ pos₂ : Position) :
    Sim p (applyTo k₁ env₁ t f₁ args₁ pos₁) (applyTo k₂ env₂ t f₂ args₂ pos₂) Value.Same := by
  -- what a value gives that cannot take these arguments
  have hcannot : Sim p
      (fail ("Cannot apply value of type " ++ f₁.type.render ++ " to " ++
        toString args₁.length ++ " arguments") pos₁)
      (fail ("Cannot apply value of type " ++ f₂.type.render ++ " to " ++
        toString args₂.length ++ " arguments") pos₂) Value.Same :=
    Sim.fail_eq (by rw [hf.type_eq, hargs.length_eq]) _ _
  cases f₁ with
  | string s =>
    obtain rfl := Value.Same.string_left.mp hf
    rcases hargs with _ | ⟨ha, _ | ⟨-, -⟩⟩
    · exact hcannot
    · refine (hk.eval p _ _ .int _ _ henv ha).bind fun i₁ i₂ hi => intArm_same hi fun i => ?_
      cases (if 0 ≤ i then s.toList[i.toNat]? else none) with
      | none => exact Sim.fail _ _ _
      | some c => exact Sim.conformValue (Value.Same.refl rfl) _ _ _
    · exact hcannot
  | list es ty =>
    obtain ⟨es₂, rfl, hes⟩ := hf.list_inv
    rcases hargs with _ | ⟨ha, _ | ⟨-, -⟩⟩
    · exact hcannot
    · exact (hk.eval p _ _ .int _ _ henv ha).bind fun i₁ i₂ hi =>
        intArm_same hi fun i => index_same hes i t pos₁ pos₂
    · exact hcannot
  | table cs rs ty =>
    obtain ⟨rs₂, rfl, hrs⟩ := hf.table_inv
    rcases hargs with _ | ⟨ha, _ | ⟨-, -⟩⟩
    · exact hcannot
    · exact (hk.eval p _ _ .int _ _ henv ha).bind fun i₁ i₂ hi =>
        intArm_same hi fun i => index_same hrs i t pos₁ pos₂
    · exact hcannot
  | dict ps ty =>
    obtain ⟨ps₂, rfl, hps⟩ := hf.dict_inv
    rcases hargs with _ | ⟨ha, _ | ⟨-, -⟩⟩
    · exact hcannot
    · refine (hk.eval p _ _ _ _ _ henv ha).bind fun key₁ key₂ hkey => ?_
      dsimp only
      rw [hkey.isError_eq]
      refine Sim.ite (Sim.pure hkey) ?_
      -- the searches for the key meet agreeing pairs, or none
      have hpred : ∀ a b, Value.PairSame a b →
          Value.equal a.1 key₁ = Value.equal b.1 key₂ :=
        fun _ _ hab => hab.1.equal_eq hkey
      split
      next _ v₁ heq₁ =>
        split
        next _ v₂ heq₂ =>
          cases forall₂_find?_of_eq hps heq₁ heq₂ hpred with
          | some h => exact Sim.conformValue h.2 _ _ _
        next heq₂ => cases forall₂_find?_of_eq hps heq₁ heq₂ hpred
      next heq₁ =>
        split
        next _ v₂ heq₂ => cases forall₂_find?_of_eq hps heq₁ heq₂ hpred
        next heq₂ => exact Sim.fail_eq (by rw [hkey.render_eq]) _ _
    · exact hcannot
  | func id params result body closure ty =>
    obtain ⟨b₂, c₂, rfl, -, -⟩ := hf.func_inv
    dsimp only [applyTo]
    rw [hargs.length_eq]
    refine Sim.ite (Sim.fail _ _ _) ?_
    have hparams : List.Forall₂ (· = ·) params params := List.forall₂_same.mpr fun _ _ => rfl
    have hzip := forall₂_zip_zip hargs hparams
    refine (Sim.mapM (S := Value.Same) hzip fun x y hxy => ?_).bind fun vs₁ vs₂ hvs => ?_
    · obtain ⟨a₁, n₁, t₁⟩ := x
      obtain ⟨a₂, n₂, t₂⟩ := y
      obtain ⟨ha, heq⟩ := hxy
      cases heq
      exact hk.eval p _ _ _ _ _ henv ha
    · have hfe := firstError_same hvs
      generalize firstError vs₁ = r₁ at hfe ⊢
      generalize firstError vs₂ = r₂ at hfe ⊢
      cases hfe with
      | some hbad => exact Sim.pure hbad
      | none =>
        exact (hk.call p _ _ _ _ _ _ hf hvs).bind fun r₁ r₂ hr => Sim.conformValue hr _ _ _
  | tuple es ty =>
    obtain ⟨es₂, rfl, -⟩ := hf.tuple_inv
    rcases hargs with _ | ⟨-, _ | ⟨-, -⟩⟩ <;> exact hcannot
  | _ =>
    simp only [Value.Same.int_left, Value.Same.bool_left, Value.Same.char_left,
      Value.Same.null_left, Value.Same.schema_left, Value.Same.error_left] at hf
    subst hf
    rcases hargs with _ | ⟨-, _ | ⟨-, -⟩⟩ <;> exact hcannot

/-- What binding arguments gives on both sides: agreeing errors, or frames with the same
names bound to agreeing values. -/
def ArgsSame : Except Value Frame → Except Value Frame → Prop
  | .error v₁, .error v₂ => Value.Same v₁ v₂
  | .ok f₁, .ok f₂ => Env.FrameSame f₁ f₂
  | _, _ => False

theorem bindArgs_same (fn : String) (pos₁ pos₂ : Position) {vs₁ vs₂ : List Value}
    (hvs : List.Forall₂ Value.Same vs₁ vs₂) :
    ∀ {frame₁ frame₂ : Frame} (params : List (String × Ty)), Env.FrameSame frame₁ frame₂ →
      Sim p (bindArgs fn pos₁ frame₁ vs₁ params) (bindArgs fn pos₂ frame₂ vs₂ params) ArgsSame := by
  induction hvs with
  | nil =>
    intro frame₁ frame₂ params hf
    exact Sim.pure hf
  | @cons v₁ v₂ vs₁ vs₂ hv _ ih =>
    intro frame₁ frame₂ params hf
    cases params with
    | nil => exact Sim.pure hf
    | cons param params =>
      obtain ⟨name, t⟩ := param
      simp only [bindArgs]
      rw [hv.isError_eq, hv.type_eq, hv.requires_eq]
      refine Sim.ite (Sim.pure hv) ?_
      cases v₂.type.conform? t with
      | some r => exact ih params (hf.set name (hv.retype r))
      | none => exact (Sim.record _ _ _ _).bind fun _ _ _ => Sim.pure (Value.Same.error _)

/-- The arguments a builtin is run on, read back from frames that agree, agree. -/
theorem paramValues_same {f₁ f₂ : Frame} (h : Env.FrameSame f₁ f₂)
    (params : List (String × Ty)) :
    List.Forall₂ Value.Same
      (params.filterMap fun (n, _) => (f₁.find? (·.1 == n)).map Prod.snd)
      (params.filterMap fun (n, _) => (f₂.find? (·.1 == n)).map Prod.snd) := by
  induction params with
  | nil => exact .nil
  | cons param params ih =>
    obtain ⟨n, t⟩ := param
    have hn := h.find? n
    simp only [List.filterMap_cons]
    generalize (f₁.find? fun b => b.1 == n).map Prod.snd = o₁ at hn ⊢
    generalize (f₂.find? fun b => b.1 == n).map Prod.snd = o₂ at hn ⊢
    cases hn with
    | none => exact ih
    | some hv => exact .cons hv ih

theorem callStep_same (hk : EngineSame k₁ k₂) (cfg : RunConfig) {f₁ f₂ : Value}
    (hf : Value.Same f₁ f₂) {args₁ args₂ : List Value} (hargs : List.Forall₂ Value.Same args₁ args₂)
    (pos₁ pos₂ : Position) :
    Sim p (callStep k₁ cfg f₁ args₁ pos₁) (callStep k₂ cfg f₂ args₂ pos₂) Value.Same := by
  cases f₁ with
  | func id params result body closure ty =>
    obtain ⟨b₂, c₂, rfl, hb, hc⟩ := hf.func_inv
    dsimp only [callStep]
    rw [hargs.length_eq]
    refine Sim.ite (Sim.fail _ _ _) ?_
    refine (bindArgs_same _ _ _ hargs params List.Forall₂.nil).bind fun r₁ r₂ hr => ?_
    cases r₁ <;> cases r₂ <;> simp only [ArgsSame] at hr
    · exact Sim.pure hr
    · cases id with
      | builtin b =>
        exact (Sim.trace cfg _).bind fun _ _ _ =>
          Builtins.run_same hk b (paramValues_same hr params) _ _
      | lambda n =>
        cases hb with
        | none => exact Sim.pure (Value.Same.refl rfl)
        | some hbody => exact hk.eval p _ _ result _ _ (hc.cons hr) hbody
  | _ =>
    dsimp only [callStep]
    split
    · have he := hf.erase
      simp [Value.erase] at he
    · exact Sim.fail_eq (by rw [hf.type_eq, hargs.length_eq]) _ _

/-- Two entries of dictionary literals agree: the same key literal, and agreeing value
expressions. -/
def EntrySame (a b : LitNode × Expr) : Prop := a.1.literal = b.1.literal ∧ Expr.Same a.2 b.2

theorem lit_same (l : Literal) (pos₁ pos₂ : Position) : Expr.Same (.lit l pos₁) (.lit l pos₂) :=
  ⟨rfl, rfl⟩

theorem dictPairs_same (hk : EngineSame k₁ k₂) {env₁ env₂ : Env} (henv : Env.Same env₁ env₂)
    (kt vt : Ty) {ps₁ ps₂ : List (LitNode × Expr)} (hps : List.Forall₂ EntrySame ps₁ ps₂) :
    Sim p (dictPairs k₁ env₁ kt vt ps₁) (dictPairs k₂ env₂ kt vt ps₂)
      fun r₁ r₂ => List.Forall₂ Value.PairSame r₁.1 r₂.1 ∧ r₁.2 = r₂.2 := by
  cases hps with
  | nil => exact Sim.pure ⟨.nil, rfl⟩
  | @cons a₁ a₂ rest₁ rest₂ ha hrest =>
    obtain ⟨kn₁, ve₁⟩ := a₁
    obtain ⟨kn₂, ve₂⟩ := a₂
    obtain ⟨hkn, hve⟩ := ha
    dsimp only [dictPairs]
    rw [hkn]
    refine (hk.eval p _ _ kt _ _ henv (lit_same _ _ _)).bind fun key₁ key₂ hkey => ?_
    refine (hk.eval p _ _ vt _ _ henv hve).bind fun val₁ val₂ hval => ?_
    -- the rest is evaluated under the types the first pair fixed, the same on both sides
    rw [hkey.type_eq, hval.type_eq]
    refine (Sim.mapM (S := Value.PairSame) hrest fun x y hxy => ?_).bind
      fun others₁ others₂ hothers => Sim.pure ⟨.cons ⟨hkey, hval⟩ hothers, rfl⟩
    obtain ⟨kx, vx⟩ := x
    obtain ⟨ky, vy⟩ := y
    obtain ⟨hkxy, hvxy⟩ := hxy
    dsimp only
    rw [hkxy]
    exact (hk.eval p _ _ _ _ _ henv (lit_same _ _ _)).bind fun _ _ hab =>
      (hk.eval p _ _ _ _ _ henv hvxy).bind fun _ _ hcd => Sim.pure ⟨hab, hcd⟩

end Eval

end Retl
