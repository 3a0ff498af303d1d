import Retl.Proofs.Erasure
import Retl.Proofs.EvalLogic
/-!
# Running alike

`Sim p x y R` says that the evaluation steps `x` and `y` run alike from machines that
agree: they end on machines that agree again, with results related by `R`, or with the
same halt. The one exception is running out of nesting depth: `x` may halt with
`Halt.tooDeep` whatever `y` does, so that `x` can be the same step given less fuel.

Machines agree (`MachineSame p`) when they hold the same diagnostics up to positions, the
same input, files and count of functions made, and the first has printed `p` before
everything the second printed; `p` stays fixed along a run, which lets a session's line,
printed from an empty output, be compared with the same statements inside a longer
script.

The rules below take the relation through the ways the evaluator composes steps, as
`Returns` does for one run.
-/

namespace Retl

namespace Eval

variable {α β γ δ : Type}

/-- Two machines agree up to the positions of diagnostics, once the first's output is
stripped of `p`. -/
structure MachineSame (p : String) (m₁ m₂ : Machine) : Prop where
  diagnostics : m₁.diagnostics.map Diagnostic.erase = m₂.diagnostics.map Diagnostic.erase
  output : m₁.output = p ++ m₂.output
  input : m₁.input = m₂.input
  files : m₁.files = m₂.files
  lambdas : m₁.lambdas = m₂.lambdas

/-- How two runs may end: the first ran out of depth, or both gave related results, or both
halted alike, on agreeing machines. -/
inductive Outcome (p : String) (R : α → β → Prop) :
    Except Halt α × Machine → Except Halt β × Machine → Prop
  | ranOut (m₁ : Machine) (r : Except Halt β × Machine) : Outcome p R (.error .tooDeep, m₁) r
  | ok {a : α} {b : β} {m₁ m₂ : Machine} (hab : R a b) (hm : MachineSame p m₁ m₂) :
      Outcome p R (.ok a, m₁) (.ok b, m₂)
  | halt {h : Halt} {m₁ m₂ : Machine} (hm : MachineSame p m₁ m₂) :
      Outcome p R (.error h, m₁) (.error h, m₂)

/-- From agreeing machines, `x` and `y` run alike, or `x` runs out of depth. -/
def Sim (p : String) (x : Eval α) (y : Eval β) (R : α → β → Prop) : Prop :=
  ∀ m₁ m₂, MachineSame p m₁ m₂ → Outcome p R (x.exec m₁) (y.exec m₂)

/-- What a pass of a loop gives on both sides: both go on, or both stop, with related
states. -/
def StepSame {σ₁ σ₂ : Type} (S : σ₁ → σ₂ → Prop) : ForInStep σ₁ → ForInStep σ₂ → Prop
  | .yield s₁, .yield s₂ => S s₁ s₂
  | .done s₁, .done s₂ => S s₁ s₂
  | _, _ => False

theorem Outcome.mono {p : String} {R S : α → β → Prop} {X : Except Halt α × Machine}
    {Y : Except Halt β × Machine} (h : Outcome p R X Y) (hRS : ∀ a b, R a b → S a b) :
    Outcome p S X Y := by
  cases h with
  | ranOut m => exact .ranOut m _
  | ok hab hm => exact .ok (hRS _ _ hab) hm
  | halt hm => exact .halt hm

/-- Zipping pairs of related lists gives related lists of pairs. -/
theorem forall₂_zip_zip {ρ₁ ρ₂ τ₁ τ₂ : Type} {R : ρ₁ → ρ₂ → Prop} {S : τ₁ → τ₂ → Prop}
    {as₁ : List ρ₁} {as₂ : List ρ₂} {bs₁ : List τ₁} {bs₂ : List τ₂}
    (h₁ : List.Forall₂ R as₁ as₂) (h₂ : List.Forall₂ S bs₁ bs₂) :
    List.Forall₂ (fun x y => R x.1 y.1 ∧ S x.2 y.2) (as₁.zip bs₁) (as₂.zip bs₂) := by
  induction h₁ generalizing bs₁ bs₂ with
  | nil => simp
  | cons hab _ ih =>
    cases h₂ with
    | nil => simp
    | cons hcd h₂ => exact .cons ⟨hab, hcd⟩ (ih h₂)

theorem forall₂_getElem? {ρ₁ ρ₂ : Type} {R : ρ₁ → ρ₂ → Prop} {as₁ : List ρ₁} {as₂ : List ρ₂}
    (h : List.Forall₂ R as₁ as₂) (i : Nat) : Option.Rel R as₁[i]? as₂[i]? := by
  induction h generalizing i with
  | nil => exact .none
  | cons hab _ ih =>
    cases i with
    | zero => exact .some hab
    | succ i => exact ih i

namespace Sim

variable {p : String}

theorem pure {a : α} {b : β} {R : α → β → Prop} (h : R a b) :
    Sim p (Pure.pure a) (Pure.pure b) R :=
  fun _ _ hm => .ok h hm

theorem throw (h : Halt) {R : α → β → Prop} :
    Sim p (MonadExcept.throw h : Eval α) (MonadExcept.throw h : Eval β) R :=
  fun _ _ hm => .halt hm

theorem throw_bind (h : Halt) {f : α → Eval γ} {g : β → Eval δ} {S : γ → δ → Prop} :
    Sim p (MonadExcept.throw h >>= f) (MonadExcept.throw h >>= g) S :=
  fun _ _ hm => .halt hm

theorem mono {x : Eval α} {y : Eval β} {R S : α → β → Prop} (hx : Sim p x y R)
    (h : ∀ a b, R a b → S a b) : Sim p x y S :=
  fun m₁ m₂ hm => (hx m₁ m₂ hm).mono h

theorem bind {x : Eval α} {y : Eval β} {f : α → Eval γ} {g : β → Eval δ}
    {R : α → β → Prop} {S : γ → δ → Prop} (hx : Sim p x y R)
    (hf : ∀ a b, R a b → Sim p (f a) (g b) S) : Sim p (x >>= f) (y >>= g) S := by
  intro m₁ m₂ hm
  rw [exec_bind, exec_bind]
  have hout := hx m₁ m₂ hm
  revert hout
  generalize x.exec m₁ = X
  generalize y.exec m₂ = Y
  intro hout
  cases hout with
  | ranOut m r => exact .ranOut m _
  | ok hab hm' => exact hf _ _ hab _ _ hm'
  | halt hm' => exact .halt hm'

theorem map {x : Eval α} {y : Eval β} {f : α → γ} {g : β → δ} {R : α → β → Prop}
    {S : γ → δ → Prop} (hx : Sim p x y R) (h : ∀ a b, R a b → S (f a) (g b)) :
    Sim p (f <$> x) (g <$> y) S := by
  rw [map_eq_pure_bind, map_eq_pure_bind]
  exact hx.bind fun a b hab => Sim.pure (h a b hab)

theorem ite {c : Prop} [Decidable c] {x₁ x₂ : Eval α} {y₁ y₂ : Eval β} {R : α → β → Prop}
    (h₁ : Sim p x₁ y₁ R) (h₂ : Sim p x₂ y₂ R) :
    Sim p (if c then x₁ else x₂) (if c then y₁ else y₂) R := by
  split
  · exact h₁
  · exact h₂

/-- Two loops over related lists run alike when every pair of passes does. -/
theorem forIn {σ₁ σ₂ ρ₁ ρ₂ : Type} {xs : List ρ₁} {ys : List ρ₂} {Rel : ρ₁ → ρ₂ → Prop}
    {b₁ : σ₁} {b₂ : σ₂} {f : ρ₁ → σ₁ → Eval (ForInStep σ₁)} {g : ρ₂ → σ₂ → Eval (ForInStep σ₂)}
    (hxy : List.Forall₂ Rel xs ys) (S : σ₁ → σ₂ → Prop) (hb : S b₁ b₂)
    (hf : ∀ x y, Rel x y → ∀ s₁ s₂, S s₁ s₂ → Sim p (f x s₁) (g y s₂) (StepSame S)) :
    Sim p (ForIn.forIn xs b₁ f) (ForIn.forIn ys b₂ g) S := by
  induction hxy generalizing b₁ b₂ with
  | nil => exact Sim.pure hb
  | cons hxy _ ih =>
    rw [List.forIn_cons, List.forIn_cons]
    refine (hf _ _ hxy b₁ b₂ hb).bind fun r₁ r₂ hr => ?_
    cases r₁ <;> cases r₂ <;> simp only [StepSame] at hr
    · exact Sim.pure hr
    · exact ih hr

/-- `mapM` over related lists gives related lists when every pair of calls runs alike. -/
theorem mapM {ρ₁ ρ₂ : Type} {xs : List ρ₁} {ys : List ρ₂} {Rel : ρ₁ → ρ₂ → Prop}
    {f : ρ₁ → Eval α} {g : ρ₂ → Eval β} {S : α → β → Prop} (hxy : List.Forall₂ Rel xs ys)
    (hf : ∀ x y, Rel x y → Sim p (f x) (g y) S) :
    Sim p (xs.mapM f) (ys.mapM g) (List.Forall₂ S) := by
  induction hxy with
  | nil => exact Sim.pure .nil
  | cons hxy _ ih =>
    rw [List.mapM_cons, List.mapM_cons]
    exact (hf _ _ hxy).bind fun a b hab =>
      ih.bind fun as bs habs => Sim.pure (.cons hab habs)

theorem forM {ρ₁ ρ₂ : Type} {xs : List ρ₁} {ys : List ρ₂} {Rel : ρ₁ → ρ₂ → Prop}
    {f : ρ₁ → Eval PUnit} {g : ρ₂ → Eval PUnit} (hxy : List.Forall₂ Rel xs ys)
    (hf : ∀ x y, Rel x y → Sim p (f x) (g y) fun _ _ => True) :
    Sim p (xs.forM f) (ys.forM g) fun _ _ => True := by
  induction hxy with
  | nil => exact Sim.pure trivial
  | cons hxy _ ih =>
    rw [List.forM.eq_2, List.forM.eq_2]
    exact (hf _ _ hxy).bind fun _ _ _ => ih

end Sim

theorem MachineSame.record {p : String} {m₁ m₂ : Machine} (hm : MachineSame p m₁ m₂)
    (sev : Severity) (message : String) (pos₁ pos₂ : Option Position) :
    MachineSame p { m₁ with diagnostics := m₁.diagnostics.push ⟨sev, message, pos₁⟩ }
      { m₂ with diagnostics := m₂.diagnostics.push ⟨sev, message, pos₂⟩ } :=
  { hm with diagnostics := by simp [hm.diagnostics, Diagnostic.erase] }

theorem MachineSame.emit {p : String} {m₁ m₂ : Machine} (hm : MachineSame p m₁ m₂)
    (text : String) :
    MachineSame p { m₁ with output := m₁.output ++ text } { m₂ with output := m₂.output ++ text } :=
  { hm with output := by simp [hm.output, String.append_assoc] }

namespace Sim

variable {p : String}

theorem record (sev : Severity) (message : String) (pos₁ pos₂ : Option Position) :
    Sim p (Eval.record sev message pos₁) (Eval.record sev message pos₂) fun _ _ => True :=
  fun _ _ hm => .ok trivial (hm.record sev message pos₁ pos₂)

theorem fail (message : String) (pos₁ pos₂ : Position) :
    Sim p (Eval.fail message pos₁) (Eval.fail message pos₂) Value.Same :=
  (record .evaluation message _ _).bind fun _ _ _ => Sim.pure (Value.Same.error message)

/-- Failing with the same message, however each side arrived at it. -/
theorem fail_eq {message₁ message₂ : String} (h : message₁ = message₂) (pos₁ pos₂ : Position) :
    Sim p (Eval.fail message₁ pos₁) (Eval.fail message₂ pos₂) Value.Same :=
  h ▸ fail message₁ pos₁ pos₂

theorem emit (text : String) : Sim p (Eval.emit text) (Eval.emit text) fun _ _ => True :=
  fun _ _ hm => .ok trivial (hm.emit text)

theorem trace (cfg : RunConfig) (line : String) :
    Sim p (Eval.trace cfg line) (Eval.trace cfg line) fun _ _ => True := by
  unfold Eval.trace
  exact Sim.ite (emit _) (Sim.pure trivial)

theorem readLine : Sim p Eval.readLine Eval.readLine Eq := by
  intro m₁ m₂ hm
  simp only [Eval.readLine, exec_modifyGet, hm.input]
  exact .ok rfl { hm with input := rfl }

theorem freshLambda : Sim p Eval.freshLambda Eval.freshLambda Eq := by
  intro m₁ m₂ hm
  simp only [Eval.freshLambda, exec_modifyGet, hm.lambdas]
  exact .ok rfl { hm with lambdas := rfl }

theorem get : Sim p (MonadState.get : Eval Machine) MonadState.get (MachineSame p) :=
  fun _ _ hm => .ok hm hm

theorem set {m₁ m₂ : Machine} (h : MachineSame p m₁ m₂) :
    Sim p (MonadStateOf.set m₁ : Eval PUnit) (MonadStateOf.set m₂) fun _ _ => True :=
  fun _ _ _ => .ok trivial h

theorem conformValue {v₁ v₂ : Value} (hv : Value.Same v₁ v₂) (t : Ty) (pos₁ pos₂ : Position) :
    Sim p (Eval.conformValue v₁ t pos₁) (Eval.conformValue v₂ t pos₂) Value.Same := by
  unfold Eval.conformValue
  rw [hv.isError_eq, hv.type_eq]
  split
  · exact Sim.pure hv
  · split
    · split
      · exact Sim.pure hv
      · exact Sim.pure (hv.retype _)
    · exact (record .type _ _ _).bind fun _ _ _ => Sim.pure (Value.Same.error _)

end Sim

end Eval

end Retl
