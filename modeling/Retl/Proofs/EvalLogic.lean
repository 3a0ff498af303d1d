import Mathlib
import Retl.Pipeline
/-!
# Reasoning about evaluation steps

An evaluation step is a computation in `Eval`: it reads and changes the machine, and it
may halt. Most facts about evaluation are promises about the results a step can give,
whatever machine it starts from and whatever it does to that machine on the way;
`Returns x Q` says that every result of `x` satisfies `Q`. A halt gives no result, so
it keeps every promise.

The rules below take such promises through the ways the evaluator composes steps:
sequencing, mapping, loops over lists with a state (`forIn`) and `mapM`. Each rule is
proved once from the equations of `Eval.exec`, so that later proofs never unfold the
monad.
-/

namespace Retl

namespace Eval

variable {α β γ : Type}

@[simp] theorem exec_pure (a : α) (m : Machine) : (pure a : Eval α).exec m = (.ok a, m) := rfl

@[simp] theorem exec_throw (h : Halt) (m : Machine) :
    (throw h : Eval α).exec m = (.error h, m) := rfl

theorem exec_bind (x : Eval α) (f : α → Eval β) (m : Machine) :
    (x >>= f).exec m = match x.exec m with
      | (.ok a, m') => (f a).exec m'
      | (.error h, m') => (.error h, m') := by
  simp only [Eval.exec, ExceptT.run_bind, StateT.run_bind]
  generalize x.run.run m = r
  rcases r with ⟨_ | _, m'⟩ <;> rfl

/-- A sequence that gives a result ran its first step to a result, and the rest from the
machine that step left. -/
theorem exec_bind_eq_ok {x : Eval α} {f : α → Eval β} {m m'' : Machine} {b : β}
    (h : (x >>= f).exec m = (.ok b, m'')) :
    ∃ a m', x.exec m = (.ok a, m') ∧ (f a).exec m' = (.ok b, m'') := by
  rw [exec_bind] at h
  generalize x.exec m = X at h
  rcases X with ⟨_ | a, m'⟩
  · cases h
  · exact ⟨a, m', rfl, h⟩

/-- `pure` gives its value and leaves the machine as it is. -/
theorem exec_pure_eq_ok {a b : α} {m m' : Machine} (h : (pure a : Eval α).exec m = (.ok b, m')) :
    a = b ∧ m = m' := by
  cases h
  exact ⟨rfl, rfl⟩

theorem exec_tryCatch (x : Eval α) (handle : Halt → Eval α) (m : Machine) :
    (tryCatch x handle).exec m = match x.exec m with
      | (.ok a, m') => (.ok a, m')
      | (.error h, m') => (handle h).exec m' := by
  simp only [Eval.exec, ExceptT.run_tryCatch, StateT.run_bind]
  generalize x.run.run m = r
  rcases r with ⟨_ | _, m'⟩ <;> rfl

@[simp] theorem exec_get (m : Machine) : (get : Eval Machine).exec m = (.ok m, m) := rfl

@[simp] theorem exec_set (m m' : Machine) : (set m' : Eval PUnit).exec m = (.ok ⟨⟩, m') := rfl

@[simp] theorem exec_modify (f : Machine → Machine) (m : Machine) :
    (modify f : Eval PUnit).exec m = (.ok ⟨⟩, f m) := rfl

@[simp] theorem exec_modifyGet (f : Machine → α × Machine) (m : Machine) :
    (modifyGet f : Eval α).exec m = (.ok (f m).1, (f m).2) := rfl

/-- Every result `x` gives, from any machine, satisfies `Q`; a halt promises nothing. -/
def Returns (x : Eval α) (Q : α → Prop) : Prop :=
  ∀ m a m', x.exec m = (.ok a, m') → Q a

namespace Returns

theorem pure {a : α} {Q : α → Prop} (h : Q a) : Returns (Pure.pure a) Q := by
  intro m a' m' hx
  exact (exec_pure_eq_ok hx).1 ▸ h

theorem throw {h : Halt} {Q : α → Prop} : Returns (MonadExcept.throw h : Eval α) Q := by
  intro m a m' hx
  simp at hx

theorem trivial {x : Eval α} : Returns x fun _ => True :=
  fun _ _ _ _ => True.intro

theorem mono {x : Eval α} {P Q : α → Prop} (hx : Returns x P) (h : ∀ a, P a → Q a) :
    Returns x Q :=
  fun m a m' hexec => h a (hx m a m' hexec)

theorem bind {x : Eval α} {f : α → Eval β} {P : α → Prop} {Q : β → Prop}
    (hx : Returns x P) (hf : ∀ a, P a → Returns (f a) Q) : Returns (x >>= f) Q := by
  intro m b m' hexec
  rw [exec_bind] at hexec
  rcases hrun : x.exec m with ⟨_ | a, m₁⟩
  · simp [hrun] at hexec
  · rw [hrun] at hexec
    exact hf a (hx m a m₁ hrun) m₁ b m' hexec

theorem map {x : Eval α} {f : α → β} {P : α → Prop} {Q : β → Prop}
    (hx : Returns x P) (h : ∀ a, P a → Q (f a)) : Returns (f <$> x) Q := by
  rw [map_eq_pure_bind]
  exact hx.bind fun a ha => Returns.pure (h a ha)

/-- A loop over a list keeps an invariant of its state when every pass keeps it, whether
the pass goes on or stops the loop. -/
theorem forIn {xs : List α} {b : β} {f : α → β → Eval (ForInStep β)} (I : β → Prop)
    (hb : I b) (hf : ∀ a ∈ xs, ∀ s, I s → Returns (f a s) fun r => I r.value) :
    Returns (ForIn.forIn xs b f) I := by
  induction xs generalizing b with
  | nil => simpa using Returns.pure hb
  | cons a xs ih =>
    rw [List.forIn_cons]
    refine Returns.bind (hf a List.mem_cons_self b hb) fun r hr => ?_
    cases r with
    | done s => exact Returns.pure hr
    | yield s => exact ih hr fun a' ha' => hf a' (List.mem_cons_of_mem a ha')

/-- `mapM` gives one result per element, each keeping the promise made for its element. -/
theorem mapM {xs : List α} {f : α → Eval β} {P : α → β → Prop}
    (hf : ∀ a ∈ xs, Returns (f a) (P a)) : Returns (xs.mapM f) (List.Forall₂ P xs) := by
  induction xs with
  | nil => simpa using Returns.pure List.Forall₂.nil
  | cons a xs ih =>
    rw [List.mapM_cons]
    refine Returns.bind (hf a List.mem_cons_self) fun b hb => ?_
    refine Returns.bind (ih fun a' ha' => hf a' (List.mem_cons_of_mem a ha')) fun bs hbs => ?_
    exact Returns.pure (List.Forall₂.cons hb hbs)

theorem ite {c : Prop} [Decidable c] {x y : Eval α} {Q : α → Prop}
    (hx : Returns x Q) (hy : Returns y Q) : Returns (if c then x else y) Q := by
  split
  · exact hx
  · exact hy

theorem throw_bind {h : Halt} {f : α → Eval β} {Q : β → Prop} :
    Returns (MonadExcept.throw h >>= f) Q :=
  Returns.bind (P := fun _ => False) Returns.throw fun _ h => h.elim

/-- `mapM` gives one result per element; a promise kept by every call holds of them all. -/
theorem mapM_forall {xs : List α} {f : α → Eval β} {Q : β → Prop}
    (hf : ∀ a ∈ xs, Returns (f a) Q) :
    Returns (xs.mapM f) fun ys => ys.length = xs.length ∧ ∀ y ∈ ys, Q y := by
  induction xs with
  | nil => simpa using Returns.pure (Q := fun ys : List β => ys.length = 0 ∧ ∀ y ∈ ys, Q y) (by simp)
  | cons a xs ih =>
    rw [List.mapM_cons]
    refine Returns.bind (hf a List.mem_cons_self) fun b hb => ?_
    refine Returns.bind (ih fun a' ha' => hf a' (List.mem_cons_of_mem a ha')) fun bs hbs => ?_
    refine Returns.pure ⟨by simp [hbs.1], fun y hy => ?_⟩
    rcases List.mem_cons.mp hy with rfl | hy
    · exact hb
    · exact hbs.2 y hy

theorem tryCatch {x : Eval α} {handle : Halt → Eval α} {Q : α → Prop}
    (hx : Returns x Q) (hh : ∀ h, Returns (handle h) Q) : Returns (MonadExcept.tryCatch x handle) Q := by
  intro m a m' hexec
  rw [exec_tryCatch] at hexec
  rcases hrun : x.exec m with ⟨_ | a₁, m₁⟩
  · rw [hrun] at hexec
    exact hh _ m₁ a m' hexec
  · rw [hrun] at hexec
    simp only [Prod.mk.injEq, Except.ok.injEq] at hexec
    exact hexec.1 ▸ hx m a₁ m₁ hrun

end Returns

end Eval

end Retl
