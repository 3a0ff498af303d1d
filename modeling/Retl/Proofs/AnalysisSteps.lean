import Retl.Proofs.StepSimulation
/-!
# Analysis steps on a log

Analysis runs on a log of diagnostics and trace lines (`Analysis.exec`). A bind runs its
first step and then the rest on the log the first left (`Analysis.exec_bind`), giving up
as soon as a step does. `Yields P x` says that every result `x` gives, when it does not
give up, satisfies `P`; it is built up through binds without following the log.

A statement chain is analysed link by link, and what stands past its links is analysed as
an expression (`analyzeRest_some_of_isLink`), which is no link either
(`analyzeExpr_yields_notLink`).
-/

namespace Retl

open Retl.Tree (Node)

namespace Analysis

variable {α β : Type}

/-- Run an analysis step on a log. -/
def exec (x : Analysis α) (L : AnalysisLog) : Except AnalysisAbort α × AnalysisLog :=
  (x.run.run L).run

theorem exec_bind (x : Analysis α) (f : α → Analysis β) (L : AnalysisLog) :
    (x >>= f).exec L = match x.exec L with
      | (.ok a, L') => (f a).exec L'
      | (.error e, L') => (.error e, L') := by
  simp only [exec, ExceptT.run_bind, StateT.run_bind]
  generalize x.run.run L = r
  rcases r with ⟨_ | _, L'⟩ <;> rfl

theorem exec_bind_ok {x : Analysis α} {f : α → Analysis β} {L L'' : AnalysisLog} {b : β}
    (h : (x >>= f).exec L = (.ok b, L'')) :
    ∃ a L', x.exec L = (.ok a, L') ∧ (f a).exec L' = (.ok b, L'') := by
  rw [exec_bind] at h
  generalize x.exec L = X at h
  rcases X with ⟨_ | a, L'⟩
  · cases h
  · exact ⟨a, L', rfl, h⟩

theorem exec_pure_ok {a b : α} {L L' : AnalysisLog} (h : (pure a : Analysis α).exec L = (.ok b, L')) :
    a = b ∧ L = L' := by
  cases h
  exact ⟨rfl, rfl⟩

/-- Every result an analysis step gives, when it does not give up, satisfies `P`. -/
def Yields (P : α → Prop) (x : Analysis α) : Prop :=
  ∀ L a L', x.exec L = (.ok a, L') → P a

namespace Yields

variable {P : α → Prop}

theorem pure {a : α} (h : P a) : Yields P (Pure.pure a) := by
  intro L b L' hx
  obtain ⟨rfl, -⟩ := exec_pure_ok hx
  exact h

theorem bind {x : Analysis β} {f : β → Analysis α} (h : ∀ b, Yields P (f b)) :
    Yields P (x >>= f) := by
  intro L a L'' hx
  obtain ⟨b, L', -, hf⟩ := exec_bind_ok hx
  exact h b _ _ _ hf

theorem throw_bind (e : AnalysisAbort) {f : β → Analysis α} :
    Yields P (MonadExcept.throw e >>= f) := by
  intro L a L' hx
  cases hx

end Yields

end Analysis

namespace AnalysisLog

/-- The log after a report of `message` at `pos`. -/
def reported (L : AnalysisLog) (message : String) (pos : Position) : AnalysisLog :=
  { L with
    diagnostics := L.diagnostics.push { severity := .semantic, message, position := some pos } }

/-- The log after `line` is traced. -/
def noted (L : AnalysisLog) (line : String) : AnalysisLog :=
  { L with trace := L.trace ++ line ++ "\n" }

end AnalysisLog

namespace Tree

/-- Whether a node is a link of a statement chain: a binding or an alias. -/
def Node.isLink : Node → Bool
  | .bind .. | .aliasType .. => true
  | _ => false

end Tree

open Analysis

/-- Past the links of a chain, analysing what remains is analysing an expression. -/
theorem analyzeRest_some_of_isLink (sc : AnalysisScope) (budget : Nat) {n : Node}
    (h : n.isLink = false) :
    analyzeRest sc budget (some n) =
      (analyzeExpr sc budget n >>= fun e => pure (some e, sc.aliases)) := by
  -- the last arm of the chain's match, past the arms for the links
  cases n <;> simp only [Node.isLink, Bool.true_eq_false] at h <;> rw [analyzeRest] <;> nofun

/-- Analysing a tree that is no link of a chain gives an expression that is none either. -/
theorem analyzeExpr_yields_notLink (sc : AnalysisScope) (budget : Nat) {n : Node}
    (h : n.isLink = false) : Yields (fun e => e.isLink = false) (analyzeExpr sc budget n) := by
  rw [analyzeExpr]
  cases budget with
  | zero =>
    simp only [↓reduceIte]
    exact Yields.throw_bind _
  | succ b =>
    simp only [Nat.add_one_ne_zero, ↓reduceIte, Nat.add_sub_cancel]
    refine Yields.bind fun _ => ?_
    -- every form but the links ends in its own constructor, whatever came before
    cases n <;> simp only [Node.isLink, Bool.true_eq_false] at h <;> dsimp only <;>
      repeat' first
        | exact Yields.pure rfl
        | refine Yields.bind fun _ => ?_
        | split

end Retl
