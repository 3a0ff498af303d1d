import Retl.Proofs.AnalysisSteps
import Retl.Proofs.Conformance
/-!
# Analysing a chain link by link

A block's statements read into a chain: each `let` and `alias` holds the statements after it.
Analysis takes such a chain by recursion on it (`analyzeRest`). This module shows that the
recursion is the loop a chain asks for (`analyzeChain`):

* a forward pass over the links, in order, resolves each link's type, and analyses each
  binding's value, under the aliases that the alias links before it declared: the ones after
  it are not yet in scope, and a name declared twice stands for its later type
  (`Aliases.lookup_declare`);
* what follows the last link is analysed under all of the chain's aliases;
* the chain is rebuilt from the back, and every node of it has the static type of what follows
  the last link, `null` when the chain ends in a link (`ChainLink.staticOpt_chain`).

So a program's analysis returns the aliases it was given, updated in order by the alias links of
its own top-level chain, and by nothing declared inside a value or a block
(`analyzeProgram_aliases`).
-/

namespace Retl

open Retl.Tree (Node TypeExpr)
open Analysis

namespace Aliases

/-- After a declaration, its name stands for the declared type and every other name for what
it stood for before: a redeclared alias is overridden. -/
theorem lookup_declare (as : Aliases) (x : String) (t : Ty) (y : String) :
    (as.declare x t).lookup y = if y = x then some t else as.lookup y := by
  unfold declare lookup
  split
  next hmem =>
    -- the entries of `x` change their type and keep their name, so the search for any name
    -- stops at the same entry as before
    have hname : ((fun a : String × Ty => a.1 == y) ∘
        fun a => if (a.1 == x) = true then (x, t) else a) = fun a => a.1 == y := by
      funext a
      by_cases h : a.1 = x <;> simp [h]
    rw [List.find?_map, hname]
    cases hr : as.find? (fun a => a.1 == y) with
    | none =>
      have hyx : y ≠ x := by
        rintro rfl
        rw [List.find?_eq_none] at hr
        obtain ⟨a, ha, hax⟩ := List.any_eq_true.1 hmem
        exact hr a ha hax
      simp [hyx]
    | some r =>
      have hry : r.1 = y := by simpa using List.find?_some hr
      by_cases hyx : y = x <;> simp [hry, hyx]
  next hmem =>
    have hnone : as.find? (fun a => a.1 == x) = none :=
      List.find?_eq_none.2 fun a ha hax => hmem (List.any_eq_true.2 ⟨a, ha, hax⟩)
    rw [List.find?_append]
    by_cases hyx : y = x
    · subst hyx
      simp [hnone]
    · cases as.find? (fun a => a.1 == y) <;> simp [hyx, Ne.symm hyx]

end Aliases

namespace Tree

/-- A link of a statement chain, apart from what follows it. -/
inductive Link where
  | bind (name : String) (type : Option TypeExpr) (value : Node) (pos : Position)
  | aliasType (name : String) (type : TypeExpr) (pos : Position)

/-- Links put in front of what follows the last of them, each holding the rest. -/
def Link.chain : List Link → Option Node → Option Node
  | [], k => k
  | .bind x t v p :: ls, k => some (.bind x t v (Link.chain ls k) p)
  | .aliasType x t p :: ls, k => some (.aliasType x t (Link.chain ls k) p)

/-- Every chain is its links in front of what follows the last of them, which is no link. -/
theorem Link.exists_chain (o : Option Node) :
    ∃ links tail, Link.chain links tail = o ∧ ∀ n, tail = some n → n.isLink = false := by
  match o with
  | none => exact ⟨[], none, rfl, by simp⟩
  | some n =>
    cases hn : n.isLink
    · exact ⟨[], some n, rfl, fun m hm => by cases hm; exact hn⟩
    · cases n <;> simp only [Node.isLink, Bool.false_eq_true] at hn
      case bind x t v next p =>
        obtain ⟨links, tail, h, htail⟩ := Link.exists_chain next
        exact ⟨.bind x t v p :: links, tail, by rw [Link.chain, h], htail⟩
      case aliasType x t next p =>
        obtain ⟨links, tail, h, htail⟩ := Link.exists_chain next
        exact ⟨.aliasType x t p :: links, tail, by rw [Link.chain, h], htail⟩
termination_by sizeOf o
decreasing_by all_goals (subst_vars; simp only [Option.some.sizeOf_spec, Node.bind.sizeOf_spec,
  Node.aliasType.sizeOf_spec]; omega)

end Tree

/-- A link of an analysed chain, apart from what follows it. -/
inductive ChainLink where
  | bind (name : String) (type : Ty) (value : Expr) (pos : Position)
  | aliasType (name : String) (type : Ty) (pos : Position)

namespace ChainLink

/-- Analysed links put in front of what follows them, each holding the rest: the chain
rebuilt from its back. -/
def chain : List ChainLink → Option Expr → Option Expr
  | [], k => k
  | .bind x t v p :: ls, k => some (.bind x t v (chain ls k) p)
  | .aliasType x t p :: ls, k => some (.aliasType x t (chain ls k) p)

/-- The aliases in scope after some links: those in scope before them, with each alias link
declared in turn. -/
def scope (as : Aliases) : List ChainLink → Aliases
  | [] => as
  | .bind .. :: ls => scope as ls
  | .aliasType x t _ :: ls => scope (as.declare x t) ls

theorem chain_append (ls ms : List ChainLink) (k : Option Expr) :
    chain (ls ++ ms) k = chain ls (chain ms k) := by
  induction ls with
  | nil => rfl
  | cons l ls ih => cases l <;> simp only [List.cons_append, chain, ih]

theorem scope_append (as : Aliases) (ls ms : List ChainLink) :
    scope as (ls ++ ms) = scope (scope as ls) ms := by
  induction ls generalizing as with
  | nil => rfl
  | cons l ls ih => cases l <;> simp only [List.cons_append, scope, ih]

/-- Every node of a rebuilt chain has the static type of what follows its last link. -/
theorem staticOpt_chain (ls : List ChainLink) (k : Option Expr) :
    Expr.staticOpt (chain ls k) = Expr.staticOpt k := by
  induction ls with
  | nil => rfl
  | cons l ls ih => cases l <;> simp only [chain, Expr.staticOpt, Expr.static, ih]

end ChainLink

/-- One round of the forward pass over a chain: the link's type is resolved, and a binding's
value analysed, under the aliases that the links already done declared. -/
def analyzeLink (sc : AnalysisScope) (budget : Nat) (done : List ChainLink) :
    Tree.Link → Analysis (List ChainLink)
  | .aliasType x t p => do
    let ty ← resolveType (ChainLink.scope sc.aliases done) t
    pure (done ++ [.aliasType x ty p])
  | .bind x t v p => do
    let inScope := ChainLink.scope sc.aliases done
    let lt ← resolveTypeOpt inScope t
    let e ← analyzeExpr { sc with aliases := inScope } budget v
    pure (done ++ [.bind x lt e p])

/-- After the forward pass: what follows the links, analysed under every alias they declared,
and the chain rebuilt around it, with the aliases in scope at its end. -/
def finishChain (sc : AnalysisScope) (budget : Nat) (tail : Option Node) (done : List ChainLink) :
    Analysis (Option Expr × Aliases) := do
  let aliases := ChainLink.scope sc.aliases done
  let result ← analyzeOpt { sc with aliases } budget tail
  pure (ChainLink.chain done result, aliases)

/-- A chain analysed as a loop does it: a forward pass over its links, then what follows them,
then the chain rebuilt from the back. -/
def analyzeChain (sc : AnalysisScope) (budget : Nat) (links : List Tree.Link)
    (tail : Option Node) : Analysis (Option Expr × Aliases) :=
  links.foldlM (analyzeLink sc budget) [] >>= finishChain sc budget tail

section

variable (sc : AnalysisScope) (budget : Nat) {tail : Option Node}

/-- What follows the links of a chain, when it is no link itself, is analysed as an
expression, and leaves the aliases as they are. -/
theorem analyzeRest_tail (htail : ∀ n, tail = some n → n.isLink = false) :
    analyzeRest sc budget tail = (analyzeOpt sc budget tail >>= fun r => pure (r, sc.aliases)) := by
  cases tail with
  | none => simp only [analyzeRest, analyzeOpt, pure_bind]
  | some n =>
    rw [analyzeRest_some_of_isLink sc budget (htail n rfl)]
    simp only [analyzeOpt, bind_assoc, pure_bind]

/-- The recursion over a chain, entered after some links are done, is the rest of the loop. -/
theorem analyzeRest_chain_after (htail : ∀ n, tail = some n → n.isLink = false) :
    ∀ (links : List Tree.Link) (done : List ChainLink),
      (analyzeRest { sc with aliases := ChainLink.scope sc.aliases done } budget
          (Tree.Link.chain links tail) >>= fun r => pure (ChainLink.chain done r.1, r.2)) =
        (links.foldlM (analyzeLink sc budget) done >>= finishChain sc budget tail)
  | [], done => by
    simp only [Tree.Link.chain, analyzeRest_tail _ budget htail, List.foldlM_nil, pure_bind,
      bind_assoc, finishChain]
  | .bind x t v p :: links, done => by
    simp only [Tree.Link.chain, analyzeRest, List.foldlM_cons, analyzeLink, bind_assoc, pure_bind]
    refine bind_congr fun lt => bind_congr fun e => ?_
    -- the binding joins the links done, and leaves their scope as it was
    have ih := analyzeRest_chain_after htail links (done ++ [.bind x lt e p])
    simp only [ChainLink.scope_append, ChainLink.scope, ChainLink.chain_append,
      ChainLink.chain] at ih
    exact ih
  | .aliasType x t p :: links, done => by
    simp only [Tree.Link.chain, analyzeRest, List.foldlM_cons, analyzeLink, bind_assoc, pure_bind]
    refine bind_congr fun ty => ?_
    -- the alias joins the links done, and is declared in their scope
    have ih := analyzeRest_chain_after htail links (done ++ [.aliasType x ty p])
    simp only [ChainLink.scope_append, ChainLink.scope, ChainLink.chain_append,
      ChainLink.chain] at ih
    exact ih

/-- What follows the links, analysed, is no link either. -/
theorem analyzeOpt_yields_notLink (htail : ∀ n, tail = some n → n.isLink = false) :
    Yields (fun r : Option Expr => ∀ x, r = some x → x.isLink = false)
      (analyzeOpt sc budget tail) := by
  intro L r L' h
  cases tail with
  | none =>
    obtain ⟨rfl, -⟩ := exec_pure_ok h
    simp
  | some n =>
    obtain ⟨e, L₁, he, hpure⟩ := exec_bind_ok h
    obtain ⟨rfl, -⟩ := exec_pure_ok hpure
    rintro x ⟨⟩
    exact analyzeExpr_yields_notLink sc budget (htail n rfl) L e L₁ he

/-- Analysing a chain by recursion on it is analysing it by the loop. -/
theorem analyzeRest_chain (htail : ∀ n, tail = some n → n.isLink = false)
    (links : List Tree.Link) :
    analyzeRest sc budget (Tree.Link.chain links tail) = analyzeChain sc budget links tail := by
  have h := analyzeRest_chain_after sc budget htail links []
  simp only [ChainLink.scope, ChainLink.chain, Prod.eta, bind_pure] at h
  exact h

end

/-- A program's analysis returns the aliases it was given, updated in order by the alias links
of its top-level chain: its expression is that chain, rebuilt around what follows the last
link, and nothing declared further in counts. -/
theorem analyzeProgram_aliases {depth : Nat} {aliases : Aliases} {trace : Bool} {n : Node}
    {e : Expr} {as : Aliases} (hres : (analyzeProgram depth aliases trace n).result = some (e, as)) :
    ∃ done r, some e = ChainLink.chain done r ∧ (∀ x, r = some x → x.isLink = false) ∧
      as = ChainLink.scope aliases done := by
  obtain ⟨links, tail, hchain, htail⟩ := Tree.Link.exists_chain (some n)
  -- a finished run of the chain's analysis is the loop's: its links, then what follows them
  have hrun : ∀ r L', (analyzeRest ⟨aliases, trace⟩ depth (some n)).exec ⟨#[], ""⟩ =
      (.ok r, L') → ∃ done t, r = (ChainLink.chain done t, ChainLink.scope aliases done) ∧
        ∀ x, t = some x → x.isLink = false := by
    intro r L' h
    rw [← hchain, analyzeRest_chain _ _ htail] at h
    obtain ⟨done, L₁, -, hfin⟩ := exec_bind_ok h
    obtain ⟨t, L₂, ht, hpure⟩ := exec_bind_ok hfin
    obtain ⟨rfl, -⟩ := exec_pure_ok hpure
    exact ⟨done, t, rfl, analyzeOpt_yields_notLink _ _ htail _ _ _ ht⟩
  unfold analyzeProgram at hres
  dsimp only at hres
  change ∀ r L', (analyzeRest _ _ (some n)).run ⟨#[], ""⟩ = (.ok r, L') → _ at hrun
  generalize (analyzeRest _ _ (some n)).run ⟨#[], ""⟩ = X at hrun hres
  obtain ⟨r, L'⟩ := X
  cases r with
  | error abort => cases abort; simp at hres
  | ok r =>
    obtain ⟨_ | e', as'⟩ := r
    · simp at hres
    · simp only [Option.some.injEq, Prod.mk.injEq] at hres
      obtain ⟨rfl, rfl⟩ := hres
      obtain ⟨done, t, heq, ht⟩ := hrun _ _ rfl
      simp only [Prod.mk.injEq] at heq
      exact ⟨done, t, heq.1, ht, heq.2⟩

/-- How a `let`/`alias` chain is analysed. -/
structure ChainAnalysis : Prop where
  /-- The recursion over a chain is the loop over its links: each link is resolved, and each
  binding's value analysed, under the aliases that the alias links before it declared; what
  follows the last link under all of them; then the chain is rebuilt from the back. -/
  loop : ∀ (sc : AnalysisScope) (budget : Nat) (links : List Tree.Link) (tail : Option Node),
    (∀ n, tail = some n → n.isLink = false) →
    analyzeRest sc budget (Tree.Link.chain links tail) = analyzeChain sc budget links tail
  /-- A declared alias overrides what its name stood for, and nothing else. -/
  declare : ∀ (as : Aliases) (x : String) (t : Ty) (y : String),
    (as.declare x t).lookup y = if y = x then some t else as.lookup y
  /-- Every node of a rebuilt chain has the static type of what follows its last link, `null`
  when nothing does. -/
  static : ∀ (done : List ChainLink) (r : Option Expr),
    Expr.staticOpt (ChainLink.chain done r) = Expr.staticOpt r
  /-- A program's analysis returns the aliases it was given, updated in order by the alias
  links of its top-level chain and by no other. -/
  aliases : ∀ (depth : Nat) (aliases : Aliases) (trace : Bool) (n : Node) (e : Expr) (as : Aliases),
    (analyzeProgram depth aliases trace n).result = some (e, as) →
    ∃ done r, some e = ChainLink.chain done r ∧ (∀ x, r = some x → x.isLink = false) ∧
      as = ChainLink.scope aliases done

theorem chains_are_analysed_link_by_link : ChainAnalysis where
  loop sc budget links _ htail := analyzeRest_chain sc budget htail links
  declare := Aliases.lookup_declare
  static := ChainLink.staticOpt_chain
  aliases _ _ _ _ _ _ := analyzeProgram_aliases

end Retl
