import Retl.Proofs.AnalysisSteps
import Retl.Proofs.RunInvariant
/-!
# What analysis promises when it reports nothing

Analysis reports a problem and goes on, and a program is run only when its analysis reported
nothing. No step of analysis takes a diagnostic back, so a run that ends with as many
diagnostics as it began with reported nothing in any of its steps, and whatever a step
checks holds of what it gives. `Analysis.Quiet x P` says this of a step `x`: it keeps the
diagnostics found before it, and when it adds none its result satisfies `P`.

The check that matters for the values of a run is the one on integer literals, dictionary
keys included: analysis reports every one outside 32 bits. So a program that analysis
accepts writes only literals that satisfy every invariant which admits the 32-bit integers
and every schema (`analyzeProgram_litsOk`).
-/

namespace Retl

open Retl.Tree (Node Pattern TypeExpr LitNode)

namespace Analysis

variable {α β : Type}

/-- A step of analysis keeps every diagnostic found before it, appending its own after them,
and when it adds none its result satisfies `P`. -/
def Quiet (x : Analysis α) (P : α → Prop) : Prop :=
  ∀ L a L', x.exec L = (.ok a, L') → L.diagnostics.toList <+: L'.diagnostics.toList ∧
    (L'.diagnostics.size ≤ L.diagnostics.size → P a)

namespace Quiet

variable {P Q : α → Prop}

theorem mono {x : Analysis α} (hx : Quiet x P) (h : ∀ a, P a → Q a) : Quiet x Q := by
  intro L a L' hrun
  obtain ⟨hle, hP⟩ := hx L a L' hrun
  exact ⟨hle, fun hge => h a (hP hge)⟩

theorem pure {a : α} (h : P a) : Quiet (Pure.pure a) P := by
  intro L b L' hrun
  obtain ⟨rfl, rfl⟩ := exec_pure_ok hrun
  exact ⟨List.prefix_refl _, fun _ => h⟩

theorem throw (e : AnalysisAbort) : Quiet (MonadExcept.throw e : Analysis α) P := by
  intro L b L' hrun
  have hpair : ((.error e, L) : Except AnalysisAbort α × AnalysisLog) = (.ok b, L') := hrun
  simp at hpair

/-- The result of `x >>= f` satisfies `Q` when `f` gives what satisfies `Q` from every
result of `x` that satisfies `P`: a run of both that adds no diagnostic is a run of each
that adds none. -/
theorem bind {x : Analysis α} {f : α → Analysis β} {Q : β → Prop} (hx : Quiet x P)
    (hf : ∀ a, Quiet (f a) fun b => P a → Q b) : Quiet (x >>= f) Q := by
  intro L b L' hrun
  rw [exec_bind] at hrun
  revert hrun
  cases hxL : x.exec L with
  | mk r L₁ =>
    cases r with
    | error e => intro h; cases h
    | ok a =>
      intro hrun
      obtain ⟨hpre₁, hP⟩ := hx L a L₁ hxL
      obtain ⟨hpre₂, hQ⟩ := hf a L₁ b L' hrun
      have hle₁ := Eval.size_le_of_prefix hpre₁
      have hle₂ := Eval.size_le_of_prefix hpre₂
      exact ⟨hpre₁.trans hpre₂, fun hge => hQ (by omega) (hP (by omega))⟩

theorem throw_bind (e : AnalysisAbort) (f : α → Analysis β) {Q : β → Prop} :
    Quiet (MonadExcept.throw e >>= f) Q := by
  intro L b L' hrun
  rw [exec_bind] at hrun
  cases hrun

/-- `bind` after a step that checks nothing. -/
theorem seq {x : Analysis α} {f : α → Analysis β} {Q : β → Prop} (hx : Quiet x fun _ => True)
    (hf : ∀ a, Quiet (f a) Q) : Quiet (x >>= f) Q :=
  hx.bind fun a => (hf a).mono fun _ hb _ => hb

theorem ite {c : Prop} [Decidable c] {x₁ x₂ : Analysis α} (h₁ : Quiet x₁ P) (h₂ : Quiet x₂ P) :
    Quiet (if c then x₁ else x₂) P := by
  split
  · exact h₁
  · exact h₂

/-- A report adds a diagnostic, so a run that adds none never passes through one. -/
theorem report (message : String) (pos : Position) (P : Unit → Prop) :
    Quiet (Analysis.report message pos) P := by
  intro L u L' hrun
  have hpair : ((.ok (), L.reported message pos) : Except AnalysisAbort Unit × AnalysisLog) =
      (.ok u, L') := hrun
  simp only [Prod.mk.injEq] at hpair
  obtain ⟨-, rfl⟩ := hpair
  refine ⟨?_, fun h => absurd h ?_⟩
  · simp only [AnalysisLog.reported, Array.toList_push]
    exact List.prefix_append _ _
  · simp only [AnalysisLog.reported, Array.size_push]
    omega

theorem note (sc : AnalysisScope) (line : String) : Quiet (Analysis.note sc line) fun _ => True := by
  unfold Analysis.note
  split
  · intro L u L' hrun
    have hpair : ((.ok (), L.noted line) : Except AnalysisAbort Unit × AnalysisLog) =
        (.ok u, L') := hrun
    simp only [Prod.mk.injEq] at hpair
    obtain ⟨-, rfl⟩ := hpair
    exact ⟨List.prefix_refl _, fun _ => trivial⟩
  · exact pure trivial

/-- A loop keeps what each of its passes keeps of the state, when it reports nothing: the
induction runs along the list, from the state each pass hands on. -/
theorem forIn_keeps {ρ σ : Type} {S : σ → Prop} {f : ρ → σ → Analysis (ForInStep σ)}
    (hf : ∀ x s, Quiet (f x s) fun r => S s → S r.value) :
    ∀ (xs : List ρ) (b : σ), Quiet (ForIn.forIn xs b f) fun s => S b → S s
  | [], _ => pure id
  | x :: xs, b => by
    rw [List.forIn_cons]
    refine (hf x b).bind fun r => ?_
    cases r with
    | done s => exact pure id
    | yield s => exact (forIn_keeps hf xs s).mono fun _ hs hstep hb => hs (hstep hb)

/-- A loop whose passes check nothing checks nothing. -/
theorem forIn {ρ σ : Type} (xs : List ρ) (b : σ) {f : ρ → σ → Analysis (ForInStep σ)}
    (hf : ∀ x s, Quiet (f x s) fun _ => True) : Quiet (ForIn.forIn xs b f) fun _ => True :=
  (forIn_keeps (S := fun _ => True) (fun x s => (hf x s).mono fun _ _ _ => trivial) xs b).mono
    fun _ _ => trivial

end Quiet

end Analysis

open Analysis

/-- Aliases whose types are resolved: none has `unknown` in it. -/
def Aliases.Resolved (as : Aliases) : Prop := ∀ a ∈ as, a.2.hasUnknown = false

namespace Aliases

theorem resolved_nil : Aliases.Resolved [] := by
  simp [Aliases.Resolved]

theorem Resolved.lookup {as : Aliases} (h : as.Resolved) {n : String} {t : Ty}
    (hn : as.lookup n = some t) : t.hasUnknown = false := by
  unfold Aliases.lookup at hn
  obtain ⟨a, ha, rfl⟩ := Option.map_eq_some_iff.1 hn
  exact h a (List.mem_of_find?_eq_some ha)

/-- Declaring an alias for a resolved type keeps the aliases resolved. -/
theorem Resolved.declare {as : Aliases} (h : as.Resolved) {name : String} {t : Ty}
    (ht : t.hasUnknown = false) : (as.declare name t).Resolved := by
  unfold Aliases.declare
  split
  · intro a ha
    obtain ⟨b, hb, rfl⟩ := List.mem_map.1 ha
    split
    · exact ht
    · exact h b hb
  · intro a ha
    rcases List.mem_append.1 ha with ha | ha
    · exact h a ha
    · rw [List.mem_singleton.1 ha]
      exact ht

end Aliases

theorem Tree.ScalarName.type_hasUnknown (n : Tree.ScalarName) : n.type.hasUnknown = false := by
  cases n <;> rfl

/-- An admissible type passes the check on the declared type of a `let`. -/
theorem Ty.Admissible.written {t : Ty} (h : t.Admissible) :
    (t == .unknown || !t.hasUnknown) = true := by
  rcases h with rfl | h
  · rfl
  · simp [h]

mutual

/-- Resolving a written type takes no diagnostic back, and without a report it gives a type
with no `unknown` in it where the aliases in scope have none: only a name that is no alias
resolves to `unknown`, and it is reported. -/
theorem resolveType_quiet (as : Aliases) :
    ∀ t : TypeExpr, Quiet (resolveType as t) fun ty => as.Resolved → ty.hasUnknown = false
  | .atom n _ => Quiet.pure fun _ => n.type_hasUnknown
  | .list t _ => (resolveType_quiet as t).bind fun _ =>
    Quiet.pure fun ht has => by simp only [Ty.hasUnknown, ht has]
  | .tuple ts _ => (resolveTypes_quiet as ts).bind fun _ =>
    Quiet.pure fun hts has => by simp only [Ty.hasUnknown, hts has]
  | .dict k v _ => (resolveType_quiet as k).bind fun _ => (resolveType_quiet as v).bind fun _ =>
    Quiet.pure fun hv hk has => by simp only [Ty.hasUnknown, hk has, hv has, Bool.or_self]
  | .union ts _ => (resolveTypes_quiet as ts).bind fun _ =>
    Quiet.pure fun hts has => by simp only [Ty.hasUnknown, hts has]
  | .func ps r _ =>
    (resolveTypes_quiet as ps).bind fun _ => (resolveType_quiet as r).bind fun _ =>
      Quiet.pure fun hr hps has => by simp only [Ty.hasUnknown, hps has, hr has, Bool.or_self]
  | .ref n p => by
    simp only [resolveType]
    cases hn : as.lookup n
    · exact (Quiet.report _ p fun _ => False).bind fun _ => Quiet.pure fun hfalse => hfalse.elim
    · exact Quiet.pure fun has => has.lookup hn

/-- `resolveType_quiet`, along lists. -/
theorem resolveTypes_quiet (as : Aliases) :
    ∀ ts : List TypeExpr, Quiet (resolveTypes as ts) fun tys => as.Resolved → Ty.anyUnknown tys = false
  | [] => Quiet.pure fun _ => rfl
  | t :: ts =>
    (resolveType_quiet as t).bind fun _ => (resolveTypes_quiet as ts).bind fun _ =>
      Quiet.pure fun hts ht has => by simp only [Ty.anyUnknown, ht has, hts has, Bool.or_self]

end

theorem resolveTypeOpt_quiet (as : Aliases) :
    ∀ t : Option TypeExpr, Quiet (resolveTypeOpt as t) fun ty => as.Resolved → ty.Admissible
  | none => Quiet.pure fun _ => .unknown
  | some t => (resolveType_quiet as t).mono fun _ ht has => .of_hasUnknown (ht has)

/-- An invariant that analysis checks in full on the literals: it admits every integer that
fits in 32 bits, and every schema. -/
structure Inv.AnalysisChecks (I : Inv) : Prop where
  int : ∀ n, fitsInt32 n = true → I.int n = true
  schema : ∀ cs, I.schema cs = true

variable {I : Inv}

/-- A literal that analysis passes without a report satisfies every invariant it checks. -/
theorem checkLiteral_quiet (hI : I.AnalysisChecks) (l : LitNode) :
    Quiet (checkLiteral l) fun _ => I.litOk l.literal = true := by
  unfold checkLiteral
  cases l.literal
  case int n =>
    dsimp only
    split
    next hfits => exact Quiet.pure (hI.int n hfits)
    next => exact Quiet.report _ _ _
  all_goals exact Quiet.pure rfl

@[simp] theorem Expr.litsOkEntries_eq_all (es : List (LitNode × Expr)) :
    Expr.litsOkEntries I es = es.all fun p => I.litOk p.1.literal && p.2.litsOk I := by
  induction es with
  | nil => rfl
  | cons p es ih => simp [Expr.litsOkEntries, ih]

@[simp] theorem Expr.resolvedEntries_eq_all (es : List (LitNode × Expr)) :
    Expr.resolvedEntries es = es.all fun p => p.2.resolved := by
  induction es with
  | nil => rfl
  | cons p es ih => simp [Expr.resolvedEntries, ih]

/-- Keeping the last entry per key keeps only entries of the dictionary. -/
theorem mem_of_mem_lastPerKey {es : List (LitNode × Expr)} {p : LitNode × Expr}
    (h : p ∈ lastPerKey es) : p ∈ es := by
  unfold lastPerKey at h
  obtain ⟨_, _, hfind⟩ := List.mem_filterMap.1 h
  exact List.mem_reverse.1 (List.mem_of_find?_eq_some hfind)

/-- Whatever holds of every entry of a dictionary holds of the entries kept per key. -/
theorem all_lastPerKey {es : List (LitNode × Expr)} {q : LitNode × Expr → Bool}
    (h : es.all q = true) : (lastPerKey es).all q = true := by
  simp only [List.all_eq_true] at h ⊢
  exact fun p hp => h p (mem_of_mem_lastPerKey hp)

theorem litsOkEntries_lastPerKey {es : List (LitNode × Expr)}
    (h : Expr.litsOkEntries I es = true) : Expr.litsOkEntries I (lastPerKey es) = true := by
  rw [Expr.litsOkEntries_eq_all] at h ⊢
  exact all_lastPerKey h

theorem resolvedEntries_lastPerKey {es : List (LitNode × Expr)}
    (h : Expr.resolvedEntries es = true) : Expr.resolvedEntries (lastPerKey es) = true := by
  rw [Expr.resolvedEntries_eq_all] at h ⊢
  exact all_lastPerKey h

/-- The parameters of a function literal pair its names with types resolved in order. -/
theorem all_zip_resolved {names : List String} {ts : List Ty} (h : Ty.anyUnknown ts = false) :
    ((names.zip ts).all fun p => !p.2.hasUnknown) = true :=
  List.all_eq_true.2 fun p hp => by simp [Ty.hasUnknown_of_mem h p.2 (List.of_mem_zip hp).2]

/-- What analysis promises of an expression it gives without a report, under the aliases
`as`: its literals satisfy `I`, and its written types are resolved where the aliases are. -/
def Expr.Accepted (I : Inv) (as : Aliases) (e : Expr) : Prop :=
  e.litsOk I = true ∧ (as.Resolved → e.resolved = true)

/-- Analysis at a budget that adds no diagnostic gives an expression it accepts. -/
def AnalyzerQuiet (I : Inv) (budget : Nat) : Prop :=
  ∀ sc n, Quiet (analyzeExpr sc budget n) (Expr.Accepted I sc.aliases)

section

variable {budget : Nat} (hI : I.AnalysisChecks) (ih : AnalyzerQuiet I budget)
  (sc : AnalysisScope)

include ih

theorem analyzeOpt_quiet :
    ∀ k, Quiet (analyzeOpt sc budget k) fun o =>
      Expr.litsOkOpt I o = true ∧ (sc.aliases.Resolved → Expr.resolvedOpt o = true)
  | none => Quiet.pure ⟨rfl, fun _ => rfl⟩
  | some n => (ih sc n).bind fun _ => Quiet.pure id

theorem analyzeList_quiet :
    ∀ es, Quiet (analyzeList sc budget es) fun es =>
      Expr.litsOkAll I es = true ∧ (sc.aliases.Resolved → Expr.resolvedAll es = true)
  | [] => Quiet.pure ⟨rfl, fun _ => rfl⟩
  | n :: ns => (ih sc n).bind fun _ => (analyzeList_quiet ns).bind fun _ =>
    Quiet.pure fun hes he => ⟨by simp only [Expr.litsOkAll, he.1, hes.1, Bool.and_self],
      fun hR => by simp only [Expr.resolvedAll, he.2 hR, hes.2 hR, Bool.and_self]⟩

include hI

theorem analyzeEntries_quiet :
    ∀ ps, Quiet (analyzeEntries sc budget ps) fun ps =>
      Expr.litsOkEntries I ps = true ∧ (sc.aliases.Resolved → Expr.resolvedEntries ps = true)
  | [] => Quiet.pure ⟨rfl, fun _ => rfl⟩
  | (k, v) :: ps => (checkLiteral_quiet hI k).bind fun _ => (ih sc v).bind fun _ =>
    (analyzeEntries_quiet ps).bind fun _ =>
      Quiet.pure fun hps hv hk =>
        ⟨by simp only [Expr.litsOkEntries, hk, hv.1, hps.1, Bool.and_self],
          fun hR => by simp only [Expr.resolvedEntries, hv.2 hR, hps.2 hR, Bool.and_self]⟩

theorem analyzePattern_quiet :
    ∀ pat, Quiet (analyzePattern sc budget pat) fun c =>
      Case.litsOk I c = true ∧ (sc.aliases.Resolved → Case.resolved c = true)
  | .typed _ t _ _ => (resolveType_quiet _ t).bind fun _ =>
    (analyzeOpt_quiet ih sc _).bind fun _ => Quiet.pure fun hp _ => hp
  | .literal l => (checkLiteral_quiet hI l).bind fun _ => Quiet.pure fun _ => ⟨rfl, fun _ => rfl⟩
  | .multi ls _ => (Quiet.forIn ls _ fun l _ => (checkLiteral_quiet hI l).bind fun _ =>
    Quiet.pure fun _ => trivial).seq fun _ => Quiet.pure ⟨rfl, fun _ => rfl⟩
  | .range _ _ _ => by
    rw [analyzePattern]
    split
    · exact (Quiet.report _ _ _).seq fun _ => Quiet.pure ⟨rfl, fun _ => rfl⟩
    · exact Quiet.pure ⟨rfl, fun _ => rfl⟩
  | .any _ => Quiet.pure ⟨rfl, fun _ => rfl⟩

theorem analyzeCases_quiet :
    ∀ cs, Quiet (analyzeCases sc budget cs) fun cs =>
      Expr.litsOkCases I cs = true ∧ (sc.aliases.Resolved → Expr.resolvedCases cs = true)
  | [] => Quiet.pure ⟨rfl, fun _ => rfl⟩
  | (pat, body) :: cs => (analyzePattern_quiet hI ih sc pat).bind fun _ => (ih sc body).bind fun _ =>
    (analyzeCases_quiet cs).bind fun _ =>
      Quiet.pure fun hcs hb hc =>
        ⟨by simp only [Expr.litsOkCases, hc.1, hb.1, hcs.1, Bool.and_self],
          fun hR => by simp only [Expr.resolvedCases, hc.2 hR, hb.2 hR, hcs.2 hR, Bool.and_self]⟩

end

/-- The links of a chain that add no diagnostic give a rest whose literals satisfy `I` and,
where the aliases in scope are resolved, a rest whose written types are resolved and
aliases at its end that are resolved: each alias a link declares resolves to a type with no
`unknown`, so the scope of the links after it stays resolved. -/
theorem analyzeRest_quiet {budget : Nat} (ih : AnalyzerQuiet I budget) (sc : AnalysisScope) :
    ∀ k, Quiet (analyzeRest sc budget k) fun r => Expr.litsOkOpt I r.1 = true ∧
      (sc.aliases.Resolved → Expr.resolvedOpt r.1 = true ∧ r.2.Resolved)
  | none => Quiet.pure ⟨rfl, fun hR => ⟨rfl, hR⟩⟩
  | some n => by
    cases hl : n.isLink
    case false =>
      rw [analyzeRest_some_of_isLink sc budget hl]
      exact (ih sc n).bind fun _ => Quiet.pure fun he => ⟨he.1, fun hR => ⟨he.2 hR, hR⟩⟩
    case true =>
      cases n <;> simp only [Node.isLink, Bool.false_eq_true] at hl <;> simp only [analyzeRest]
      case bind name t v next p =>
        exact (resolveTypeOpt_quiet _ t).bind fun _ => (ih sc v).bind fun _ =>
          (analyzeRest_quiet ih sc next).bind fun _ =>
            Quiet.pure fun hk hv ht =>
              ⟨by simp only [Expr.litsOkOpt, Expr.litsOk, hv.1, hk.1, Bool.and_self],
                fun hR => ⟨by simp only [Expr.resolvedOpt, Expr.resolved, (ht hR).written, hv.2 hR,
                  (hk.2 hR).1, Bool.and_self], (hk.2 hR).2⟩⟩
      case aliasType name t next p =>
        exact (resolveType_quiet _ t).bind fun _ =>
          (analyzeRest_quiet ih { sc with aliases := sc.aliases.declare name _ } next).bind fun _ =>
            Quiet.pure fun hk ht => ⟨hk.1, fun hR => hk.2 (hR.declare (ht hR))⟩
termination_by k => sizeOf k

theorem analyzerQuiet_zero : AnalyzerQuiet I 0 := by
  intro sc n
  rw [analyzeExpr]
  simp only [↓reduceIte]
  exact Quiet.throw_bind _ _

/-- One more level of budget: each form of tree checks its literals and resolves its written
types, its parts through the analyses at the level below. -/
theorem analyzerQuiet_succ (hI : I.AnalysisChecks) {budget : Nat} (ih : AnalyzerQuiet I budget) :
    AnalyzerQuiet I (budget + 1) := by
  intro sc n
  rw [analyzeExpr]
  simp only [Nat.add_one_ne_zero, ↓reduceIte, Nat.add_sub_cancel]
  refine (Quiet.note sc _).seq fun _ => ?_
  cases n <;> dsimp only
  case lit l p =>
    exact (checkLiteral_quiet hI ⟨l, p⟩).bind fun _ => Quiet.pure fun h => ⟨h, fun _ => rfl⟩
  case ref => exact Quiet.pure ⟨rfl, fun _ => rfl⟩
  case bind name t v next p =>
    exact (resolveTypeOpt_quiet _ t).bind fun _ => (ih sc v).bind fun _ =>
      (analyzeRest_quiet ih sc next).bind fun _ =>
        Quiet.pure fun hk hv ht => ⟨by simp only [Expr.litsOk, hv.1, hk.1, Bool.and_self],
          fun hR => by simp only [Expr.resolved, (ht hR).written, hv.2 hR, (hk.2 hR).1,
            Bool.and_self]⟩
  case aliasType name t next p =>
    exact (resolveType_quiet _ t).bind fun _ =>
      (analyzeRest_quiet ih { sc with aliases := sc.aliases.declare name _ } next).bind fun _ =>
        Quiet.pure fun hk ht => ⟨hk.1, fun hR => (hk.2 (hR.declare (ht hR))).1⟩
  case lam ps r body p =>
    exact (resolveTypes_quiet _ _).bind fun _ => (resolveType_quiet _ r).bind fun _ =>
      (Quiet.forIn _ _ fun _ _ => (Quiet.report _ p _).seq fun _ => Quiet.pure trivial).seq fun _ =>
        (ih sc body).bind fun _ => Quiet.pure fun hb hr hts => ⟨hb.1, fun hR => by
          simp only [Expr.resolved, all_zip_resolved (hts hR), hr hR, hb.2 hR, Bool.not_false,
            Bool.and_self]⟩
  case apply f args p =>
    exact (ih sc f).bind fun _ => (analyzeList_quiet ih sc args).bind fun _ =>
      Quiet.pure fun hargs hf => ⟨by simp only [Expr.litsOk, hf.1, hargs.1, Bool.and_self],
        fun hR => by simp only [Expr.resolved, hf.2 hR, hargs.2 hR, Bool.and_self]⟩
  case prim op l r p =>
    exact (ih sc l).bind fun _ => (analyzeOpt_quiet ih sc r).bind fun _ =>
      Quiet.pure fun hr hl => ⟨by simp only [Expr.litsOk, hl.1, hr.1, Bool.and_self],
        fun hR => by simp only [Expr.resolved, hl.2 hR, hr.2 hR, Bool.and_self]⟩
  case branch c t e p =>
    exact (ih sc c).bind fun _ => (ih sc t).bind fun _ => (analyzeOpt_quiet ih sc e).bind fun _ =>
      Quiet.pure fun he ht hc => ⟨by simp only [Expr.litsOk, hc.1, ht.1, he.1, Bool.and_self],
        fun hR => by simp only [Expr.resolved, hc.2 hR, ht.2 hR, he.2 hR, Bool.and_self]⟩
  case matchOn s cases p =>
    exact (analyzeCases_quiet hI ih sc cases).bind fun _ => (ih sc s).bind fun _ =>
      Quiet.pure fun hs hcs => ⟨by simp only [Expr.litsOk, hs.1, hcs.1, Bool.and_self],
        fun hR => by simp only [Expr.resolved, hs.2 hR, hcs.2 hR, Bool.and_self]⟩
  case foreach name it body p =>
    exact (ih sc it).bind fun _ => (ih sc body).bind fun _ =>
      Quiet.pure fun hb hit => ⟨by simp only [Expr.litsOk, hit.1, hb.1, Bool.and_self],
        fun hR => by simp only [Expr.resolved, hit.2 hR, hb.2 hR, Bool.and_self]⟩
  case list es p => exact (analyzeList_quiet ih sc es).bind fun _ => Quiet.pure id
  case tuple es p => exact (analyzeList_quiet ih sc es).bind fun _ => Quiet.pure id
  case access t i p =>
    refine (ih sc t).bind fun t => ?_
    -- the index check reports or does nothing
    split
    · split
      · exact (Quiet.report _ _ _).seq fun _ => Quiet.pure id
      · exact Quiet.pure id
    · exact Quiet.pure id
  case dict entries p =>
    exact (analyzeEntries_quiet hI ih sc entries).bind fun _ => Quiet.pure fun h =>
      ⟨litsOkEntries_lastPerKey h.1, fun hR => resolvedEntries_lastPerKey (h.2 hR)⟩
  case schema cols p =>
    -- the columns gathered so far have resolved types, where the aliases are resolved
    refine (Quiet.forIn_keeps
      (S := fun s => sc.aliases.Resolved → ∀ c ∈ s.2, c.2.hasUnknown = false)
      (fun x s => ?_) cols _).bind fun r => Quiet.pure fun hr => ⟨hI.schema _, fun hR => ?_⟩
    · -- a pass reports a repeated column or not, and adds the column with its resolved type
      have hcolumn := (resolveType_quiet sc.aliases x.2).bind fun ct =>
        Quiet.pure (P := fun r : ForInStep (List String × List (String × Ty)) =>
            (sc.aliases.Resolved → ct.hasUnknown = false) →
              (sc.aliases.Resolved → ∀ c ∈ s.2, c.2.hasUnknown = false) →
                sc.aliases.Resolved → ∀ c ∈ r.value.2, c.2.hasUnknown = false)
          (a := .yield (s.1 ++ [x.1], s.2 ++ [(x.1, ct)])) fun hct hs hR c hc => by
            rcases List.mem_append.1 hc with hc | hc
            · exact hs hR c hc
            · rw [List.mem_singleton.1 hc]
              exact hct hR
      split
      · exact (Quiet.report _ _ _).seq fun _ => hcolumn
      · exact hcolumn
    · have hcols := hr (fun _ c hc => by simp at hc) hR
      simp only [Expr.resolved, List.all_eq_true, Bool.not_eq_eq_eq_not, Bool.not_true]
      exact hcols
  case empty => exact Quiet.pure ⟨rfl, fun _ => rfl⟩

/-- Analysis at any budget that adds no diagnostic gives an expression it accepts. -/
theorem analyzerQuiet (hI : I.AnalysisChecks) : ∀ budget, AnalyzerQuiet I budget
  | 0 => analyzerQuiet_zero
  | budget + 1 => analyzerQuiet_succ hI (analyzerQuiet hI budget)

/-- The invariant that asks nothing of a run; analysis checks it in full. -/
def Inv.anything : Inv := ⟨fun _ => true, fun _ => true, fun _ _ => True, fun _ => True⟩

theorem Inv.anything_analysisChecks : Inv.anything.AnalysisChecks :=
  ⟨fun _ _ => rfl, fun _ => rfl⟩

/-- A program that analysis accepts, with no diagnostic, writes only literals that satisfy
every invariant it checks; where the aliases it starts from are resolved, its written types
are resolved, and so are the aliases it leaves in scope. -/
theorem analyzeProgram_accepted (hI : I.AnalysisChecks) {depth : Nat} {aliases : Aliases}
    {trace : Bool} {n : Node} {e : Expr} {as : Aliases}
    (hres : (analyzeProgram depth aliases trace n).result = some (e, as))
    (hquiet : (analyzeProgram depth aliases trace n).diagnostics.isEmpty = true) :
    e.litsOk I = true ∧ (aliases.Resolved → e.resolved = true ∧ as.Resolved) := by
  have hrun := analyzeRest_quiet (analyzerQuiet hI depth) ⟨aliases, trace⟩ (some n)
    ⟨#[], ""⟩
  unfold analyzeProgram at hres hquiet
  dsimp only at hres hquiet
  change ∀ r L', (analyzeRest _ _ (some n)).run ⟨#[], ""⟩ = (.ok r, L') → _ at hrun
  generalize (analyzeRest _ _ (some n)).run ⟨#[], ""⟩ = X at hrun hres hquiet
  obtain ⟨r, L'⟩ := X
  -- only a finished run with an expression gives a result
  cases r with
  | error abort => cases abort; simp at hres
  | ok r =>
    obtain ⟨_ | e', as'⟩ := r
    · simp at hres
    · simp only [Option.some.injEq, Prod.mk.injEq] at hres
      obtain ⟨rfl, rfl⟩ := hres
      have hsize : L'.diagnostics.size = 0 := by simpa using hquiet
      exact (hrun _ _ rfl).2 (by simp [hsize])

/-- Every literal of a program that analysis accepts, with no diagnostic, satisfies every
invariant that admits the 32-bit integers and every schema. -/
theorem analyzeProgram_litsOk (hI : I.AnalysisChecks) {depth : Nat} {aliases : Aliases}
    {trace : Bool} {n : Node} {e : Expr} {as : Aliases}
    (hres : (analyzeProgram depth aliases trace n).result = some (e, as))
    (hquiet : (analyzeProgram depth aliases trace n).diagnostics.isEmpty = true) :
    e.litsOk I = true :=
  (analyzeProgram_accepted hI hres hquiet).1

/-- A program that analysis accepts under resolved aliases, with no diagnostic, has its
written types resolved, and so are the aliases it leaves in scope. -/
theorem analyzeProgram_resolved {depth : Nat} {aliases : Aliases} {trace : Bool} {n : Node}
    {e : Expr} {as : Aliases} (haliases : aliases.Resolved)
    (hres : (analyzeProgram depth aliases trace n).result = some (e, as))
    (hquiet : (analyzeProgram depth aliases trace n).diagnostics.isEmpty = true) :
    e.resolved = true ∧ as.Resolved :=
  (analyzeProgram_accepted Inv.anything_analysisChecks hres hquiet).2 haliases

end Retl
