import Retl.Proofs.SourceOrder
import Retl.Proofs.OperatorPrecedence
import Retl.Proofs.NodeSearch
/-!
# Reading keeps the order of the text

Every rule of the grammar lays the positions of the nodes it reads in the order of the text
they are read from, each node's position before its children's (`Reader.Lays`). A node stands
at its first token, or where its first child stands: a binary operation where its left operand
does, a call or a field access where its primary does, and an expression statement's binding
where the expression does. The one rule that puts a node's child before text that comes earlier
is the pipeline: `x |> f(a)` is the call `f(a, x)`. So in a program where `|>` does not occur,
the listing of the tree shows positions in the order of the text (`readProgram_spots_ordered`),
and so do the nodes of a kind that the search finds, in the order of the listing
(`found_nodes_follow_listing`). With a pipeline they need not: in `xs |> f(a)` the reference
`xs` is found last (`pipeline_operand_listed_last`).
-/

namespace Retl

namespace Tree

open Source Reader

/-! ### Listings of the parts of a tree -/

namespace Outline

theorem spotsAll_typeOutlineAll (ts : List TypeExpr) :
    spotsAll (TypeExpr.outlineAll ts) = ts.flatMap fun t => t.outline.spots := by
  induction ts with
  | nil => simp [TypeExpr.outlineAll]
  | cons t ts ih => simp [TypeExpr.outlineAll, ih]

theorem spotsAll_outlineOpt (o : Option Node) :
    spotsAll (Node.outlineOpt o) = (o.map fun n => n.outline.spots).getD [] := by
  cases o <;> simp [Node.outlineOpt]

theorem spotsAll_outlineAll (ns : List Node) :
    spotsAll (Node.outlineAll ns) = ns.flatMap fun n => n.outline.spots := by
  induction ns with
  | nil => simp [Node.outlineAll]
  | cons n ns ih => simp [Node.outlineAll, ih]

theorem spotsAll_outlineEntries (es : List (LitNode × Node)) :
    spotsAll (Node.outlineEntries es) =
      es.flatMap fun e => e.1.outline.spots ++ e.2.outline.spots := by
  induction es with
  | nil => simp [Node.outlineEntries]
  | cons e es ih => simp [Node.outlineEntries, ih]

theorem spotsAll_outlineCases (cs : List (Pattern × Node)) :
    spotsAll (Node.outlineCases cs) =
      cs.flatMap fun c => c.1.outline.spots ++ c.2.outline.spots := by
  induction cs with
  | nil => simp [Node.outlineCases]
  | cons c cs ih => simp [Node.outlineCases, ih]

theorem spotsAll_outlineNamedTypes (cs : List (String × TypeExpr)) :
    spotsAll (outlineNamedTypes cs) = cs.flatMap fun c => c.2.outline.spots := by
  rw [outlineNamedTypes, spotsAll_map]

end Outline

variable {src : Source} {i j : Nat}

/-! ### Types and literals -/

/-- The bracketed members of a type read in order. -/
theorem members_lays {inner : Reader TypeExpr}
    (hinner : Lays src inner fun t => t.outline.spots) :
    Lays src (do symbol "["; let ts ← sepBy1 inner (symbol ","); symbol "]"; pure ts)
      fun ts => ts.flatMap fun t => t.outline.spots := by
  intro i ts j h
  obtain ⟨_, k₁, hk₁, h⟩ := token_then (symbol_forward _) h
  obtain ⟨ts', k₂, hts, h⟩ := bind_eq_read h
  obtain ⟨_, k₃, hk₃, h⟩ := token_then (symbol_forward _) h
  obtain ⟨rfl, rfl⟩ := pure_eq_read h
  exact (Lays.sepBy1 hinner (symbol_forward _) _ _ _ hts).mono hk₁ hk₃

section TypeAlternatives

/-! Each alternative of a type reads a node at the position of the token it starts at, over
what it reads after it. -/

variable {inner : Reader TypeExpr} (hinner : Lays src inner fun t => t.outline.spots)
  {t : TypeExpr} {k : Nat}
include hinner

theorem listType_lays
    (h : (do
        keyword "list"
        symbol "["
        let e ← inner
        symbol "]"
        pure (TypeExpr.list e (src.positionAt k))) src k = .read t j) :
    Ordered src k j t.outline.spots := by
  obtain ⟨_, k₁, hk₁, h⟩ := token_then (keyword_forward _) h
  obtain ⟨_, k₂, hk₂, h⟩ := token_then (symbol_forward _) h
  obtain ⟨e, k₃, he, h⟩ := bind_eq_read h
  obtain ⟨_, k₄, hk₄, h⟩ := token_then (symbol_forward _) h
  obtain ⟨rfl, rfl⟩ := pure_eq_read h
  simp only [TypeExpr.outline, Outline.spots_node, Outline.spotsAll_cons, Outline.spotsAll_nil,
    List.append_nil]
  exact .cons (Nat.le_refl _) ((hinner _ _ _ he).mono (by omega) hk₄)

/-- A tuple or a union: a keyword, then the bracketed members. -/
theorem membersType_lays {kw : String} {mk : List TypeExpr → TypeExpr}
    (h : (do
        keyword kw
        let ts ← (do symbol "["; let ts ← sepBy1 inner (symbol ","); symbol "]"; pure ts)
        pure (mk ts)) src k = .read t j)
    (hmk : ∀ ts, (mk ts).outline.spots = src.positionAt k :: ts.flatMap fun t => t.outline.spots) :
    Ordered src k j t.outline.spots := by
  obtain ⟨_, k₁, hk₁, h⟩ := token_then (keyword_forward _) h
  obtain ⟨ts, k₂, hts, h⟩ := bind_eq_read h
  obtain ⟨rfl, rfl⟩ := pure_eq_read h
  rw [hmk]
  exact .cons (Nat.le_refl _) ((members_lays hinner _ _ _ hts).mono hk₁ (Nat.le_refl _))

theorem dictType_lays
    (h : (do
        keyword "dict"
        symbol "["
        let kt ← inner
        symbol ":"
        let vt ← inner
        symbol "]"
        pure (TypeExpr.dict kt vt (src.positionAt k))) src k = .read t j) :
    Ordered src k j t.outline.spots := by
  obtain ⟨_, k₁, hk₁, h⟩ := token_then (keyword_forward _) h
  obtain ⟨_, k₂, hk₂, h⟩ := token_then (symbol_forward _) h
  obtain ⟨tk, k₃, htk, h⟩ := bind_eq_read h
  obtain ⟨_, k₄, hk₄, h⟩ := token_then (symbol_forward _) h
  obtain ⟨tv, k₅, htv, h⟩ := bind_eq_read h
  obtain ⟨_, k₆, hk₆, h⟩ := token_then (symbol_forward _) h
  obtain ⟨rfl, rfl⟩ := pure_eq_read h
  simp only [TypeExpr.outline, Outline.spots_node, Outline.spotsAll_cons, Outline.spotsAll_nil,
    List.append_nil]
  exact .cons (Nat.le_refl _) (((hinner _ _ _ htk).mono (by omega) (Nat.le_refl _)).append
    ((hinner _ _ _ htv).mono hk₄ hk₆))

theorem lambdaType_lays
    (h : (do
        keyword "lambda"
        symbol "["
        let ps ← optional (sepBy1 inner (symbol ","))
        symbol "->"
        let r ← inner
        symbol "]"
        pure (TypeExpr.func (ps.getD []) r (src.positionAt k))) src k = .read t j) :
    Ordered src k j t.outline.spots := by
  obtain ⟨_, k₁, hk₁, h⟩ := token_then (keyword_forward _) h
  obtain ⟨_, k₂, hk₂, h⟩ := token_then (symbol_forward _) h
  obtain ⟨ps, k₃, hps, h⟩ := bind_eq_read h
  obtain ⟨_, k₄, hk₄, h⟩ := token_then (symbol_forward _) h
  obtain ⟨r, k₅, hr, h⟩ := bind_eq_read h
  obtain ⟨_, k₆, hk₆, h⟩ := token_then (symbol_forward _) h
  obtain ⟨rfl, rfl⟩ := pure_eq_read h
  have hps' := Lays.optionalList (Lays.sepBy1 hinner (symbol_forward _)) _ _ _ hps
  simp only [TypeExpr.outline, Outline.spots_node, Outline.spotsAll_append,
    Outline.spotsAll_typeOutlineAll, Outline.spotsAll_cons, Outline.spotsAll_nil,
    List.append_nil]
  exact .cons (Nat.le_refl _) ((hps'.mono (by omega) hk₄).append
    ((hinner _ _ _ hr).mono (Nat.le_refl _) hk₆))

end TypeAlternatives

/-- A type named by one token: a scalar type or a type name. -/
theorem typeLeaf_lays {β : Type} {r : Reader β} {mk : β → TypeExpr} {t : TypeExpr} {k : Nat}
    (hr : r.Forward) (h : (r >>= fun b => pure (mk b)) src k = .read t j)
    (hmk : ∀ b, (mk b).outline.spots = [src.positionAt k]) : Ordered src k j t.outline.spots := by
  obtain ⟨b, k', hb, h⟩ := bind_eq_read h
  obtain ⟨rfl, rfl⟩ := pure_eq_read h
  rw [hmk]
  exact .single (Nat.le_refl _) (hr _ _ _ _ hb)

theorem typeExpr_lays : ∀ d, Lays src (typeExpr d) fun t => t.outline.spots
  | 0 => fun _ _ _ h => by cases h
  | d + 1 => by
    have inner := typeExpr_lays d
    intro i t j h
    rw [typeExpr] at h
    replace h := tokenPosition_then h
    refine Ordered.mono ?_ (le_skipBlank src i) (Nat.le_refl _)
    rcases orElse_eq_read h with h | h
    · exact listType_lays inner h
    rcases orElse_eq_read h with h | h
    · exact membersType_lays inner h fun ts => by
        simp only [TypeExpr.outline, Outline.spots_node, Outline.spotsAll_typeOutlineAll]
    rcases orElse_eq_read h with h | h
    · exact dictType_lays inner h
    rcases orElse_eq_read h with h | h
    · exact membersType_lays inner h fun ts => by
        simp only [TypeExpr.outline, Outline.spots_node, Outline.spotsAll_typeOutlineAll]
    rcases orElse_eq_read h with h | h
    · exact lambdaType_lays inner h
    rcases orElse_eq_read h with h | h
    · exact typeLeaf_lays (oneKeyword_forward _ _) h fun _ => by
        simp only [TypeExpr.outline, Outline.spots_node, Outline.spotsAll_nil]
    · exact typeLeaf_lays identifier_forward h fun _ => by
        simp only [TypeExpr.outline, Outline.spots_node, Outline.spotsAll_nil]

/-- A literal's alternative, at the position of the token it starts at, lays that position. -/
theorem literal_alt {β : Type} {r : Reader β} {mk : β → Literal} {l : LitNode} {k : Nat}
    (hr : r.Forward) (h : (r >>= fun b => pure ⟨mk b, src.positionAt k⟩) src k = .read l j) :
    Ordered src k j l.outline.spots := by
  obtain ⟨b, k', hb, h⟩ := bind_eq_read h
  obtain ⟨rfl, rfl⟩ := pure_eq_read h
  rw [LitNode.outline_spots]
  exact .single (Nat.le_refl _) (hr _ _ _ _ hb)

/-- The alternatives that literals and pattern literals share: booleans, `null`, characters
and strings. -/
theorem literal_tail {l : LitNode} {k : Nat}
    (h : ((do let b ← oneKeyword id ["true", "false"]; pure ⟨.bool (b == "true"), src.positionAt k⟩)
      <|> (do keyword "null"; pure ⟨.null, src.positionAt k⟩)
      <|> (do let c ← charLiteral; pure ⟨.char c, src.positionAt k⟩)
      <|> (do let s ← stringLiteral; pure ⟨.string s, src.positionAt k⟩) : Reader LitNode)
        src k = .read l j) :
    Ordered src k j l.outline.spots := by
  rcases orElse_eq_read h with h | h
  · exact literal_alt (oneKeyword_forward _ _) h
  rcases orElse_eq_read h with h | h
  · exact literal_alt (keyword_forward _) h
  rcases orElse_eq_read h with h | h
  · exact literal_alt charLiteral_forward h
  · exact literal_alt stringLiteral_forward h

theorem literal_lays : Lays src literal fun l => l.outline.spots := by
  intro i l j h
  unfold literal at h
  replace h := tokenPosition_then h
  refine Ordered.mono ?_ (le_skipBlank src i) (Nat.le_refl _)
  rcases orElse_eq_read h with h | h
  · exact literal_alt natural_forward h
  · exact literal_tail h

/-- Pattern literals differ from literals only in reading a sign before an integer. -/
theorem patternLiteral_lays : Lays src patternLiteral fun l => l.outline.spots := by
  intro i l j h
  unfold patternLiteral at h
  replace h := tokenPosition_then h
  refine Ordered.mono ?_ (le_skipBlank src i) (Nat.le_refl _)
  rcases orElse_eq_read h with h | h
  · exact literal_alt signed_forward h
  · exact literal_tail h

/-! ### The rules over nested readers -/

/-- The readers a rule nests each lay the positions of what they read in the order of the
text. -/
structure Nested.Lays (g : Nested) (src : Source) : Prop where
  expr : Reader.Lays src g.expr fun n => n.outline.spots
  stmts : Reader.Lays src g.stmts fun n => n.outline.spots
  type : Reader.Lays src g.type fun t => t.outline.spots

/-- The positions of a conditional's arm: its `if`, its condition and its block. -/
def armSpots (arm : Position × Node × Node) : List Position :=
  arm.1 :: (arm.2.1.outline.spots ++ arm.2.2.outline.spots)

theorem foldArms_spots (arms : List (Position × Node × Node)) (e : Option Node) :
    ((foldArms arms e).map fun n => n.outline.spots).getD [] =
      arms.flatMap armSpots ++ (e.map fun n => n.outline.spots).getD [] := by
  induction arms with
  | nil => simp [foldArms]
  | cons arm arms ih =>
    obtain ⟨p, c, t⟩ := arm
    simp only [foldArms, Option.map_some, Option.getD_some, Node.outline, Outline.spots_node,
      Outline.spotsAll_cons, List.nil_append, Outline.spotsAll_outlineOpt, ih, armSpots,
      List.flatMap_cons, List.cons_append, List.append_assoc]

section Rules

variable {g : Nested} (hg : g.Lays src)
include hg

theorem block_lays : Lays src (block g) fun n => n.outline.spots := by
  intro i n j h
  unfold block at h
  replace h := tokenPosition_then h
  obtain ⟨_, k₁, hk₁, h⟩ := token_then (symbol_forward _) h
  obtain ⟨body, k₂, hbody, h⟩ := bind_eq_read h
  obtain ⟨_, k₃, hk₃, h⟩ := token_then (symbol_forward _) h
  obtain ⟨rfl, rfl⟩ := pure_eq_read h
  have hb := Lays.optional hg.stmts _ _ _ hbody
  have hk₀ := le_skipBlank src i
  -- an empty block stands at its brace, a full one is its statements
  cases body with
  | none =>
    simp only [Option.getD, Node.outline, Outline.spots_node, Outline.spotsAll_nil]
    exact .single hk₀ (by have := hb.le; omega)
  | some b => exact hb.mono (by omega) hk₃

theorem typedName_lays : Lays src (typedName g) fun nt => nt.2.outline.spots := by
  intro i nt j h
  unfold typedName at h
  obtain ⟨_, k₁, hk₁, h⟩ := token_then identifier_forward h
  obtain ⟨_, k₂, hk₂, h⟩ := token_then (symbol_forward _) h
  obtain ⟨t, k₃, ht, h⟩ := bind_eq_read h
  obtain ⟨rfl, rfl⟩ := pure_eq_read h
  exact (hg.type _ _ _ ht).mono (by omega) (Nat.le_refl _)

/-- Typed names separated by commas, if any. -/
theorem typedNames_lays :
    Lays src (optional (sepBy1 (typedName g) (symbol ",")))
      fun o => (o.getD []).flatMap fun nt => nt.2.outline.spots :=
  Lays.optionalList (Lays.sepBy1 (typedName_lays hg) (symbol_forward _))

theorem lambda_lays : Lays src (lambda g) fun n => n.outline.spots := by
  intro i n j h
  unfold lambda at h
  replace h := tokenPosition_then h
  obtain ⟨_, k₁, hk₁, h⟩ := token_then (symbol_forward _) h
  obtain ⟨ps, k₂, hps, h⟩ := bind_eq_read h
  obtain ⟨_, k₃, hk₃, h⟩ := token_then (symbol_forward _) h
  obtain ⟨r, k₄, hr, h⟩ := bind_eq_read h
  obtain ⟨body, k₅, hbody, h⟩ := bind_eq_read h
  obtain ⟨rfl, rfl⟩ := pure_eq_read h
  simp only [Node.outline, Outline.spots_node, Outline.spotsAll_append,
    Outline.spotsAll_outlineNamedTypes, Outline.spotsAll_cons, Outline.spotsAll_nil,
    List.append_nil]
  exact .cons (le_skipBlank src i) (((typedNames_lays hg _ _ _ hps).mono hk₁ hk₃).append
    ((hg.type _ _ _ hr).append (block_lays hg _ _ _ hbody)))

theorem branchArm_lays : Lays src (branchArm g) armSpots := by
  intro i arm j h
  unfold branchArm at h
  replace h := tokenPosition_then h
  obtain ⟨_, k₁, hk₁, h⟩ := token_then (keyword_forward _) h
  obtain ⟨c, k₂, hc, h⟩ := bind_eq_read h
  obtain ⟨t, k₃, ht, h⟩ := bind_eq_read h
  obtain ⟨rfl, rfl⟩ := pure_eq_read h
  exact .cons (le_skipBlank src i)
    (((hg.expr _ _ _ hc).mono hk₁ (Nat.le_refl _)).append (block_lays hg _ _ _ ht))

theorem branch_lays : Lays src (branch g) fun n => n.outline.spots := by
  intro i n j h
  unfold branch at h
  obtain ⟨⟨p, c, t⟩, k₁, hfirst, h⟩ := bind_eq_read h
  obtain ⟨more, k₂, hmore, h⟩ := bind_eq_read h
  obtain ⟨last, k₃, hlast, h⟩ := bind_eq_read h
  obtain ⟨rfl, rfl⟩ := pure_eq_read h
  -- the first arm is the node itself; the `else` arms nest in the order they are read
  have h₁ := branchArm_lays hg _ _ _ hfirst
  have h₂ := Lays.many (Lays.after (keyword_forward _) fun _ => branchArm_lays hg) _ _ _ hmore
  have h₃ := Lays.optional (Lays.after (keyword_forward _) fun _ => block_lays hg) _ _ _ hlast
  have h := h₁.append (h₂.append h₃)
  simp only [armSpots, List.cons_append, List.append_assoc] at h
  simp only [Node.outline, Outline.spots_node, Outline.spotsAll_append, Outline.spotsAll_cons,
    Outline.spotsAll_nil, List.append_nil, Outline.spotsAll_outlineOpt, foldArms_spots,
    List.append_assoc]
  exact h

theorem pattern_lays : Lays src (pattern g) fun pat => pat.outline.spots := by
  intro i pat j h
  unfold pattern at h
  replace h := tokenPosition_then h
  have hk₀ := le_skipBlank src i
  rcases orElse_eq_read h with h | h
  · -- `_`
    obtain ⟨_, k₁, hk₁, h⟩ := token_then (keyword_forward _) h
    obtain ⟨rfl, rfl⟩ := pure_eq_read h
    exact .single hk₀ hk₁
  rcases orElse_eq_read h with h | h
  · -- a range
    obtain ⟨_, k₁, hk₁, h⟩ := token_then rangeBounds_forward h
    obtain ⟨rfl, rfl⟩ := pure_eq_read h
    exact .single hk₀ hk₁
  rcases orElse_eq_read h with h | h
  · -- literals joined by `|`
    obtain ⟨l, k₁, hl, h⟩ := bind_eq_read h
    obtain ⟨ls, k₂, hls, h⟩ := bind_eq_read h
    obtain ⟨rfl, rfl⟩ := pure_eq_read h
    have hls' := Lays.many1 (Lays.after (symbol_forward _) fun _ => patternLiteral_lays) _ _ _ hls
    simp only [Pattern.outline, Outline.spots_node, Outline.spotsAll_map, List.flatMap_cons]
    exact .cons hk₀ ((patternLiteral_lays _ _ _ hl).append hls')
  rcases orElse_eq_read h with h | h
  · -- a lone literal is a pattern node at the literal's own position
    obtain ⟨l, k₁, hl, h⟩ := bind_eq_read h
    obtain ⟨rfl, rfl⟩ := pure_eq_read h
    have hl' : Ordered src _ _ l.outline.spots := patternLiteral_lays _ _ _ hl
    rw [l.outline_spots] at hl'
    simp only [Pattern.outline, Outline.spots_node, Outline.spotsAll_cons, Outline.spotsAll_nil,
      List.append_nil, l.outline_spots]
    exact (hl'.dup).mono hk₀ (Nat.le_refl _)
  · -- `name: type` with an optional guard
    obtain ⟨⟨n, t⟩, k₁, ht, h⟩ := bind_eq_read h
    obtain ⟨guard, k₂, hguard, h⟩ := bind_eq_read h
    obtain ⟨rfl, rfl⟩ := pure_eq_read h
    have hguard' := Lays.optional (Lays.after (keyword_forward _) fun _ => hg.expr) _ _ _ hguard
    simp only [Pattern.outline, Outline.spots_node, Outline.spotsAll_cons,
      Outline.spotsAll_outlineOpt]
    exact .cons hk₀ ((typedName_lays hg _ _ _ ht).append hguard')

theorem matchCase_lays :
    Lays src (matchCase g) fun c => c.1.outline.spots ++ c.2.outline.spots := by
  intro i c j h
  unfold matchCase at h
  obtain ⟨_, k₁, hk₁, h⟩ := token_then (keyword_forward _) h
  obtain ⟨pat, k₂, hpat, h⟩ := bind_eq_read h
  obtain ⟨_, k₃, hk₃, h⟩ := token_then (symbol_forward _) h
  obtain ⟨body, k₄, hbody, h⟩ := bind_eq_read h
  obtain ⟨_, k₅, hk₅, h⟩ := token_then ((symbol_forward _).optional) h
  obtain ⟨rfl, rfl⟩ := pure_eq_read h
  exact ((pattern_lays hg _ _ _ hpat).mono hk₁ hk₃).append
    ((hg.stmts _ _ _ hbody).mono (Nat.le_refl _) hk₅)

theorem matchOn_lays : Lays src (matchOn g) fun n => n.outline.spots := by
  intro i n j h
  unfold matchOn at h
  replace h := tokenPosition_then h
  obtain ⟨_, k₁, hk₁, h⟩ := token_then (keyword_forward _) h
  obtain ⟨s, k₂, hs, h⟩ := bind_eq_read h
  obtain ⟨_, k₃, hk₃, h⟩ := token_then (symbol_forward _) h
  obtain ⟨cs, k₄, hcs, h⟩ := bind_eq_read h
  obtain ⟨_, k₅, hk₅, h⟩ := token_then (symbol_forward _) h
  obtain ⟨rfl, rfl⟩ := pure_eq_read h
  simp only [Node.outline, Outline.spots_node, Outline.spotsAll_cons,
    Outline.spotsAll_outlineCases]
  exact .cons (le_skipBlank src i) (((hg.expr _ _ _ hs).mono hk₁ hk₃).append
    ((Lays.many1 (matchCase_lays hg) _ _ _ hcs).mono (Nat.le_refl _) hk₅))

theorem foreach_lays : Lays src (foreach g) fun n => n.outline.spots := by
  intro i n j h
  unfold foreach at h
  replace h := tokenPosition_then h
  obtain ⟨_, k₁, hk₁, h⟩ := token_then (keyword_forward _) h
  obtain ⟨_, k₂, hk₂, h⟩ := token_then identifier_forward h
  obtain ⟨_, k₃, hk₃, h⟩ := token_then (keyword_forward _) h
  obtain ⟨it, k₄, hit, h⟩ := bind_eq_read h
  obtain ⟨body, k₅, hbody, h⟩ := bind_eq_read h
  obtain ⟨rfl, rfl⟩ := pure_eq_read h
  simp only [Node.outline, Outline.spots_node, Outline.spotsAll_cons, Outline.spotsAll_nil,
    List.append_nil]
  exact .cons (le_skipBlank src i) (((hg.expr _ _ _ hit).mono (by omega) (Nat.le_refl _)).append
    (block_lays hg _ _ _ hbody))

theorem schema_lays : Lays src (schema g) fun n => n.outline.spots := by
  intro i n j h
  unfold schema at h
  replace h := tokenPosition_then h
  obtain ⟨_, k₁, hk₁, h⟩ := token_then (keyword_forward _) h
  obtain ⟨_, k₂, hk₂, h⟩ := token_then (symbol_forward _) h
  obtain ⟨cols, k₃, hcols, h⟩ := bind_eq_read h
  obtain ⟨_, k₄, hk₄, h⟩ := token_then ((symbol_forward _).optional) h
  obtain ⟨_, k₅, hk₅, h⟩ := token_then (symbol_forward _) h
  obtain ⟨rfl, rfl⟩ := pure_eq_read h
  simp only [Node.outline, Outline.spots_node, Outline.spotsAll_outlineNamedTypes]
  exact .cons (le_skipBlank src i) ((typedNames_lays hg _ _ _ hcols).mono (by omega) (by omega))

theorem exprList_lays : Lays src (exprList g) fun es => es.flatMap fun e => e.outline.spots := by
  intro i es j h
  unfold exprList at h
  obtain ⟨es', k, hes, h⟩ := bind_eq_read h
  obtain ⟨rfl, rfl⟩ := pure_eq_read h
  exact Lays.optionalList (Lays.sepBy1 hg.expr (symbol_forward _)) _ _ _ hes

theorem listLiteral_lays : Lays src (listLiteral g) fun n => n.outline.spots := by
  intro i n j h
  unfold listLiteral at h
  replace h := tokenPosition_then h
  obtain ⟨_, k₁, hk₁, h⟩ := token_then (symbol_forward _) h
  obtain ⟨es, k₂, hes, h⟩ := bind_eq_read h
  obtain ⟨_, k₃, hk₃, h⟩ := token_then (symbol_forward _) h
  obtain ⟨rfl, rfl⟩ := pure_eq_read h
  simp only [Node.outline, Outline.spots_node, Outline.spotsAll_outlineAll]
  exact .cons (le_skipBlank src i) ((exprList_lays hg _ _ _ hes).mono hk₁ hk₃)

theorem dictLiteral_lays : Lays src (dictLiteral g) fun n => n.outline.spots := by
  intro i n j h
  unfold dictLiteral at h
  replace h := tokenPosition_then h
  obtain ⟨_, k₁, hk₁, h⟩ := token_then (symbol_forward _) h
  obtain ⟨es, k₂, hes, h⟩ := bind_eq_read h
  obtain ⟨_, k₃, hk₃, h⟩ := token_then (symbol_forward _) h
  obtain ⟨rfl, rfl⟩ := pure_eq_read h
  -- an entry lays its key, then its value
  have entry : Lays src (do let k ← literal; symbol ":"; let v ← g.expr; pure (k, v))
      fun e => e.1.outline.spots ++ e.2.outline.spots := by
    intro i e j h
    obtain ⟨k, k₁, hk, h⟩ := bind_eq_read h
    obtain ⟨_, k₂, hk₂, h⟩ := token_then (symbol_forward _) h
    obtain ⟨v, k₃, hv, h⟩ := bind_eq_read h
    obtain ⟨rfl, rfl⟩ := pure_eq_read h
    exact (literal_lays _ _ _ hk).append ((hg.expr _ _ _ hv).mono hk₂ (Nat.le_refl _))
  simp only [Node.outline, Outline.spots_node, Outline.spotsAll_outlineEntries]
  exact .cons (le_skipBlank src i)
    ((Lays.optionalList (Lays.sepBy1 entry (symbol_forward _)) _ _ _ hes).mono hk₁ hk₃)

theorem parenthesized_lays : Lays src (parenthesized g) fun n => n.outline.spots := by
  intro i n j h
  unfold parenthesized at h
  replace h := tokenPosition_then h
  obtain ⟨_, k₁, hk₁, h⟩ := token_then (symbol_forward _) h
  have hk₀ := le_skipBlank src i
  rcases orElse_eq_read h with h | h
  · obtain ⟨_, k₂, hk₂, h⟩ := token_then (symbol_forward _) h
    obtain ⟨rfl, rfl⟩ := pure_eq_read h
    exact .single hk₀ (by omega)
  obtain ⟨e, k₂, he, h⟩ := bind_eq_read h
  have he' := hg.expr _ _ _ he
  rcases orElse_eq_read h with h | h
  · obtain ⟨_, k₃, hk₃, h⟩ := token_then (symbol_forward _) h
    obtain ⟨rest, k₄, hrest, h⟩ := bind_eq_read h
    obtain ⟨_, k₅, hk₅, h⟩ := token_then (symbol_forward _) h
    obtain ⟨rfl, rfl⟩ := pure_eq_read h
    simp only [Node.outline, Outline.spots_node, Outline.spotsAll_outlineAll, List.flatMap_cons]
    exact .cons hk₀ ((he'.mono hk₁ (Nat.le_refl _)).append
      ((exprList_lays hg _ _ _ hrest).mono hk₃ hk₅))
  · -- an expression in parentheses is the expression itself
    obtain ⟨_, k₃, hk₃, h⟩ := token_then (symbol_forward _) h
    obtain ⟨rfl, rfl⟩ := pure_eq_read h
    exact he'.mono (by omega) hk₃

theorem primary_lays : Lays src (primary g) fun n => n.outline.spots := by
  intro i n j h
  unfold primary at h
  replace h := tokenPosition_then h
  have hk₀ := le_skipBlank src i
  have rule {r : Reader Node} (hr : Lays src r fun n => n.outline.spots)
      (h : r src (skipBlank src i) = .read n j) : Ordered src i j n.outline.spots :=
    (hr _ _ _ h).mono hk₀ (Nat.le_refl _)
  rcases orElse_eq_read h with h | h
  · exact rule (lambda_lays hg) h
  rcases orElse_eq_read h with h | h
  · exact rule (branch_lays hg) h
  rcases orElse_eq_read h with h | h
  · exact rule (matchOn_lays hg) h
  rcases orElse_eq_read h with h | h
  · exact rule (foreach_lays hg) h
  rcases orElse_eq_read h with h | h
  · exact rule (schema_lays hg) h
  rcases orElse_eq_read h with h | h
  · exact rule (listLiteral_lays hg) h
  rcases orElse_eq_read h with h | h
  · exact rule (dictLiteral_lays hg) h
  rcases orElse_eq_read h with h | h
  · exact rule (parenthesized_lays hg) h
  rcases orElse_eq_read h with h | h
  · obtain ⟨l, k₁, hl, h⟩ := bind_eq_read h
    obtain ⟨rfl, rfl⟩ := pure_eq_read h
    exact (literal_lays _ _ _ hl).mono hk₀ (Nat.le_refl _)
  · -- a name stands at the token noted before it
    obtain ⟨_, k₁, hk₁, h⟩ := token_then identifier_forward h
    obtain ⟨rfl, rfl⟩ := pure_eq_read h
    exact .single hk₀ hk₁

end Rules

/-! ### Operands and operators -/

/-- Folding onto a node from the left, where every new node stands at `p` over the node so far
and what `E` adds after it: the folded node repeats `p` once per step. -/
theorem spots_foldl {β : Type} {f : Node → β → Node} {p : Position} {E : β → List Position}
    (hf : ∀ n b, (f n b).outline.spots = p :: (n.outline.spots ++ E b)) :
    ∀ (xs : List β) (n : Node),
      (xs.foldl f n).outline.spots = List.replicate xs.length p ++ n.outline.spots ++ xs.flatMap E
  | [], n => by simp
  | x :: xs, n => by
    rw [List.foldl_cons, spots_foldl hf xs, hf, List.length_cons, List.replicate_succ',
      List.flatMap_cons]
    simp only [List.append_assoc, List.cons_append, List.nil_append]

/-- A node laid in order, repeated in front as the nodes folded over it, then more after it. -/
theorem ordered_foldl_head {n : Node} {k : Nat} {qs : List Position}
    (hn : Ordered src i k n.outline.spots) (hq : Ordered src k j qs) (m : Nat) :
    Ordered src i j (List.replicate m n.pos ++ n.outline.spots ++ qs) := by
  obtain ⟨ps, hps⟩ := n.spots_outline
  rw [hps] at hn ⊢
  exact (hn.replicate m).append hq

/-- The positions a suffix adds after its operand: a call's arguments. -/
def Suffix.spots : Suffix → List Position
  | .call args => args.flatMap fun a => a.outline.spots
  | .field _ => []

theorem prefixOp_lays : Lays src prefixOp fun q => [q.2] := by
  intro i q j h
  unfold prefixOp at h
  replace h := tokenPosition_then h
  obtain ⟨_, k₁, hk₁, h⟩ := token_then (operator_forward _) h
  obtain ⟨rfl, rfl⟩ := pure_eq_read h
  exact .single (le_skipBlank src i) hk₁

theorem spots_foldr_ops (ops : List (PrimOp × Position)) (x : Node) :
    (ops.foldr (fun q acc => .prim q.1 acc none q.2) x).outline.spots =
      ops.flatMap (fun q => [q.2]) ++ x.outline.spots := by
  induction ops with
  | nil => rfl
  | cons q ops ih => simp [Node.outline, Outline.spotsAll_outlineOpt, ih]

theorem binaryLevel_lays {ops : List (String × PrimOp)} {next : Reader Node}
    (hnext : Lays src next fun n => n.outline.spots) :
    Lays src (binaryLevel ops next) fun n => n.outline.spots := by
  intro i n j h
  rw [binaryLevel_eq] at h
  obtain ⟨first, k₁, hfirst, h⟩ := bind_eq_read h
  obtain ⟨rest, k₂, hrest, h⟩ := bind_eq_read h
  obtain ⟨rfl, rfl⟩ := pure_eq_read h
  have item : Lays src (binaryItem ops next) fun x => x.2.outline.spots := by
    intro k x j h
    unfold binaryItem at h
    obtain ⟨_, k₁, hk₁, h⟩ := token_then (operator_forward _) h
    obtain ⟨rhs, k₂, hrhs, h⟩ := bind_eq_read h
    obtain ⟨rfl, rfl⟩ := pure_eq_read h
    exact (hnext _ _ _ hrhs).mono hk₁ (Nat.le_refl _)
  -- each operation stands where the level's first operand does
  beta_reduce
  rw [spots_foldl (p := first.pos) (E := fun x => x.2.outline.spots)]
  · exact ordered_foldl_head (hnext _ _ _ hfirst) (Lays.many item _ _ _ hrest) _
  · intro acc x
    simp [Node.outline, Outline.spotsAll_outlineOpt]

section Operators

variable {g : Nested} (hg : g.Lays src)
include hg

theorem withSuffixes_lays : Lays src (withSuffixes g) fun n => n.outline.spots := by
  intro i n j h
  unfold withSuffixes at h
  obtain ⟨head, k₁, hhead, h⟩ := bind_eq_read h
  obtain ⟨sfx, k₂, hsfx, h⟩ := bind_eq_read h
  obtain ⟨rfl, rfl⟩ := pure_eq_read h
  have suffix : Lays src ((do symbol "("; let args ← exprList g; symbol ")"; pure (Suffix.call args))
      <|> (do let k ← fieldIndex; pure (Suffix.field k))) Suffix.spots := by
    refine .orElse (fun k s j h => ?_) (fun k s j h => ?_)
    · obtain ⟨_, k₁, hk₁, h⟩ := token_then (symbol_forward _) h
      obtain ⟨args, k₂, hargs, h⟩ := bind_eq_read h
      obtain ⟨_, k₃, hk₃, h⟩ := token_then (symbol_forward _) h
      obtain ⟨rfl, rfl⟩ := pure_eq_read h
      exact (exprList_lays hg _ _ _ hargs).mono hk₁ hk₃
    · obtain ⟨_, k₁, hk₁, h⟩ := token_then fieldIndex_forward h
      obtain ⟨rfl, rfl⟩ := pure_eq_read h
      exact .nil hk₁
  -- each call and field access stands where the primary does
  beta_reduce
  rw [spots_foldl (p := head.pos) (E := Suffix.spots)]
  · exact ordered_foldl_head (primary_lays hg _ _ _ hhead) (Lays.many suffix _ _ _ hsfx) _
  · intro acc s
    cases s <;> simp [Node.outline, Suffix.spots, Outline.spotsAll_outlineAll]

theorem prefixed_lays : Lays src (prefixed g) fun n => n.outline.spots := by
  intro i n j h
  rw [prefixed_eq] at h
  obtain ⟨ops, k₁, hops, h⟩ := bind_eq_read h
  obtain ⟨x, k₂, hx, h⟩ := bind_eq_read h
  obtain ⟨rfl, rfl⟩ := pure_eq_read h
  beta_reduce
  rw [spots_foldr_ops]
  exact (Lays.many prefixOp_lays _ _ _ hops).append (withSuffixes_lays hg _ _ _ hx)

theorem levelReader_lays : ∀ k, Lays src (levelReader g k) fun n => n.outline.spots
  | 0 => prefixed_lays hg
  | k + 1 => binaryLevel_lays (levelReader_lays k)

/-- With no `|>` in the text, an expression is laid in the order of the text. -/
theorem operatorExpr_lays (hpipe : ∀ m, ¬ src.Spells m "|>") :
    Lays src (operatorExpr g) fun n => n.outline.spots := by
  intro i n j h
  rw [operatorExpr_eq] at h
  obtain ⟨first, k₁, hfirst, h⟩ := bind_eq_read h
  obtain ⟨rest, k₂, hrest, h⟩ := bind_eq_read h
  obtain ⟨rfl, rfl⟩ := pure_eq_read h
  -- the pipeline loop reads nothing, its `|>` missing wherever it looks
  cases many_eq_read_seq hrest with
  | nil => exact levelReader_lays hg 6 _ _ _ hfirst
  | cons hread _ =>
    rw [pipeItem, bind_miss (symbol_miss rfl (hpipe _))] at hread
    cases hread

end Operators

/-! ### Statements -/

/-- The positions of a statement's parts, in the order they are written: a binding's `let` or
`alias`, its type and its value. -/
def Statement.spots : Statement → List Position
  | .bind _ t v p => p :: ((t.map fun t => t.outline.spots).getD [] ++ v.outline.spots)
  | .aliasType _ t p => p :: t.outline.spots
  | .expr e => e.outline.spots

theorem spotsAll_typeOption (t : Option TypeExpr) :
    Outline.spotsAll (t.map TypeExpr.outline).toList = (t.map fun t => t.outline.spots).getD [] := by
  cases t <;> simp

/-- Chaining statements keeps their positions in order: a binding holds the rest after its
value, and an expression followed by more is bound at its own position. -/
theorem chain_ordered : ∀ (ss : List Statement) {i : Nat},
    Ordered src i j (ss.flatMap Statement.spots) →
      Ordered src i j (((chain ss).map fun n => n.outline.spots).getD [])
  | [], _, h => .nil h.le
  | .bind n t v p :: rest, _, h => by
    obtain ⟨k, hs, hrest⟩ := Ordered.split h
    have hrest' := chain_ordered rest hrest
    simp only [chain, Option.map_some, Option.getD_some, Node.outline, Outline.spots_node,
      Outline.spotsAll_append, spotsAll_typeOption, Outline.spotsAll_cons, Outline.spotsAll_nil,
      List.append_nil, Outline.spotsAll_outlineOpt, List.append_assoc]
    have h := hs.append hrest'
    simp only [Statement.spots, List.cons_append, List.append_assoc] at h
    exact h
  | .aliasType n t p :: rest, _, h => by
    obtain ⟨k, hs, hrest⟩ := Ordered.split h
    have h := hs.append (chain_ordered rest hrest)
    simp only [chain, Option.map_some, Option.getD_some, Node.outline, Outline.spots_node,
      Outline.spotsAll_cons, Outline.spotsAll_outlineOpt]
    exact h
  | .expr e :: rest, _, h => by
    obtain ⟨k, hs, hrest⟩ := Ordered.split h
    have hrest' := chain_ordered rest hrest
    simp only [chain]
    -- the generated binding repeats the position of the expression it holds
    cases hc : chain rest with
    | none => exact hs.mono (Nat.le_refl _) hrest.le
    | some c =>
      rw [hc] at hrest'
      obtain ⟨ps, hps⟩ := e.spots_outline
      simp only [Statement.spots, hps] at hs
      simp only [Option.map_some, Option.getD_some, Node.outline, Outline.spots_node,
        Outline.spotsAll_append, Option.map_none, Outline.spotsAll_cons, Outline.spotsAll_nil,
        List.append_nil, Outline.spotsAll_outlineOpt, hps]
      exact (hs.append hrest').dup

section Statements

variable {g : Nested} (hg : g.Lays src)
include hg

theorem statement_lays : Lays src (statement g) Statement.spots := by
  intro i st j h
  unfold statement at h
  replace h := tokenPosition_then h
  have hk₀ := le_skipBlank src i
  rcases orElse_eq_read h with h | h
  · obtain ⟨_, k₁, hk₁, h⟩ := token_then (keyword_forward _) h
    obtain ⟨_, k₂, hk₂, h⟩ := token_then identifier_forward h
    obtain ⟨t, k₃, ht, h⟩ := bind_eq_read h
    obtain ⟨_, k₄, hk₄, h⟩ := token_then equalsSign_forward h
    obtain ⟨v, k₅, hv, h⟩ := bind_eq_read h
    obtain ⟨rfl, rfl⟩ := pure_eq_read h
    have ht' := Lays.optional (Lays.after (symbol_forward _) fun _ => hg.type) _ _ _ ht
    exact .cons hk₀ ((ht'.mono (by omega) hk₄).append (hg.expr _ _ _ hv))
  rcases orElse_eq_read h with h | h
  · obtain ⟨_, k₁, hk₁, h⟩ := token_then (keyword_forward _) h
    obtain ⟨_, k₂, hk₂, h⟩ := token_then identifier_forward h
    obtain ⟨_, k₃, hk₃, h⟩ := token_then equalsSign_forward h
    obtain ⟨t, k₄, ht, h⟩ := bind_eq_read h
    obtain ⟨rfl, rfl⟩ := pure_eq_read h
    exact .cons hk₀ ((hg.type _ _ _ ht).mono (by omega) (Nat.le_refl _))
  · obtain ⟨e, k₁, he, h⟩ := bind_eq_read h
    obtain ⟨rfl, rfl⟩ := pure_eq_read h
    exact (hg.expr _ _ _ he).mono hk₀ (Nat.le_refl _)

theorem statementList_lays : Lays src (statementList g) fun n => n.outline.spots := by
  intro i n j h
  unfold statementList at h
  obtain ⟨ss, k₁, hss, h⟩ := bind_eq_read h
  obtain ⟨_, k₂, hk₂, h⟩ := token_then ((symbol_forward _).optional) h
  have hss' := Lays.sepBy1 (statement_lays hg) (symbol_forward _) _ _ _ hss
  have hchain := chain_ordered ss (hss'.mono (Nat.le_refl _) hk₂)
  cases hc : chain ss with
  | none =>
    rw [hc] at h
    cases h
  | some c =>
    rw [hc] at h hchain
    obtain ⟨rfl, rfl⟩ := pure_eq_read h
    exact hchain

end Statements

/-- With no `|>` in the text, the readers of every depth lay what they read in order. -/
theorem nested_lays (hpipe : ∀ m, ¬ src.Spells m "|>") :
    ∀ d, (⟨expression d, statements d, typeExpr d⟩ : Nested).Lays src
  | 0 => ⟨(fun _ _ _ h => by cases h), (fun _ _ _ h => by cases h), typeExpr_lays 0⟩
  | d + 1 =>
    have hg := nested_lays hpipe d
    ⟨operatorExpr_lays hg hpipe, statementList_lays hg, typeExpr_lays (d + 1)⟩

/-- A program with no `|>` in its text is read into a tree whose listing shows positions in
the order of the text. -/
theorem readProgram_spots_ordered {nesting : Nat} {n : Node} (hpipe : ∀ m, ¬ src.Spells m "|>")
    (h : readProgram nesting src = .ok n) : n.outline.spots.Pairwise Position.AtOrBefore := by
  rw [readProgram] at h
  split at h
  · cases h
    simp [Node.outline]
  · split at h
    · next j hread =>
      split at h
      · cases h
        exact ((nested_lays hpipe nesting).stmts _ _ _ hread).pairwise
      · cases h
    · cases h
    · cases h

/-! ### Finding nodes -/

namespace Outline

mutual

/-- The rows of a listing stand at the outline's positions, in order. -/
theorem rows_pos (d : Nat) : ∀ o : Outline, (o.rows d).map (fun r => r.2.pos) = o.spots
  | .node k l s p cs => by
    rw [rows, List.map_cons, rowsAll_pos (d + 1) cs, spots_node]
    rfl

theorem rowsAll_pos (d : Nat) : ∀ os : List Outline,
    (rowsAll d os).map (fun r => r.2.pos) = spotsAll os
  | [] => by rw [rowsAll, spotsAll_nil, List.map_nil]
  | o :: os => by rw [rowsAll, List.map_append, rows_pos d o, rowsAll_pos d os, spotsAll_cons]

end

/-- The nodes found of a kind stand at some of the outline's positions, in order. -/
theorem find_pos_sublist (k : String) (o : Outline) : ((o.find k).map pos).Sublist o.spots := by
  rw [find_eq_rows, List.map_map, ← rows_pos 0 o]
  exact List.filter_sublist.map _

end Outline

/-- The search for the nodes of a kind in a program's tree lists them in the order the listing
prints them, each once; when the text holds no `|>`, their positions are in the order of the
text. -/
theorem found_nodes_follow_listing (nesting : Nat) (file text : String) (n : Node) (k : String)
    (hparse : parse nesting file text = .ok n) :
    n.outline.find k = ((n.outline.rows 0).filter fun r => r.2.kind == k).map Prod.snd ∧
      n.dump = String.join ((n.outline.rows 0).map fun r => Outline.line r.1 r.2) ∧
      ((∀ m, ¬ (Source.ofText file text).Spells m "|>") →
        ((n.outline.find k).map Outline.pos).Pairwise Position.AtOrBefore) := by
  refine ⟨Outline.find_eq_rows k _, Outline.dump_eq_rows 0 _, fun hpipe => ?_⟩
  have hspots := readProgram_spots_ordered hpipe hparse
  exact hspots.sublist (Outline.find_pos_sublist k _)

end Tree

/-- A text spelled at no offset before the end is spelled nowhere. -/
theorem Source.forall_not_spells {src : Source} {s : String} (hs : s ≠ "")
    (h : ∀ m < src.chars.size, src.hasAt s m = false) : ∀ m, ¬ src.Spells m s := by
  intro m hm
  have hat := h m (Tree.spells_lt_size hm hs)
  rw [Source.hasAt_iff.2 hm] at hat
  cases hat

/-- The references of `g(a) + h(b)` are found in the order of the text. -/
theorem sum_of_calls_found_in_order :
    ∃ n, Tree.parse 1000 "f" "g(a) + h(b)" = .ok n ∧
      ((n.outline.find "REFERENCE").map Tree.Outline.pos).Pairwise Position.AtOrBefore := by
  have hok : (Tree.parse 1000 "f" "g(a) + h(b)").isOk = true := by decide +kernel
  cases hparse : Tree.parse 1000 "f" "g(a) + h(b)" with
  | error e =>
    rw [hparse] at hok
    cases hok
  | ok n =>
    refine ⟨n, rfl, (Tree.found_nodes_follow_listing 1000 "f" "g(a) + h(b)" n "REFERENCE" hparse).2.2 ?_⟩
    exact Source.forall_not_spells (by decide) (by decide +kernel)

/-- In `xs |> f(a)` the references are found in the order `f`, `a`, `xs`: the pipeline is the
call `f(a, xs)` at the position of `f`, column 7, with `xs`, at column 1, as its last argument. -/
theorem pipeline_operand_listed_last :
    ((Tree.parse 1000 "<input>" "xs |> f(a)").toOption.map fun n =>
        (n.outline.find "REFERENCE").map fun o => (o.pos.line, o.pos.column)) =
      some [(1, 7), (1, 9), (1, 1)] := by
  decide +kernel

end Retl
