import Retl.Proofs.TokenReading
/-!
# Reading never moves back

Every reader of the grammar ends where it started or further on (`Reader.Forward`). Passing
over blanks and comments only moves on, and passing over them twice is passing over them once
(`skipBlank_skipBlank`); a token is read past the text it spells; and the combinators keep the
property (`Reader.Forward.bind`, `Reader.Forward.orElse`, `Reader.Forward.many`). So a rule of the
grammar reads forward when the readers it nests do, and the readers of every depth do
(`nested_forward`).
-/

namespace Retl

namespace Tree

open Source

variable {α β : Type} {src : Source} {i j : Nat}

/-! ### Blanks -/

theorem le_skipBlankFrom (src : Source) (i : Nat) (c : Bool) : i ≤ skipBlankFrom src i c := by
  fun_induction skipBlankFrom src i c <;> omega

theorem le_skipBlank (src : Source) (i : Nat) : i ≤ skipBlank src i :=
  le_skipBlankFrom src i false

/-- Passing over blanks and comments ends where none starts. -/
theorem skipBlankFrom_skipBlankFrom (src : Source) (i : Nat) (c : Bool) :
    skipBlankFrom src (skipBlankFrom src i c) false = skipBlankFrom src i c := by
  fun_induction skipBlankFrom src i c <;> try assumption
  case case6 i _ hlt c _ hb hs =>
    -- the text at `i` neither is a blank nor starts a comment, whatever the mode it was met in
    simp only [c] at hb hs
    rw [skipBlankFrom, dif_pos hlt]
    simp only [Bool.false_eq_true, if_false, hb, hs]
  case case7 i _ hge => rw [skipBlankFrom, dif_neg (by omega)]

theorem skipBlank_skipBlank (src : Source) (i : Nat) :
    skipBlank src (skipBlank src i) = skipBlank src i :=
  skipBlankFrom_skipBlankFrom src i false

theorem le_scanWhile (src : Source) (p : Char → Bool) (i : Nat) : i ≤ src.scanWhile p i := by
  fun_induction src.scanWhile p i <;> omega

/-! ### Forward readers -/

/-- A reader that never reads backwards: where it reads, it ends at or after its start. -/
def Reader.Forward (r : Reader α) : Prop :=
  ∀ src i a j, r src i = .read a j → i ≤ j

namespace Reader.Forward

theorem pure (a : α) : Forward (Pure.pure a : Reader α) := by
  intro src i b j h
  cases h
  exact Nat.le_refl _

theorem bind {r : Reader α} {f : α → Reader β} (hr : r.Forward) (hf : ∀ a, (f a).Forward) :
    (r >>= f).Forward := by
  intro src i b j h
  cases hx : r src i with
  | read a k =>
    rw [Reader.bind_read hx] at h
    exact Nat.le_trans (hr _ _ _ _ hx) (hf a _ _ _ _ h)
  | miss => rw [Reader.bind_miss hx] at h; cases h
  | stop w => rw [Reader.bind_stop hx] at h; cases h

theorem orElse {r s : Reader α} (hr : r.Forward) (hs : s.Forward) : (r <|> s).Forward := by
  intro src i a j h
  cases hx : r src i with
  | read b k =>
    rw [Reader.orElse_read hx] at h
    cases h
    exact hr _ _ _ _ hx
  | miss =>
    rw [Reader.orElse_miss hx] at h
    exact hs _ _ _ _ h
  | stop w => rw [Reader.orElse_stop hx] at h; cases h

theorem fail : (Reader.fail : Reader α).Forward := by
  intro src i a j h
  cases h

theorem tooDeep : (Reader.tooDeep : Reader α).Forward := by
  intro src i a j h
  cases h

theorem optional {r : Reader α} (hr : r.Forward) : (Reader.optional r).Forward :=
  orElse (bind hr fun _ => pure _) (pure _)

/-- The rounds of a repetition of a forward reader end where they started or further on. -/
theorem many_go {r : Reader α} (hr : r.Forward) (src : Source) :
    ∀ (fuel i : Nat) (acc as : List α) (j : Nat), many.go r src fuel i acc = .read as j → i ≤ j
  | 0, i, acc, as, j, h => by
    cases h
    exact Nat.le_refl _
  | fuel + 1, i, acc, as, j, h => by
    simp only [many.go] at h
    split at h
    · next a k hk =>
      split at h
      · exact Nat.le_trans (hr _ _ _ _ hk) (many_go hr src fuel k _ _ _ h)
      · cases h
        exact hr _ _ _ _ hk
    · cases h
      exact Nat.le_refl _
    · cases h

theorem many {r : Reader α} (hr : r.Forward) : (Reader.many r).Forward :=
  fun src i _ _ h => many_go hr src _ i [] _ _ h

theorem many1 {r : Reader α} (hr : r.Forward) : (Reader.many1 r).Forward :=
  bind hr fun _ => bind (many hr) fun _ => pure _

theorem sepBy1 {r : Reader α} {sep : Reader Unit} (hr : r.Forward) (hsep : sep.Forward) :
    (Reader.sepBy1 r sep).Forward :=
  bind hr fun _ => bind (many (bind hsep fun _ => hr)) fun _ => pure _

end Reader.Forward

/-! ### Tokens -/

open Reader

theorem Numeral.reading_next {n : Numeral α} {a : α} (h : n.reading = .read a j) : j = n.next := by
  unfold Numeral.reading at h
  split at h <;> cases h
  rfl

theorem digitsAt_next {n : Numeral Nat} (h : digitsAt src j = some n) : j < n.next := by
  simp only [digitsAt] at h
  split at h
  · cases h
    assumption
  · cases h

theorem signedAt_next {n : Numeral Int} (h : signedAt src j = some n) : j < n.next := by
  unfold signedAt at h
  split at h <;> obtain ⟨m, hm, rfl⟩ := Option.map_eq_some_iff.1 h
  · exact Nat.lt_of_succ_lt (digitsAt_next hm)
  · exact digitsAt_next hm

/-- A string literal's body ends past where it starts, at the offset after its closing quote. -/
theorem stringBody_next {acc cs : List Char} {k : Nat} (h : stringBody src j acc = some (cs, k)) :
    j < k := by
  fun_induction stringBody src j acc <;> simp_all <;> omega

theorem tokenPosition_forward : (tokenPosition : Reader Position).Forward := by
  intro src i a j h
  rw [tokenPosition_apply] at h
  cases h
  exact le_skipBlank src i

theorem symbol_forward (s : String) : (symbol s).Forward := by
  intro src i a j h
  have := le_skipBlank src i
  simp only [symbol] at h
  split at h <;> cases h
  omega

theorem keyword_forward (k : String) : (keyword k).Forward := by
  intro src i a j h
  have := le_skipBlank src i
  simp only [keyword] at h
  split at h <;> cases h
  omega

theorem oneKeyword_forward (spell : α → String) (ks : List α) : (oneKeyword spell ks).Forward := by
  intro src i a j h
  have := le_skipBlank src i
  simp only [oneKeyword] at h
  split at h <;> cases h
  omega

theorem identifier_forward : identifier.Forward := by
  intro src i a j h
  have := le_skipBlank src i
  have := le_scanWhile src (fun c => c.isAlphanum || c == '_') (skipBlank src i + 1)
  simp only [identifier] at h
  repeat' split at h
  all_goals cases h
  all_goals omega

theorem natural_forward : natural.Forward := by
  intro src i a j h
  have := le_skipBlank src i
  simp only [natural] at h
  split at h
  · next n hn => have := digitsAt_next hn; have := Numeral.reading_next h; omega
  · cases h

theorem signed_forward : signed.Forward := by
  intro src i a j h
  have := le_skipBlank src i
  simp only [signed] at h
  split at h
  · next n hn => have := signedAt_next hn; have := Numeral.reading_next h; omega
  · cases h

theorem charLiteral_forward : charLiteral.Forward := by
  intro src i a j h
  have := le_skipBlank src i
  simp only [charLiteral] at h
  repeat' split at h
  all_goals cases h
  all_goals omega

theorem stringLiteral_forward : stringLiteral.Forward := by
  intro src i a j h
  have := le_skipBlank src i
  simp only [stringLiteral] at h
  split at h
  · cases h
  · split at h
    · next cs k hk => cases h; have := stringBody_next hk; omega
    · cases h

theorem rangeBounds_forward : rangeBounds.Forward := by
  intro src i a j h
  have := le_skipBlank src i
  simp only [rangeBounds] at h
  split at h
  · cases h
  · next lo hlo =>
    have := signedAt_next hlo
    have := le_scanWhile src Text.isBlank lo.next
    split at h
    · split at h
      · next hi hhi =>
        have := signedAt_next hhi
        have := le_scanWhile src Text.isBlank (src.scanWhile Text.isBlank lo.next + 2)
        split at h
        · cases h
        · have := Numeral.reading_next h
          simp only at this
          omega
      · cases h
    · cases h

theorem fieldIndex_forward : fieldIndex.Forward := by
  intro src i a j h
  have := le_skipBlank src i
  simp only [fieldIndex] at h
  split at h
  · split at h
    · next n hn => have := digitsAt_next hn; have := Numeral.reading_next h; omega
    · cases h
  · cases h

theorem equalsSign_forward : equalsSign.Forward := by
  intro src i a j h
  have := le_skipBlank src i
  simp only [equalsSign] at h
  split at h <;> cases h
  omega

theorem operator_forward (ops : List (String × PrimOp)) : (operator ops).Forward := by
  intro src i a j h
  have := le_skipBlank src i
  simp only [operator] at h
  split at h <;> cases h
  omega

/-! ### The grammar -/

/-- The readers a rule nests all read forward. -/
structure Nested.Forward (g : Nested) : Prop where
  expr : g.expr.Forward
  stmts : g.stmts.Forward
  type : g.type.Forward

theorem typeExpr_forward : ∀ d, (typeExpr d).Forward
  | 0 => Forward.tooDeep
  | d + 1 =>
    have inner := typeExpr_forward d
    have sep := symbol_forward ","
    have members := (symbol_forward "[").bind fun _ => (inner.sepBy1 sep).bind fun _ =>
      (symbol_forward "]").bind fun _ => Forward.pure _
    tokenPosition_forward.bind fun _ =>
      ((keyword_forward _).bind fun _ => (symbol_forward _).bind fun _ => inner.bind fun _ =>
          (symbol_forward _).bind fun _ => Forward.pure _).orElse <|
      ((keyword_forward _).bind fun _ => members.bind fun _ => Forward.pure _).orElse <|
      ((keyword_forward _).bind fun _ => (symbol_forward _).bind fun _ => inner.bind fun _ =>
          (symbol_forward _).bind fun _ => inner.bind fun _ => (symbol_forward _).bind fun _ =>
          Forward.pure _).orElse <|
      ((keyword_forward _).bind fun _ => members.bind fun _ => Forward.pure _).orElse <|
      ((keyword_forward _).bind fun _ => (symbol_forward _).bind fun _ =>
          (inner.sepBy1 sep).optional.bind fun _ => (symbol_forward _).bind fun _ =>
          inner.bind fun _ => (symbol_forward _).bind fun _ => Forward.pure _).orElse <|
      ((oneKeyword_forward _ _).bind fun _ => Forward.pure _).orElse <|
      identifier_forward.bind fun _ => Forward.pure _

theorem literal_forward : literal.Forward :=
  tokenPosition_forward.bind fun _ =>
    (natural_forward.bind fun _ => Forward.pure _).orElse <|
    ((oneKeyword_forward _ _).bind fun _ => Forward.pure _).orElse <|
    ((keyword_forward _).bind fun _ => Forward.pure _).orElse <|
    (charLiteral_forward.bind fun _ => Forward.pure _).orElse <|
    stringLiteral_forward.bind fun _ => Forward.pure _

theorem patternLiteral_forward : patternLiteral.Forward :=
  tokenPosition_forward.bind fun _ =>
    (signed_forward.bind fun _ => Forward.pure _).orElse <|
    ((oneKeyword_forward _ _).bind fun _ => Forward.pure _).orElse <|
    ((keyword_forward _).bind fun _ => Forward.pure _).orElse <|
    (charLiteral_forward.bind fun _ => Forward.pure _).orElse <|
    stringLiteral_forward.bind fun _ => Forward.pure _

section Rules

variable {g : Nested} (hg : g.Forward)
include hg

theorem block_forward : (block g).Forward :=
  tokenPosition_forward.bind fun _ => (symbol_forward _).bind fun _ =>
    hg.stmts.optional.bind fun _ => (symbol_forward _).bind fun _ => Forward.pure _

theorem typedName_forward : (typedName g).Forward :=
  identifier_forward.bind fun _ => (symbol_forward _).bind fun _ =>
    hg.type.bind fun _ => Forward.pure _

theorem lambda_forward : (lambda g).Forward :=
  tokenPosition_forward.bind fun _ => (symbol_forward _).bind fun _ =>
    ((typedName_forward hg).sepBy1 (symbol_forward _)).optional.bind fun _ =>
    (symbol_forward _).bind fun _ => hg.type.bind fun _ => (block_forward hg).bind fun _ =>
    Forward.pure _

theorem branchArm_forward : (branchArm g).Forward :=
  tokenPosition_forward.bind fun _ => (keyword_forward _).bind fun _ =>
    hg.expr.bind fun _ => (block_forward hg).bind fun _ => Forward.pure _

theorem branch_forward : (branch g).Forward :=
  (branchArm_forward hg).bind fun _ =>
    ((keyword_forward _).bind fun _ => branchArm_forward hg).many.bind fun _ =>
    ((keyword_forward _).bind fun _ => block_forward hg).optional.bind fun _ => Forward.pure _

theorem pattern_forward : (pattern g).Forward :=
  tokenPosition_forward.bind fun _ =>
    ((keyword_forward _).bind fun _ => Forward.pure _).orElse <|
    (rangeBounds_forward.bind fun _ => Forward.pure _).orElse <|
    (patternLiteral_forward.bind fun _ =>
        ((symbol_forward _).bind fun _ => patternLiteral_forward).many1.bind fun _ =>
        Forward.pure _).orElse <|
    (patternLiteral_forward.bind fun _ => Forward.pure _).orElse <|
    (typedName_forward hg).bind fun _ =>
      ((keyword_forward _).bind fun _ => hg.expr).optional.bind fun _ => Forward.pure _

theorem matchCase_forward : (matchCase g).Forward :=
  (keyword_forward _).bind fun _ => (pattern_forward hg).bind fun _ =>
    (symbol_forward _).bind fun _ => hg.stmts.bind fun _ =>
    (symbol_forward _).optional.bind fun _ => Forward.pure _

theorem matchOn_forward : (matchOn g).Forward :=
  tokenPosition_forward.bind fun _ => (keyword_forward _).bind fun _ =>
    hg.expr.bind fun _ => (symbol_forward _).bind fun _ =>
    (matchCase_forward hg).many1.bind fun _ => (symbol_forward _).bind fun _ => Forward.pure _

theorem foreach_forward : (foreach g).Forward :=
  tokenPosition_forward.bind fun _ => (keyword_forward _).bind fun _ =>
    identifier_forward.bind fun _ => (keyword_forward _).bind fun _ =>
    hg.expr.bind fun _ => (block_forward hg).bind fun _ => Forward.pure _

theorem schema_forward : (schema g).Forward :=
  tokenPosition_forward.bind fun _ => (keyword_forward _).bind fun _ =>
    (symbol_forward _).bind fun _ =>
    ((typedName_forward hg).sepBy1 (symbol_forward _)).optional.bind fun _ =>
    (symbol_forward _).optional.bind fun _ => (symbol_forward _).bind fun _ => Forward.pure _

theorem exprList_forward : (exprList g).Forward :=
  (hg.expr.sepBy1 (symbol_forward _)).optional.bind fun _ => Forward.pure _

theorem listLiteral_forward : (listLiteral g).Forward :=
  tokenPosition_forward.bind fun _ => (symbol_forward _).bind fun _ =>
    (exprList_forward hg).bind fun _ => (symbol_forward _).bind fun _ => Forward.pure _

theorem dictLiteral_forward : (dictLiteral g).Forward :=
  have entry := literal_forward.bind fun _ => (symbol_forward _).bind fun _ =>
    hg.expr.bind fun _ => Forward.pure _
  tokenPosition_forward.bind fun _ => (symbol_forward _).bind fun _ =>
    (entry.sepBy1 (symbol_forward _)).optional.bind fun _ =>
    (symbol_forward _).bind fun _ => Forward.pure _

theorem parenthesized_forward : (parenthesized g).Forward :=
  tokenPosition_forward.bind fun _ => (symbol_forward _).bind fun _ =>
    ((symbol_forward _).bind fun _ => Forward.pure _).orElse <|
    hg.expr.bind fun _ =>
      ((symbol_forward _).bind fun _ => (exprList_forward hg).bind fun _ =>
          (symbol_forward _).bind fun _ => Forward.pure _).orElse <|
      (symbol_forward _).bind fun _ => Forward.pure _

theorem primary_forward : (primary g).Forward :=
  tokenPosition_forward.bind fun _ =>
    (lambda_forward hg).orElse <| (branch_forward hg).orElse <| (matchOn_forward hg).orElse <|
    (foreach_forward hg).orElse <| (schema_forward hg).orElse <|
    (listLiteral_forward hg).orElse <| (dictLiteral_forward hg).orElse <|
    (parenthesized_forward hg).orElse <|
    (literal_forward.bind fun _ => Forward.pure _).orElse <|
    identifier_forward.bind fun _ => Forward.pure _

theorem withSuffixes_forward : (withSuffixes g).Forward :=
  (primary_forward hg).bind fun _ =>
    (((symbol_forward _).bind fun _ => (exprList_forward hg).bind fun _ =>
        (symbol_forward _).bind fun _ => Forward.pure _).orElse
      (fieldIndex_forward.bind fun _ => Forward.pure _)).many.bind fun _ => Forward.pure _

theorem prefixed_forward : (prefixed g).Forward :=
  (tokenPosition_forward.bind fun _ => (operator_forward _).bind fun _ => Forward.pure _).many.bind
    fun _ => (withSuffixes_forward hg).bind fun _ => Forward.pure _

omit hg in
theorem binaryLevel_forward (ops : List (String × PrimOp)) {next : Reader Node}
    (hnext : next.Forward) : (binaryLevel ops next).Forward :=
  hnext.bind fun _ => ((operator_forward _).bind fun _ => hnext.bind fun _ => Forward.pure _).many.bind
    fun _ => Forward.pure _

omit hg in
theorem foldl_binaryLevel_forward :
    ∀ (levels : List (List (String × PrimOp))) {r : Reader Node}, r.Forward →
      (levels.foldl (fun next ops => binaryLevel ops next) r).Forward
  | [], _, hr => hr
  | ops :: levels, _, hr => foldl_binaryLevel_forward levels (binaryLevel_forward ops hr)

theorem operatorExpr_forward : (operatorExpr g).Forward :=
  have level := foldl_binaryLevel_forward binaryLevels (prefixed_forward hg)
  level.bind fun _ => ((symbol_forward _).bind fun _ => level).many.bind fun _ => Forward.pure _

theorem statement_forward : (statement g).Forward :=
  tokenPosition_forward.bind fun _ =>
    ((keyword_forward _).bind fun _ => identifier_forward.bind fun _ =>
        ((symbol_forward _).bind fun _ => hg.type).optional.bind fun _ =>
        equalsSign_forward.bind fun _ => hg.expr.bind fun _ => Forward.pure _).orElse <|
    ((keyword_forward _).bind fun _ => identifier_forward.bind fun _ =>
        equalsSign_forward.bind fun _ => hg.type.bind fun _ => Forward.pure _).orElse <|
    hg.expr.bind fun _ => Forward.pure _

theorem statementList_forward : (statementList g).Forward :=
  ((statement_forward hg).sepBy1 (symbol_forward _)).bind fun ss =>
    (symbol_forward _).optional.bind fun _ => by
      cases chain ss with
      | some n => exact Forward.pure n
      | none => exact Forward.fail

end Rules

/-- The readers of every depth read forward. -/
theorem nested_forward : ∀ d, (⟨expression d, statements d, typeExpr d⟩ : Nested).Forward
  | 0 => ⟨Forward.tooDeep, Forward.tooDeep, Forward.tooDeep⟩
  | d + 1 =>
    have hg := nested_forward d
    ⟨operatorExpr_forward hg, statementList_forward hg, typeExpr_forward (d + 1)⟩

end Tree

end Retl
