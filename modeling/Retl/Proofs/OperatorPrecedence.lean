import Mathlib.Data.List.Forall2
import Retl.Proofs.ReadingAdvances
/-!
# Operators by the precedence table

An expression of operators is written as operands, each with the prefix operators `!` and `-`
in front of it, joined by the binary operators of the table and by the pipeline
`|>`. Its tree is fixed by the table alone:

* prefix operators bind tightest, and several nest, the first outermost;
* then come `*` `/` `%`, then `++` `+` `-`, then `<=` `>=` `<` `>`, then `===` `==` `!=`,
  then `&&`, then `||`, then `|>`, each level grouping to the left.

`OpTree.Grouped` says this of a tree: the left operand of a binary operator binds at least as
tightly as the operator and the right operand strictly more tightly. Among the grouped trees one
only is written as a given sequence of operands and operators (`OpTree.grouped_unique`), since
the operator at the root is the last of the loosest ones.

Reading such a text gives the concrete tree of that grouped tree (`operatorExpr_reads`): a
binary operator is a `PRIMITIVE` node at the position of its left operand, and `x |> t` is the
call of `t` with `x` after its arguments when `t` is a call, and with `x` alone otherwise. The
text is an operand with its prefix operators (`PrefixedAt`), then operators each followed by such
an operand (`TailAt`), each operator the longest operator symbol that stands at its token
(`BinaryOpAt`), so `++`, `<=`, `>=` and `===` are never read as `+`, `<`, `>` or `==` followed by
more; and no operator follows the expression (`Quiet`).

The levels are read from the tightest up (`levelReads`): the reader of a level reads an operand
with the tighter levels, then every operator of its own level with the operand after it
(`items_read`), and stops at a looser operator. A symbol that is a start of another belongs to
the same level (`level_eq_of_isPrefixOf`), so no level stops at an operator it should read or
reads one it should leave.
-/

namespace Retl

/-- How tightly a binary operator binds: `*` `/` `%` at level 1, then `++` `+` `-` at 2, the
comparisons at 3, the equalities at 4, `&&` at 5 and `||` at 6. The prefix operators are at
level 0: they join no two operands. -/
def PrimOp.bindingLevel : PrimOp → Nat
  | .mul | .div | .rem => 1
  | .concat | .add | .sub => 2
  | .le | .ge | .lt | .gt => 3
  | .same | .eq | .ne => 4
  | .and => 5
  | .or => 6
  | .not | .neg => 0

theorem PrimOp.bindingLevel_le (op : PrimOp) : op.bindingLevel ≤ 6 := by
  cases op <;> decide

namespace Tree

/-- An operator written between two operands: a binary operator, or the pipeline `|>`. -/
inductive BinaryOp where
  | prim (op : PrimOp)
  | pipe
  deriving DecidableEq

namespace BinaryOp

/-- How tightly an operator between operands binds; the pipeline binds loosest, at level 7. -/
def level : BinaryOp → Nat
  | .prim op => op.bindingLevel
  | .pipe => 7

/-- The symbol that writes an operator. -/
def symbol : BinaryOp → String
  | .prim op => op.symbol
  | .pipe => "|>"

end BinaryOp

/-- An operand with the prefix operators written before it, each with the position of its
symbol. -/
structure Prefixed where
  prefixes : List (PrimOp × Position)
  operand : Node

/-- The tree of a prefixed operand: the prefix operators nest, the first one outermost, each
at the position of its symbol. -/
def Prefixed.node (u : Prefixed) : Node :=
  u.prefixes.foldr (fun q acc => .prim q.1 acc none q.2) u.operand

/-- An expression of operators over prefixed operands. -/
inductive OpTree where
  | operand (u : Prefixed)
  | binary (op : BinaryOp) (l r : OpTree)

namespace OpTree

/-- How tightly the root of an expression binds: operands at level 0. -/
def level : OpTree → Nat
  | .operand _ => 0
  | .binary op _ _ => op.level

/-- An expression as it is written: its first operand, then each operator with the operand
after it. -/
def written : OpTree → Prefixed × List (BinaryOp × Prefixed)
  | .operand u => (u, [])
  | .binary op l r => (l.written.1, l.written.2 ++ (op, r.written.1) :: r.written.2)

/-- Grouped by the precedence table: the prefix operators are `!` and `-`, and the left
operand of a binary operator binds at least as tightly as the operator, its right operand
strictly more tightly. -/
inductive Grouped : OpTree → Prop
  | operand {u : Prefixed} : (∀ q ∈ u.prefixes, q.1 = .not ∨ q.1 = .neg) → Grouped (.operand u)
  | binary {op : BinaryOp} {l r : OpTree} : 0 < op.level → l.level ≤ op.level → r.level < op.level →
      Grouped l → Grouped r → Grouped (.binary op l r)

/-- The concrete tree of an expression. A binary operator stands at the position of its left
operand; `x |> t` is the call of `t` with `x` after its arguments when `t` is a call, and the
call of `t` with `x` alone, at the position of `t`, otherwise. -/
def toNode : OpTree → Node
  | .operand u => u.node
  | .binary (.prim op) l r => .prim op l.toNode (some r.toNode) l.toNode.pos
  | .binary .pipe l r =>
    match r.toNode with
    | .apply f args p => .apply f (args ++ [l.toNode]) p
    | t => .apply t [l.toNode] t.pos

/-- No operator inside a grouped expression binds more loosely than its root. -/
theorem Grouped.level_le {t : OpTree} (h : t.Grouped) : ∀ x ∈ t.written.2, x.1.level ≤ t.level := by
  induction h with
  | operand _ => simp [written]
  | @binary op l r _ hl hr _ _ ihl ihr =>
    intro x hx
    simp only [written, List.mem_append, List.mem_cons] at hx
    rcases hx with hx | rfl | hx
    · exact Nat.le_trans (ihl x hx) hl
    · exact Nat.le_refl _
    · exact Nat.le_of_lt (Nat.lt_of_le_of_lt (ihr x hx) hr)

/-- Where two ways of cutting one list before an element differ, the shorter cut's element lies
in the longer cut's front, and the longer cut's element behind the shorter's. -/
theorem mem_of_append_cons_eq {α : Type} {xs ys xs' ys' : List α} {a b : α}
    (h : xs ++ a :: ys = xs' ++ b :: ys') (hlt : xs.length < xs'.length) : a ∈ xs' ∧ b ∈ ys := by
  rcases List.append_eq_append_iff.1 h with ⟨c, rfl, hc⟩ | ⟨c, rfl, -⟩
  · cases c with
    | nil => simp at hlt
    | cons c cs =>
      simp only [List.cons_append, List.cons.injEq] at hc
      obtain ⟨rfl, rfl⟩ := hc
      simp
  · simp only [List.length_append] at hlt
    omega

/-- A grouped expression is the only grouped one written as it is: its root is the last of its
loosest operators. -/
theorem grouped_unique {t₁ t₂ : OpTree} (h₁ : t₁.Grouped) (h₂ : t₂.Grouped)
    (h : t₁.written = t₂.written) : t₁ = t₂ := by
  induction h₁ generalizing t₂ with
  | operand _ =>
    cases h₂ with
    | operand _ => simpa [written] using h
    | binary => simp [written] at h
  | @binary op l r _ hl hr gl gr ihl ihr =>
    cases h₂ with
    | operand _ => simp [written] at h
    | @binary op' l' r' _ hl' hr' gl' gr' =>
      simp only [written, Prod.mk.injEq] at h
      obtain ⟨hfirst, hrest⟩ := h
      -- the two roots cut the operators at the same place: a root further right would be
      -- an operator of the other tree's right operand, which binds more tightly
      have hlen : l.written.2.length = l'.written.2.length := by
        rcases Nat.lt_trichotomy l.written.2.length l'.written.2.length with hlt | heq | hgt
        · obtain ⟨hin, hin'⟩ := mem_of_append_cons_eq hrest hlt
          have h1 := Nat.le_trans (gl'.level_le _ hin) hl'
          have h2 := Nat.lt_of_le_of_lt (gr.level_le _ hin') hr
          simp only at h1 h2
          omega
        · exact heq
        · obtain ⟨hin, hin'⟩ := mem_of_append_cons_eq hrest.symm hgt
          have h1 := Nat.le_trans (gl.level_le _ hin) hl
          have h2 := Nat.lt_of_le_of_lt (gr'.level_le _ hin') hr'
          simp only at h1 h2
          omega
      obtain ⟨hl2, hmid⟩ := List.append_inj hrest hlen
      simp only [List.cons.injEq, Prod.mk.injEq] at hmid
      obtain ⟨⟨rfl, hr1⟩, hr2⟩ := hmid
      rw [ihl gl' (Prod.ext hfirst hl2), ihr gr' (Prod.ext hr1 hr2)]

end OpTree

/-! ### The table -/

/-- Each level of the table lists operators of that level, each with its symbol. -/
theorem mem_binaryLevels {k : Nat} (hk : k < 6) {e : String × PrimOp}
    (he : e ∈ binaryLevels.getD k []) : e.1 = e.2.symbol ∧ e.2.bindingLevel = k + 1 := by
  revert e
  revert hk k
  decide

/-- Each binary operator is listed at its level. -/
theorem symbol_mem_binaryLevels (op : PrimOp) (h : 0 < op.bindingLevel) :
    (op.symbol, op) ∈ binaryLevels.getD (op.bindingLevel - 1) [] := by
  cases op <;> first | decide | simp [PrimOp.bindingLevel] at h

/-- Within a level, no symbol is a start of a symbol listed after it: longer symbols come
first. -/
theorem binaryLevels_pairwise {k : Nat} (hk : k < 6) :
    (binaryLevels.getD k []).Pairwise fun a b => a.1.toList.isPrefixOf b.1.toList = false := by
  revert hk k
  decide

/-- An operator symbol that is a start of another belongs to the same level: `+` and `++`,
`<` and `<=`, `>` and `>=`, `==` and `===`. -/
theorem level_eq_of_isPrefixOf {o o' : BinaryOp} (ho : 0 < o.level) (ho' : 0 < o'.level)
    (h : o'.symbol.toList.isPrefixOf o.symbol.toList = true) : o'.level = o.level := by
  revert ho ho' h
  rcases o with ⟨op⟩ | _ <;> rcases o' with ⟨op'⟩ | _ <;>
    (try cases op) <;> (try cases op') <;> decide

/-! ### The readers of operator expressions, taken apart -/

/-- The reader of one prefix operator with the position of its symbol. -/
def prefixOp : Reader (PrimOp × Position) := do
  let p ← tokenPosition
  let op ← operator [("!", .not), ("-", .neg)]
  pure (op, p)

/-- The reader of one binary operator of a level and the operand after it. -/
def binaryItem (ops : List (String × PrimOp)) (next : Reader Node) : Reader (PrimOp × Node) := do
  let op ← operator ops
  let rhs ← next
  pure (op, rhs)

/-- The reader of one `|>` and the operand after it. -/
def pipeItem (next : Reader Node) : Reader Node := do
  symbol "|>"
  next

/-- The readers of the binary levels up to `k`, over prefixed operands. -/
def levelReader (g : Nested) : Nat → Reader Node
  | 0 => prefixed g
  | k + 1 => binaryLevel (binaryLevels.getD k []) (levelReader g k)

theorem prefixed_eq (g : Nested) :
    prefixed g = (do
      let ops ← Reader.many prefixOp
      let x ← withSuffixes g
      pure (ops.foldr (fun q acc => .prim q.1 acc none q.2) x)) := rfl

theorem binaryLevel_eq (ops : List (String × PrimOp)) (next : Reader Node) :
    binaryLevel ops next = (do
      let first ← next
      let rest ← Reader.many (binaryItem ops next)
      pure (rest.foldl (fun acc x => .prim x.1 acc (some x.2) first.pos) first)) := rfl

theorem operatorExpr_eq (g : Nested) :
    operatorExpr g = (do
      let first ← levelReader g 6
      let rest ← Reader.many (pipeItem (levelReader g 6))
      pure (rest.foldl pipeInto first)) := rfl

/-! ### Reading tokens -/

open Source Reader

section Tokens

variable {α : Type} {src : Source} {i j : Nat}

/-- A text of at least one character stands before the end of the source. -/
theorem spells_lt_size {s : String} (h : src.Spells j s) (hs : s ≠ "") : j < src.chars.size :=
  Nat.lt_of_not_le fun hend => not_spells_of_end hend hs h

/-- A text that starts with another character than the source does at `j` is not spelled
there. -/
theorem not_spells_of_head {w : String} {c d : Char} (hc : src.at? j = some c)
    (hw : w.toList.head? = some d) (hd : d ≠ c) : ¬ src.Spells j w :=
  fun h => hd (Option.some.inj ((h.at?_first hw).symm.trans hc))

/-- Two texts spelled at one offset: the first is a start of the second or longer than it. -/
theorem spells_prefix_or_longer {s t : String} (hs : src.Spells j s) (ht : src.Spells j t) :
    s.toList.isPrefixOf t.toList = true ∨ t.length < s.length := by
  rcases Nat.lt_or_ge t.length s.length with hlt | hle
  · exact Or.inr hlt
  · left
    rw [List.isPrefixOf_iff_prefix]
    exact List.prefix_of_prefix_length_le hs ht (by rw [String.length_toList, String.length_toList]; exact hle)

/-- A repetition of a reader that reads only before the end of the source reads a whole run. -/
theorem many_eq_read_of_lt {r : Reader α} {as : List α} (h : ReadsAll r src i as j)
    (hr : ∀ i' a k, r src i' = .read a k → i' < src.chars.size) : many r src i = .read as j := by
  have hlen : as.length ≤ src.chars.size + 1 - i := by
    induction h with
    | last _ => simp
    | @next i k j a as hread hik _ ih =>
      have := hr _ _ _ hread
      simp only [List.length_cons]
      omega
  show many.go r src (src.chars.size + 1 - i) i [] = _
  rw [many_go_eq h _ [] hlen]
  rfl

/-- A rule that notes the position of the next token, at a token's start. -/
theorem tokenPosition_bind_at {f : Position → Reader α} (hj : skipBlank src j = j) :
    (tokenPosition >>= f) src j = f (src.positionAt j) src j := by
  rw [bind_read tokenPosition_apply, hj]

/-- The operator reader reads the first listed symbol that stands at the next token. -/
theorem operator_read {ops : List (String × PrimOp)} {s : String} {op : PrimOp}
    (hskip : skipBlank src i = j) (h : ops.find? (fun e => src.hasAt e.1 j) = some (s, op)) :
    operator ops src i = .read op (j + s.length) := by
  unfold operator
  simp only []
  rw [hskip, h]

theorem operator_miss {ops : List (String × PrimOp)} (hskip : skipBlank src i = j)
    (h : ∀ e ∈ ops, ¬ src.Spells j e.1) : operator ops src i = .miss := by
  have hnone : ops.find? (fun e => src.hasAt e.1 j) = none :=
    List.find?_eq_none.2 fun e he hs => h e he (hasAt_iff.1 (by simpa using hs))
  unfold operator
  simp only []
  rw [hskip, hnone]

/-- What the operator reader reads is a listed operator whose symbol stands at the next token. -/
theorem operator_spells {ops : List (String × PrimOp)} {op : PrimOp} {k : Nat}
    (h : operator ops src i = .read op k) :
    ∃ s, (s, op) ∈ ops ∧ src.Spells (skipBlank src i) s ∧ k = skipBlank src i + s.length := by
  unfold operator at h
  simp only [] at h
  split at h
  · next s op' hfind =>
    cases h
    have hs := List.find?_some hfind
    simp only at hs
    exact ⟨s, List.mem_of_find?_eq_some hfind, hasAt_iff.1 hs, rfl⟩
  · cases h

/-- The operator reader reads only before the end of the source, when no listed symbol is
empty. -/
theorem operator_lt_size {ops : List (String × PrimOp)} (hne : ∀ e ∈ ops, e.1 ≠ "") {op : PrimOp}
    {k : Nat} (h : operator ops src i = .read op k) : i < src.chars.size := by
  obtain ⟨s, hmem, hs, -⟩ := operator_spells h
  exact Nat.lt_of_le_of_lt (le_skipBlank src i) (spells_lt_size hs (hne _ hmem))

/-- In a list where no symbol is a start of a later one, the first symbol that stands at `j` is
the longest one there. -/
theorem find?_longest {ops : List (String × PrimOp)} {s : String} {op : PrimOp}
    (hpair : ops.Pairwise fun a b => a.1.toList.isPrefixOf b.1.toList = false)
    (hmem : (s, op) ∈ ops) (hs : src.Spells j s)
    (hlong : ∀ e ∈ ops, src.Spells j e.1 → e.1.length ≤ s.length) :
    ops.find? (fun e => src.hasAt e.1 j) = some (s, op) := by
  induction ops with
  | nil => simp at hmem
  | cons e ops ih =>
    rw [List.pairwise_cons] at hpair
    by_cases he : e = (s, op)
    · subst he
      simp [hasAt_iff.2 hs]
    · -- a symbol listed before `s` that stood at `j` would be a start of `s` or longer than it
      have hnot : ¬ src.Spells j e.1 := fun he' => by
        have hnp := hpair.1 (s, op) ((List.mem_cons.1 hmem).resolve_left (Ne.symm he))
        rcases spells_prefix_or_longer he' hs with hp | hlt
        · simp [hp] at hnp
        · exact absurd (hlong e List.mem_cons_self he') (Nat.not_le.2 hlt)
      have hfalse : src.hasAt e.1 j = false := by
        cases hb : src.hasAt e.1 j
        · rfl
        · exact absurd (hasAt_iff.1 hb) hnot
      rw [List.find?_cons, hfalse]
      exact ih hpair.2 ((List.mem_cons.1 hmem).resolve_left (Ne.symm he))
        fun e' he' => hlong e' (List.mem_cons_of_mem _ he')

end Tokens

/-! ### Reading prefixed operands -/

section Operands

variable {g : Nested} {src : Source} {i j : Nat} {c : Char}

/-- No literal starts with `!` or `-`: a negative number is a negation. -/
theorem literal_miss (hj : skipBlank src j = j) (hc : src.at? j = some c)
    (hpre : c = '!' ∨ c = '-') : literal src j = .miss := by
  have hdec : Text.isDecimal c = false := by rcases hpre with rfl | rfl <;> decide
  have hquote : c ≠ '\'' ∧ c ≠ '"' := by rcases hpre with rfl | rfl <;> decide
  have hnat : natural src j = .miss := by
    simp [natural, hj, digitsAt, scanWhile_stop hc hdec]
  have hbool : oneKeyword id ["true", "false"] src j = .miss := by
    have htrue := keywordAt_eq_false (not_spells_of_head hc (w := "true") (d := 't') (by decide)
      (by rcases hpre with rfl | rfl <;> decide))
    have hfalse := keywordAt_eq_false (not_spells_of_head hc (w := "false") (d := 'f') (by decide)
      (by rcases hpre with rfl | rfl <;> decide))
    exact oneKeyword_miss hj (by simp [htrue, hfalse])
  have hnull : keyword "null" src j = .miss :=
    keyword_miss hj (not_spells_of_head hc (d := 'n') (by decide)
      (by rcases hpre with rfl | rfl <;> decide))
  have hchar : charLiteral src j = .miss := by simp [charLiteral, hj, hc, hquote.1]
  have hstring : stringLiteral src j = .miss := by simp [stringLiteral, hj, hc, hquote.2]
  unfold literal
  rw [tokenPosition_bind_at hj, orElse_miss (bind_miss hnat), orElse_miss (bind_miss hbool),
    orElse_miss (bind_miss hnull), orElse_miss (bind_miss hchar)]
  exact bind_miss hstring

/-- No primary construct starts with `!` or `-`: every alternative begins with a token that
starts otherwise. -/
theorem primary_miss (hskip : skipBlank src i = j) (hc : src.at? j = some c)
    (hpre : c = '!' ∨ c = '-') : primary g src i = .miss := by
  have hj : skipBlank src j = j := by rw [← hskip, skipBlank_skipBlank]
  have hsym : ∀ {w : String} {d : Char}, w.toList.head? = some d → d ≠ c → symbol w src j = .miss :=
    fun hw hd => symbol_miss hj (not_spells_of_head hc hw hd)
  have hkw : ∀ {w : String} {d : Char}, w.toList.head? = some d → d ≠ c → keyword w src j = .miss :=
    fun hw hd => keyword_miss hj (not_spells_of_head hc hw hd)
  have hne : ∀ d ∈ ['\\', 'i', 'm', 'f', 's', '[', '{', '('], d ≠ c := by
    rcases hpre with rfl | rfl <;> simp
  have hlambda : lambda g src j = .miss := by
    unfold lambda
    rw [tokenPosition_bind_at hj]
    exact bind_miss (hsym (d := '\\') (by decide) (hne _ (by simp)))
  have hbranch : branch g src j = .miss := by
    unfold branch branchArm
    rw [bind_miss]
    rw [tokenPosition_bind_at hj]
    exact bind_miss (hkw (d := 'i') (by decide) (hne _ (by simp)))
  have hmatch : matchOn g src j = .miss := by
    unfold matchOn
    rw [tokenPosition_bind_at hj]
    exact bind_miss (hkw (d := 'm') (by decide) (hne _ (by simp)))
  have hforeach : foreach g src j = .miss := by
    unfold foreach
    rw [tokenPosition_bind_at hj]
    exact bind_miss (hkw (d := 'f') (by decide) (hne _ (by simp)))
  have hschema : schema g src j = .miss := by
    unfold schema
    rw [tokenPosition_bind_at hj]
    exact bind_miss (hkw (d := 's') (by decide) (hne _ (by simp)))
  have hlist : listLiteral g src j = .miss := by
    unfold listLiteral
    rw [tokenPosition_bind_at hj]
    exact bind_miss (hsym (d := '[') (by decide) (hne _ (by simp)))
  have hdict : dictLiteral g src j = .miss := by
    unfold dictLiteral
    rw [tokenPosition_bind_at hj]
    exact bind_miss (hsym (d := '{') (by decide) (hne _ (by simp)))
  have hparen : parenthesized g src j = .miss := by
    unfold parenthesized
    rw [tokenPosition_bind_at hj]
    exact bind_miss (hsym (d := '(') (by decide) (hne _ (by simp)))
  have hident : identifier src j = .miss :=
    identifier_miss hj hc (by rcases hpre with rfl | rfl <;> decide)
      (by rcases hpre with rfl | rfl <;> decide)
  unfold primary
  rw [bind_read tokenPosition_apply, hskip, orElse_miss hlambda, orElse_miss hbranch,
    orElse_miss hmatch, orElse_miss hforeach, orElse_miss hschema, orElse_miss hlist,
    orElse_miss hdict, orElse_miss hparen, orElse_miss (bind_miss (literal_miss hj hc hpre))]
  exact bind_miss hident

/-- No operand starts with a prefix operator. -/
theorem withSuffixes_miss (hskip : skipBlank src i = j) (hc : src.at? j = some c)
    (hpre : c = '!' ∨ c = '-') : withSuffixes g src i = .miss :=
  bind_miss (primary_miss hskip hc hpre)

/-- The prefix operators, as the reader of prefixed operands lists them. -/
theorem prefixOps_pairwise :
    [("!", PrimOp.not), ("-", .neg)].Pairwise fun a b => a.1.toList.isPrefixOf b.1.toList = false := by
  decide

/-- A prefix operator is read as the symbol that stands at the next token. -/
theorem prefixOp_read {op : PrimOp} (hop : op = .not ∨ op = .neg)
    (h : src.Spells (skipBlank src i) op.symbol) :
    prefixOp src i = .read (op, src.positionAt (skipBlank src i)) (skipBlank src i + 1) := by
  have hfind : [("!", PrimOp.not), ("-", .neg)].find? (fun e => src.hasAt e.1 (skipBlank src i)) =
      some (op.symbol, op) := by
    refine find?_longest prefixOps_pairwise (by rcases hop with rfl | rfl <;> simp [PrimOp.symbol]) h
      fun e he _ => ?_
    rcases hop with rfl | rfl <;> simp at he <;> rcases he with rfl | rfl <;> decide
  have hlen : op.symbol.length = 1 := by rcases hop with rfl | rfl <;> rfl
  unfold prefixOp
  rw [bind_read tokenPosition_apply, bind_read (operator_read (skipBlank_skipBlank src i) hfind),
    hlen]
  rfl

/-- No prefix operator is read where an operand starts. -/
theorem prefixOp_miss_of_withSuffixes {n : Node} (h : withSuffixes g src i = .read n j) :
    prefixOp src i = .miss := by
  have hnot : ∀ e ∈ [("!", PrimOp.not), ("-", .neg)], ¬ src.Spells (skipBlank src i) e.1 := by
    intro e he hs
    have hc : ∃ c, src.at? (skipBlank src i) = some c ∧ (c = '!' ∨ c = '-') := by
      simp only [List.mem_cons, List.mem_nil_iff, or_false] at he
      rcases he with rfl | rfl
      · exact ⟨'!', hs.at?_first (by decide), Or.inl rfl⟩
      · exact ⟨'-', hs.at?_first (by decide), Or.inr rfl⟩
    obtain ⟨c, hc, hpre⟩ := hc
    rw [withSuffixes_miss rfl hc hpre] at h
    cases h
  unfold prefixOp
  rw [bind_read tokenPosition_apply]
  exact bind_miss (operator_miss (skipBlank_skipBlank src i) hnot)

/-- The prefix operator reader reads only before the end of the source. -/
theorem prefixOp_lt_size {a : PrimOp × Position} {k : Nat} (h : prefixOp src i = .read a k) :
    i < src.chars.size := by
  unfold prefixOp at h
  rw [bind_read tokenPosition_apply] at h
  cases hop : operator [("!", PrimOp.not), ("-", .neg)] src (skipBlank src i) with
  | read op k' =>
    exact Nat.lt_of_le_of_lt (le_skipBlank src i) (operator_lt_size (by decide) hop)
  | miss => rw [bind_miss hop] at h; cases h
  | stop w => rw [bind_stop hop] at h; cases h

end Operands

/-- From offset `i` the text holds the prefix operators of `u`, each as the symbol at the next
token, and then its operand, which is read up to `j`. -/
inductive PrefixedAt (g : Nested) (src : Source) : Nat → Prefixed → Nat → Prop
  | operand {i j : Nat} {n : Node} : withSuffixes g src i = .read n j → PrefixedAt g src i ⟨[], n⟩ j
  | operator {i j : Nat} {op : PrimOp} {ps : List (PrimOp × Position)} {n : Node} :
      op = .not ∨ op = .neg → src.Spells (skipBlank src i) op.symbol →
      PrefixedAt g src (skipBlank src i + 1) ⟨ps, n⟩ j →
      PrefixedAt g src i ⟨(op, src.positionAt (skipBlank src i)) :: ps, n⟩ j

namespace PrefixedAt

variable {g : Nested} {src : Source} {i j : Nat} {u : Prefixed}

/-- The prefix operators are read one after another up to the operand. -/
theorem reads (h : PrefixedAt g src i u j) :
    ∃ k, ReadsAll prefixOp src i u.prefixes k ∧ withSuffixes g src k = .read u.operand j := by
  induction h with
  | operand hw => exact ⟨_, .last (prefixOp_miss_of_withSuffixes hw), hw⟩
  | @operator i j op ps n hop hs _ ih =>
    obtain ⟨k, hreads, hw⟩ := ih
    exact ⟨k, .next (prefixOp_read hop hs) (Nat.lt_succ_of_le (le_skipBlank src i)) hreads, hw⟩

theorem prefixes_mem (h : PrefixedAt g src i u j) : ∀ q ∈ u.prefixes, q.1 = .not ∨ q.1 = .neg := by
  induction h with
  | operand _ => simp
  | operator hop _ _ ih =>
    intro q hq
    rcases List.mem_cons.1 hq with rfl | hq
    · exact hop
    · exact ih q hq

end PrefixedAt

/-- A prefixed operand is read as its tree. -/
theorem prefixed_read {g : Nested} {src : Source} {i j : Nat} {u : Prefixed}
    (h : PrefixedAt g src i u j) : prefixed g src i = .read u.node j := by
  obtain ⟨k, hreads, hw⟩ := h.reads
  rw [prefixed_eq, bind_read (many_eq_read_of_lt hreads fun _ _ _ => prefixOp_lt_size),
    bind_read hw]
  rfl

/-! ### Reading operators -/

/-- No operator is written with no symbol. -/
theorem BinaryOp.symbol_ne_empty (o : BinaryOp) : o.symbol ≠ "" := by
  rcases o with ⟨op⟩ | _ <;> (try cases op) <;> decide

theorem BinaryOp.level_le (o : BinaryOp) : o.level ≤ 7 := by
  rcases o with ⟨op⟩ | _ <;> (try cases op) <;> decide

/-- At offset `i` the next token is the operator `op`, the longest operator symbol that stands
there, and reading goes on at `j`, right after it. -/
structure BinaryOpAt (src : Source) (i : Nat) (op : BinaryOp) (j : Nat) : Prop where
  binary : 0 < op.level
  spells : src.Spells (skipBlank src i) op.symbol
  longest : ∀ o : BinaryOp, 0 < o.level → src.Spells (skipBlank src i) o.symbol →
    o.symbol.length ≤ op.symbol.length
  next : j = skipBlank src i + op.symbol.length

/-- From offset `i` the text holds the operators of `rest`, each followed by its prefixed operand,
and reading ends at `j`. -/
inductive TailAt (g : Nested) (src : Source) : Nat → List (BinaryOp × Prefixed) → Nat → Prop
  | nil {i : Nat} : TailAt g src i [] i
  | cons {i k m j : Nat} {op : BinaryOp} {u : Prefixed} {rest : List (BinaryOp × Prefixed)} :
      BinaryOpAt src i op k → PrefixedAt g src k u m → TailAt g src m rest j →
      TailAt g src i ((op, u) :: rest) j

/-- No operator symbol of level `1` to `k` stands at the next token after offset `j`. -/
def Quiet (src : Source) (j k : Nat) : Prop :=
  ∀ o : BinaryOp, 0 < o.level → o.level ≤ k → ¬ src.Spells (skipBlank src j) o.symbol

section Operators

variable {g : Nested} {src : Source} {i j m a : Nat}

theorem Quiet.mono {k k' : Nat} (h : Quiet src j k) (hk : k' ≤ k) : Quiet src j k' :=
  fun o ho hok => h o ho (Nat.le_trans hok hk)

namespace BinaryOpAt

variable {op : BinaryOp} (h : BinaryOpAt src i op j)
include h

/-- Every operator symbol at the token of `op` is of the level of `op`: where one symbol is a
start of another, as `+` of `++`, both are of one level. -/
theorem level_eq {o : BinaryOp} (ho : 0 < o.level) (hs : src.Spells (skipBlank src i) o.symbol) :
    o.level = op.level := by
  rcases spells_prefix_or_longer hs h.spells with hp | hlt
  · exact level_eq_of_isPrefixOf h.binary ho hp
  · exact absurd (h.longest o ho hs) (Nat.not_le.2 hlt)

/-- Before an operator, no operator of a tighter level stands. -/
theorem quiet {k : Nat} (hk : k < op.level) : Quiet src i k :=
  fun o ho hok hs => by
    have := h.level_eq ho hs
    omega

theorem lt_next : i < j := by
  have hlen : 0 < op.symbol.length := by
    rw [Nat.pos_iff_ne_zero, Ne, String.length_eq_zero_iff]
    exact op.symbol_ne_empty
  have := le_skipBlank src i
  rw [h.next]
  omega

end BinaryOpAt

namespace TailAt

theorem levels_pos {rest : List (BinaryOp × Prefixed)} (h : TailAt g src i rest j) :
    ∀ x ∈ rest, 0 < x.1.level := by
  induction h with
  | nil => simp
  | cons hop _ _ ih =>
    intro x hx
    rcases List.mem_cons.1 hx with rfl | hx
    · exact hop.binary
    · exact ih x hx

/-- A text of operators and operands splits where its list does. -/
theorem split {s r : List (BinaryOp × Prefixed)} (h : TailAt g src i (s ++ r) j) :
    ∃ m, TailAt g src i s m ∧ TailAt g src m r j := by
  induction s generalizing i with
  | nil => exact ⟨i, .nil, h⟩
  | cons x s ih =>
    cases h with
    | cons hop hu hrest =>
      obtain ⟨m, hs, hr⟩ := ih hrest
      exact ⟨m, .cons hop hu hs, hr⟩

end TailAt

theorem binaryLevels_ne_empty {k : Nat} (hk : k < 6) : ∀ e ∈ binaryLevels.getD k [], e.1 ≠ "" :=
  fun e he => by
    rw [(mem_binaryLevels hk he).1]
    exact BinaryOp.symbol_ne_empty (.prim e.2)

variable {k : Nat} (hk : k < 6)
include hk

/-- At an operator of level `k + 1`, the reader of that level reads it and the operand after it. -/
theorem binaryItem_read {next : Reader Node} {op : PrimOp} {m₁ : Nat} {n : Node}
    (hop : BinaryOpAt src m (.prim op) a) (hl : op.bindingLevel = k + 1)
    (hn : next src a = .read n m₁) :
    binaryItem (binaryLevels.getD k []) next src m = .read (op, n) m₁ := by
  have hmem : (op.symbol, op) ∈ binaryLevels.getD k [] := by
    have := symbol_mem_binaryLevels op (by omega)
    rwa [hl, Nat.add_sub_cancel] at this
  have hfind := find?_longest (binaryLevels_pairwise hk) hmem hop.spells fun e he hs => by
    rw [(mem_binaryLevels hk he).1] at hs ⊢
    exact hop.longest (.prim e.2) (by simp [BinaryOp.level, (mem_binaryLevels hk he).2]) hs
  have hnext : skipBlank src m + op.symbol.length = a := hop.next.symm
  unfold binaryItem
  rw [bind_read (operator_read rfl hfind), hnext, bind_read hn]
  rfl

/-- Where no operator of level `k + 1` or tighter stands, the reader of that level reads none. -/
theorem binaryItem_miss {next : Reader Node} (hq : Quiet src m (k + 1)) :
    binaryItem (binaryLevels.getD k []) next src m = .miss := by
  unfold binaryItem
  refine bind_miss (operator_miss rfl fun e he hs => ?_)
  obtain ⟨hsym, hl⟩ := mem_binaryLevels hk he
  rw [hsym] at hs
  exact hq (.prim e.2) (by simp [BinaryOp.level, hl]) (by simp [BinaryOp.level, hl]) hs

theorem binaryItem_lt_size {next : Reader Node} {v : PrimOp × Node} {m₁ : Nat}
    (h : binaryItem (binaryLevels.getD k []) next src m = .read v m₁) : m < src.chars.size := by
  unfold binaryItem at h
  cases hop : operator (binaryLevels.getD k []) src m with
  | read op k' => exact operator_lt_size (binaryLevels_ne_empty hk) hop
  | miss => rw [bind_miss hop] at h; cases h
  | stop w => rw [bind_stop hop] at h; cases h

omit hk

theorem pipeItem_read {next : Reader Node} {m₁ : Nat} {n : Node} (hop : BinaryOpAt src m .pipe a)
    (hn : next src a = .read n m₁) : pipeItem next src m = .read n m₁ := by
  have hs : src.Spells (skipBlank src m) "|>" := hop.spells
  have hnext : skipBlank src m + "|>".length = a := hop.next.symm
  unfold pipeItem
  rw [bind_read (symbol_read rfl hs), hnext]
  exact hn

theorem pipeItem_miss {next : Reader Node} (hq : Quiet src m 7) : pipeItem next src m = .miss :=
  bind_miss (symbol_miss rfl (hq .pipe (by decide) (by decide)))

theorem pipeItem_lt_size {next : Reader Node} {n : Node} {m₁ : Nat}
    (h : pipeItem next src m = .read n m₁) : m < src.chars.size := by
  unfold pipeItem at h
  cases hsym : symbol "|>" src m with
  | read u k' =>
    simp only [symbol] at hsym
    split at hsym
    · next hs => exact Nat.lt_of_le_of_lt (le_skipBlank src m) (spells_lt_size (hasAt_iff.1 hs) (by decide))
    · cases hsym
  | miss => rw [bind_miss hsym] at h; cases h
  | stop w => rw [bind_stop hsym] at h; cases h

end Operators

/-! ### Left-grouped chains -/

namespace OpTree

/-- The expression `t op₁ r₁ op₂ r₂ …`, grouped to the left. -/
def joinAll (t : OpTree) (its : List (BinaryOp × OpTree)) : OpTree :=
  its.foldl (fun acc x => .binary x.1 acc x.2) t

/-- What a chain of operators and their right operands writes. -/
def chainText (its : List (BinaryOp × OpTree)) : List (BinaryOp × Prefixed) :=
  its.flatMap fun x => (x.1, x.2.written.1) :: x.2.written.2

theorem joinAll_cons (t : OpTree) (x : BinaryOp × OpTree) (its : List (BinaryOp × OpTree)) :
    t.joinAll (x :: its) = (OpTree.binary x.1 t x.2).joinAll its := rfl

theorem written_joinAll (t : OpTree) (its : List (BinaryOp × OpTree)) :
    (t.joinAll its).written = (t.written.1, t.written.2 ++ chainText its) := by
  induction its generalizing t with
  | nil => simp [joinAll, chainText]
  | cons x its ih =>
    rw [joinAll_cons, ih]
    simp [written, chainText]

/-- A chain of operators of one level over operands that bind more tightly is grouped. -/
theorem grouped_joinAll {L : Nat} (hL : 0 < L) {t : OpTree} (ht : t.Grouped) (htl : t.level ≤ L)
    {its : List (BinaryOp × OpTree)}
    (hits : ∀ x ∈ its, x.1.level = L ∧ x.2.Grouped ∧ x.2.level < L) :
    (t.joinAll its).Grouped ∧ (t.joinAll its).level ≤ L := by
  induction its generalizing t with
  | nil => exact ⟨ht, htl⟩
  | cons x its ih =>
    obtain ⟨hx, hxg, hxl⟩ := hits x List.mem_cons_self
    rw [joinAll_cons]
    exact ih (.binary (hx ▸ hL) (hx ▸ htl) (hx ▸ hxl) ht hxg) (Nat.le_of_eq hx)
      fun y hy => hits y (List.mem_cons_of_mem _ hy)

/-- A chain of binary operators is the tree that a level's reader folds: every operation at the
position of the chain's first operand. -/
theorem toNode_joinAll_prim {t : OpTree} {its : List (BinaryOp × OpTree)} {vs : List (PrimOp × Node)}
    (h : List.Forall₂ (fun x v => x.1 = .prim v.1 ∧ v.2 = x.2.toNode) its vs) :
    (t.joinAll its).toNode =
      vs.foldl (fun acc v => .prim v.1 acc (some v.2) t.toNode.pos) t.toNode := by
  induction h generalizing t with
  | nil => rfl
  | @cons x v its vs hxv _ ih =>
    obtain ⟨hop, hnode⟩ := hxv
    obtain ⟨op, r⟩ := x
    obtain ⟨p, n⟩ := v
    simp only at hop hnode
    subst hop hnode
    rw [joinAll_cons, ih]
    rfl

/-- A chain of pipelines is the tree that the pipeline reader folds. -/
theorem toNode_joinAll_pipe {t : OpTree} {its : List (BinaryOp × OpTree)} {vs : List Node}
    (h : List.Forall₂ (fun x v => x.1 = .pipe ∧ v = x.2.toNode) its vs) :
    (t.joinAll its).toNode = vs.foldl pipeInto t.toNode := by
  induction h generalizing t with
  | nil => rfl
  | @cons x v its vs hxv _ ih =>
    obtain ⟨hop, hnode⟩ := hxv
    obtain ⟨op, r⟩ := x
    simp only at hop hnode
    subst hop hnode
    rw [joinAll_cons, ih]
    rfl

end OpTree

/-! ### Reading levels -/

/-- What the reader of level `k` reads from `i`, where the text holds the operand `u` and then
the operators and operands of `rest` up to `j`: the longest front of `rest` whose operators bind
at level `k` or tighter, as the tree the table groups, up to where a looser operator or the end
follows. -/
def LevelReads (g : Nested) (src : Source) (k i : Nat) (u : Prefixed)
    (rest : List (BinaryOp × Prefixed)) (j : Nat) : Prop :=
  ∃ (t : OpTree) (r : List (BinaryOp × Prefixed)) (m : Nat),
    t.Grouped ∧ t.level ≤ k ∧ t.written.1 = u ∧ rest = t.written.2 ++ r ∧
      (∀ x ∈ r.head?, k < x.1.level) ∧ TailAt g src m r j ∧
      levelReader g k src i = .read t.toNode m

section Levels

variable {g : Nested} {src : Source} {j : Nat}

theorem levelReader_forward (hg : g.Forward) : ∀ k, (levelReader g k).Forward
  | 0 => prefixed_forward hg
  | k + 1 => binaryLevel_forward _ (levelReader_forward hg k)

/-- The loop of a level reads operator after operator of the level, each with its right operand
read by the tighter levels, until a looser operator or the end. `R` says what the loop's reader
gives for an operator and its operand. -/
theorem items_read {β : Type} {item : Reader β} {R : BinaryOp × OpTree → β → Prop} {k : Nat}
    (hg : g.Forward) (hq : Quiet src j (k + 1))
    (hlevel : ∀ {a b : Nat} {v : Prefixed} {r : List (BinaryOp × Prefixed)},
      PrefixedAt g src a v b → TailAt g src b r j → LevelReads g src k a v r j)
    (hread : ∀ {m a m₁ : Nat} {op : BinaryOp} {t : OpTree}, BinaryOpAt src m op a →
      op.level = k + 1 → levelReader g k src a = .read t.toNode m₁ →
      ∃ v, R (op, t) v ∧ item src m = .read v m₁)
    (hmiss : ∀ {m : Nat}, Quiet src m (k + 1) → item src m = .miss) (n : Nat) :
    ∀ {r : List (BinaryOp × Prefixed)} {m : Nat}, r.length ≤ n → TailAt g src m r j →
      (∀ x ∈ r.head?, k < x.1.level) →
      ∃ (its : List (BinaryOp × OpTree)) (r' : List (BinaryOp × Prefixed)) (m' : Nat) (vs : List β),
        (∀ x ∈ its, x.1.level = k + 1 ∧ x.2.Grouped ∧ x.2.level ≤ k) ∧
        r = OpTree.chainText its ++ r' ∧ (∀ x ∈ r'.head?, k + 1 < x.1.level) ∧
        TailAt g src m' r' j ∧ List.Forall₂ R its vs ∧ ReadsAll item src m vs m' := by
  induction n with
  | zero =>
    intro r m hlen hr _
    obtain rfl : r = [] := List.length_eq_zero_iff.1 (Nat.le_zero.1 hlen)
    cases hr
    exact ⟨[], [], _, [], by simp, by simp [OpTree.chainText], by simp, .nil, .nil,
      .last (hmiss hq)⟩
  | succ n ih =>
    intro r m hlen hr hhead
    cases hr with
    | nil =>
      exact ⟨[], [], _, [], by simp, by simp [OpTree.chainText], by simp, .nil, .nil,
        .last (hmiss hq)⟩
    | @cons _ a b _ op v rest hop hv hrest =>
      have hk : k < op.level := hhead _ rfl
      by_cases hl : op.level = k + 1
      · -- an operator of the level: its right operand is what the tighter levels read after it
        obtain ⟨t, r₂, m₁, ht, htl, htu, hsplit, hhead₂, htail₂, hread₂⟩ := hlevel hv hrest
        obtain ⟨w, hR, hitem⟩ := hread hop hl hread₂
        have hlen₂ : r₂.length ≤ n := by
          simp only [List.length_cons, hsplit, List.length_append] at hlen
          omega
        obtain ⟨its, r', m', vs, hits, hr₂, hhead', htail', hR', hreads⟩ :=
          ih hlen₂ htail₂ hhead₂
        have hm : m < m₁ :=
          Nat.lt_of_lt_of_le hop.lt_next (levelReader_forward hg k _ _ _ _ hread₂)
        refine ⟨(op, t) :: its, r', m', w :: vs, ?_, ?_, hhead', htail', .cons hR hR',
          .next hitem hm hreads⟩
        · intro x hx
          rcases List.mem_cons.1 hx with rfl | hx
          · exact ⟨hl, ht, htl⟩
          · exact hits x hx
        · simp [OpTree.chainText, htu, hsplit, hr₂]
      · -- a looser operator ends the level
        exact ⟨[], (op, v) :: rest, m, [], by simp, by simp [OpTree.chainText],
          fun x hx => by cases hx; show k + 1 < op.level; omega, .cons hop hv hrest, .nil,
          .last (hmiss (hop.quiet (by omega)))⟩

/-- The reader of level `k` reads the longest front of the text that its levels group, as the
tree the table gives it. -/
theorem levelReads (hg : g.Forward) : ∀ k, k ≤ 6 → ∀ {i m : Nat} {u : Prefixed}
    {rest : List (BinaryOp × Prefixed)}, PrefixedAt g src i u m → TailAt g src m rest j →
    Quiet src j k → LevelReads g src k i u rest j
  | 0, _, _, m, u, rest, hu, hrest, _ =>
    ⟨.operand u, rest, m, .operand hu.prefixes_mem, Nat.le_refl _, rfl, rfl,
      fun x hx => hrest.levels_pos x (List.mem_of_mem_head? hx), hrest, prefixed_read hu⟩
  | k + 1, hk, i, m, u, rest, hu, hrest, hq => by
    have hlevel : ∀ {a b : Nat} {v : Prefixed} {r : List (BinaryOp × Prefixed)},
        PrefixedAt g src a v b → TailAt g src b r j → LevelReads g src k a v r j :=
      fun hv hr => levelReads hg k (by omega) hv hr (hq.mono (Nat.le_succ k))
    have hread : ∀ {m a m₁ : Nat} {op : BinaryOp} {t : OpTree}, BinaryOpAt src m op a →
        op.level = k + 1 → levelReader g k src a = .read t.toNode m₁ →
        ∃ v : PrimOp × Node, (op = .prim v.1 ∧ v.2 = t.toNode) ∧
          binaryItem (binaryLevels.getD k []) (levelReader g k) src m = .read v m₁ := by
      intro m a m₁ op t hop hl hn
      cases op with
      | prim p => exact ⟨(p, t.toNode), ⟨rfl, rfl⟩, binaryItem_read (by omega) hop hl hn⟩
      | pipe => simp [BinaryOp.level] at hl; omega
    obtain ⟨t₀, r₀, m₀, ht₀, ht₀l, ht₀u, hsplit₀, hhead₀, htail₀, hread₀⟩ := hlevel hu hrest
    obtain ⟨its, r', m', vs, hits, hr₀, hhead', htail', hR, hreads⟩ :=
      items_read (R := fun x v => x.1 = .prim v.1 ∧ v.2 = x.2.toNode) hg hq hlevel hread
        (fun hq' => binaryItem_miss (by omega) hq') _ (Nat.le_refl _) htail₀ hhead₀
    obtain ⟨hg', hl'⟩ := OpTree.grouped_joinAll (Nat.succ_pos k) ht₀ (Nat.le_succ_of_le ht₀l)
      fun x hx => (hits x hx).imp_right fun h => h.imp_right Nat.lt_succ_of_le
    refine ⟨t₀.joinAll its, r', m', hg', hl', ?_, ?_, hhead', htail', ?_⟩
    · rw [OpTree.written_joinAll, ht₀u]
    · rw [OpTree.written_joinAll, hsplit₀, hr₀, List.append_assoc]
    · rw [levelReader, binaryLevel_eq, bind_read hread₀,
        bind_read (many_eq_read_of_lt hreads fun _ _ _ h => binaryItem_lt_size (by omega) h),
        OpTree.toNode_joinAll_prim hR]
      rfl

/-- An expression of operators is read as the tree the precedence table groups. -/
theorem operatorExpr_reads (hg : g.Forward) {i m : Nat} {u : Prefixed}
    {rest : List (BinaryOp × Prefixed)} (hu : PrefixedAt g src i u m) (hrest : TailAt g src m rest j)
    (hq : Quiet src j 7) :
    ∃ t : OpTree, t.Grouped ∧ t.written = (u, rest) ∧ operatorExpr g src i = .read t.toNode j := by
  have hlevel : ∀ {a b : Nat} {v : Prefixed} {r : List (BinaryOp × Prefixed)},
      PrefixedAt g src a v b → TailAt g src b r j → LevelReads g src 6 a v r j :=
    fun hv hr => levelReads hg 6 (Nat.le_refl _) hv hr (hq.mono (by omega))
  have hread : ∀ {m a m₁ : Nat} {op : BinaryOp} {t : OpTree}, BinaryOpAt src m op a →
      op.level = 6 + 1 → levelReader g 6 src a = .read t.toNode m₁ →
      ∃ v : Node, (op = .pipe ∧ v = t.toNode) ∧ pipeItem (levelReader g 6) src m = .read v m₁ := by
    intro m a m₁ op t hop hl hn
    cases op with
    | prim p =>
      have := p.bindingLevel_le
      simp [BinaryOp.level] at hl
      omega
    | pipe => exact ⟨t.toNode, ⟨rfl, rfl⟩, pipeItem_read hop hn⟩
  obtain ⟨t₀, r₀, m₀, ht₀, ht₀l, ht₀u, hsplit₀, hhead₀, htail₀, hread₀⟩ := hlevel hu hrest
  obtain ⟨its, r', m', vs, hits, hr₀, hhead', htail', hR, hreads⟩ :=
    items_read (R := fun x v => x.1 = .pipe ∧ v = x.2.toNode) hg hq hlevel hread pipeItem_miss _
      (Nat.le_refl _) htail₀ hhead₀
  -- no operator binds more loosely than the pipeline, so the pipelines read up to the end
  have hr' : r' = [] := by
    cases r' with
    | nil => rfl
    | cons x _ =>
      have := hhead' x rfl
      have := x.1.level_le
      omega
  subst hr'
  cases htail'
  refine ⟨t₀.joinAll its, (OpTree.grouped_joinAll (by omega) ht₀ (by omega)
    fun x hx => (hits x hx).imp_right fun h => h.imp_right fun hl => by omega).1, ?_, ?_⟩
  · rw [OpTree.written_joinAll, ht₀u, hsplit₀, hr₀, List.append_nil]
  · rw [operatorExpr_eq, bind_read hread₀,
      bind_read (many_eq_read_of_lt hreads fun _ _ _ h => pipeItem_lt_size h),
      OpTree.toNode_joinAll_pipe hR]
    rfl

end Levels

/-- Where a reading ends, if it reads. -/
def Reading.next? {α : Type} : Reading α → Option Nat
  | .read _ j => some j
  | _ => none

theorem Reading.exists_of_next? {α : Type} {x : Reading α} {j : Nat} (h : x.next? = some j) :
    ∃ a, x = .read a j := by
  cases x with
  | read a k =>
    cases h
    exact ⟨a, rfl⟩
  | miss => cases h
  | stop w => cases h

end Tree

open Retl.Tree

/-- Operators are read by the precedence table. Among the trees grouped by the table, one only is
written as a given text of prefixed operands and operators; and an expression written so, with no
operator after it, is read as that tree, at every depth of nesting. -/
theorem operators_read_by_precedence :
    (∀ t₁ t₂ : OpTree, t₁.Grouped → t₂.Grouped → t₁.written = t₂.written → t₁ = t₂) ∧
      ∀ (d : Nat) (src : Source) (i m j : Nat) (u : Prefixed) (rest : List (BinaryOp × Prefixed)),
        PrefixedAt ⟨expression d, statements d, typeExpr d⟩ src i u m →
        TailAt ⟨expression d, statements d, typeExpr d⟩ src m rest j → Quiet src j 7 →
        ∃ t : OpTree, t.Grouped ∧ t.written = (u, rest) ∧
          expression (d + 1) src i = .read t.toNode j :=
  ⟨fun _ _ h₁ h₂ h => OpTree.grouped_unique h₁ h₂ h,
    fun d _ _ _ _ _ _ hu hrest hq => operatorExpr_reads (nested_forward d) hu hrest hq⟩

/-- `1 + 2 * 3` is read as the grouped tree of its three operands and two operators. -/
theorem product_groups_inside_sum :
    ∃ (n₁ n₂ n₃ : Node) (t : OpTree), t.Grouped ∧
      t.written = (⟨[], n₁⟩, [(.prim .add, ⟨[], n₂⟩), (.prim .mul, ⟨[], n₃⟩)]) ∧
      expression 1 (Source.ofText "<input>" "1 + 2 * 3") 0 = .read t.toNode 9 := by
  let g : Nested := ⟨expression 0, statements 0, typeExpr 0⟩
  let src := Source.ofText "<input>" "1 + 2 * 3"
  obtain ⟨n₁, h₁⟩ := Reading.exists_of_next? (x := withSuffixes g src 0) (j := 1) (by decide +kernel)
  obtain ⟨n₂, h₂⟩ := Reading.exists_of_next? (x := withSuffixes g src 3) (j := 5) (by decide +kernel)
  obtain ⟨n₃, h₃⟩ := Reading.exists_of_next? (x := withSuffixes g src 7) (j := 9) (by decide +kernel)
  have hsize : src.chars.size = 9 := by decide +kernel
  have hop : ∀ (i j : Nat) (op : BinaryOp), 0 < op.level →
      src.hasAt op.symbol (skipBlank src i) = true →
      (∀ o : BinaryOp, 0 < o.level → src.hasAt o.symbol (skipBlank src i) = true →
        o.symbol.length ≤ op.symbol.length) →
      j = skipBlank src i + op.symbol.length → BinaryOpAt src i op j :=
    fun i j op ho hs hl hj =>
      ⟨ho, Source.hasAt_iff.1 hs, fun o ho' hs' => hl o ho' (Source.hasAt_iff.2 hs'), hj⟩
  have hlong : ∀ i, ∀ o : BinaryOp, 0 < o.level → src.hasAt o.symbol (skipBlank src i) = true →
      i = 1 ∨ i = 5 → o.symbol.length ≤ 1 := by
    intro i o _ hs hi
    revert hs
    rcases hi with rfl | rfl <;> rcases o with ⟨op⟩ | _ <;> (try cases op) <;> decide +kernel
  refine ⟨n₁, n₂, n₃, operators_read_by_precedence.2 0 src 0 1 9 ⟨[], n₁⟩ _ (.operand h₁)
    (.cons (hop 1 3 (.prim .add) (by decide) (by decide +kernel)
        (fun o ho hs => hlong 1 o ho hs (Or.inl rfl)) (by decide +kernel)) (.operand h₂)
      (.cons (hop 5 7 (.prim .mul) (by decide) (by decide +kernel)
          (fun o ho hs => hlong 5 o ho hs (Or.inr rfl)) (by decide +kernel)) (.operand h₃) .nil))
    fun o _ _ => ?_⟩
  rw [skipBlank_of_end (Nat.le_of_eq hsize)]
  exact not_spells_of_end (Nat.le_of_eq hsize) o.symbol_ne_empty


end Retl
