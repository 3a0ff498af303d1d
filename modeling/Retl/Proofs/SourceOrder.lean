import Retl.Proofs.ReadingAdvances
import Retl.Tree.Outline
/-!
# Positions in the order of the text

A position comes no later than another when it is on an earlier line, or on the same line at
a column no greater (`Position.AtOrBefore`). Positions taken at offsets of one source follow
the offsets (`Source.positionAt_mono`): the bisection that counts the line feeds before an
offset counts no fewer for a later offset, whatever the line feeds are.

`Ordered src i j ps` says that the positions `ps` are taken at offsets from `i` to `j`, in the
order of the offsets; such positions are in text order (`Ordered.pairwise`). A node's listing
shows the positions of its nodes, each node before its children (`Outline.spots`), and
`Reader.Lays` says of a reader that these positions are ordered within the text it reads. The
combinators keep that: a token in between adds no position, and a repetition lays its items one
after another (`Reader.Lays.many`, `Reader.Lays.sepBy1`).
-/

namespace Retl

/-- Position `p` comes no later in the text than `q`: on an earlier line, or on the same line
at a column no greater. -/
def Position.AtOrBefore (p q : Position) : Prop :=
  p.line < q.line ∨ p.line = q.line ∧ p.column ≤ q.column

instance (p q : Position) : Decidable (p.AtOrBefore q) := by
  unfold Position.AtOrBefore
  infer_instance

theorem Position.AtOrBefore.trans {p q r : Position} (hpq : p.AtOrBefore q)
    (hqr : q.AtOrBefore r) : p.AtOrBefore r := by
  unfold Position.AtOrBefore at *
  omega

namespace Source

variable (src : Source)

theorem le_feedsBefore (o lo hi : Nat) : lo ≤ src.feedsBefore o lo hi := by
  fun_induction src.feedsBefore o lo hi <;> omega

theorem feedsBefore_le (o lo hi : Nat) (h : lo ≤ hi) : src.feedsBefore o lo hi ≤ hi := by
  fun_induction src.feedsBefore o lo hi <;> omega

theorem feedsBefore_of_lt {o lo hi : Nat} (h : lo < hi) :
    src.feedsBefore o lo hi =
      if src.lineFeeds[(lo + hi) / 2]?.getD 0 < o then src.feedsBefore o ((lo + hi) / 2 + 1) hi
      else src.feedsBefore o lo ((lo + hi) / 2) := by
  rw [feedsBefore, dif_pos h]

theorem feedsBefore_of_ge {o lo hi : Nat} (h : ¬ lo < hi) : src.feedsBefore o lo hi = lo := by
  rw [feedsBefore, dif_neg h]

/-- The bisection counts no fewer line feeds before a later offset: where the two searches part,
the earlier offset goes left of the middle and the later one right of it. -/
theorem feedsBefore_mono {o o' : Nat} (h : o ≤ o') (lo hi : Nat) :
    src.feedsBefore o lo hi ≤ src.feedsBefore o' lo hi := by
  fun_induction src.feedsBefore o lo hi with
  | case1 lo hi hlt mid hmid ih =>
    rw [src.feedsBefore_of_lt hlt, if_pos (Nat.lt_of_lt_of_le hmid h)]
    exact ih
  | case2 lo hi hlt mid hmid ih =>
    rw [src.feedsBefore_of_lt hlt]
    split
    · have := feedsBefore_le src o lo mid (by omega)
      have := le_feedsBefore src o' ((lo + hi) / 2 + 1) hi
      omega
    · exact ih
  | case3 lo hi hge => exact le_feedsBefore src o' lo hi

/-- Positions follow the offsets they are taken at. -/
theorem positionAt_mono {o o' : Nat} (h : o ≤ o') :
    (src.positionAt o).AtOrBefore (src.positionAt o') := by
  have hk := src.feedsBefore_mono h 0 src.lineFeeds.size
  unfold positionAt Position.AtOrBefore
  simp only
  rcases Nat.lt_or_eq_of_le hk with hlt | heq
  · left
    omega
  · right
    rw [heq]
    exact ⟨rfl, by omega⟩

end Source

/-! ### Ordered positions -/

/-- The positions `ps` are taken at offsets from `i` to `j`, in the order of the offsets. -/
inductive Ordered (src : Source) : Nat → Nat → List Position → Prop
  | nil {i j : Nat} : i ≤ j → Ordered src i j []
  | cons {i o j : Nat} {ps : List Position} : i ≤ o → Ordered src o j ps →
      Ordered src i j (src.positionAt o :: ps)

namespace Ordered

variable {src : Source} {i j k : Nat} {ps qs : List Position}

theorem le (h : Ordered src i j ps) : i ≤ j := by
  induction h with
  | nil hij => exact hij
  | cons hio _ ih => exact Nat.le_trans hio ih

theorem mono {i' j' : Nat} (h : Ordered src i j ps) (hi : i' ≤ i) (hj : j ≤ j') :
    Ordered src i' j' ps := by
  induction h generalizing i' with
  | nil hij => exact .nil (by omega)
  | cons hio _ ih => exact .cons (Nat.le_trans hi hio) (ih (Nat.le_refl _) hj)

/-- Positions of one stretch of text, then of a later one. -/
theorem append (h₁ : Ordered src i k ps) (h₂ : Ordered src k j qs) : Ordered src i j (ps ++ qs) := by
  induction h₁ with
  | nil hik => exact h₂.mono hik (Nat.le_refl _)
  | cons hio _ ih => exact .cons hio (ih h₂)

/-- Positions of a stretch of text split where their list does. -/
theorem split (h : Ordered src i j (ps ++ qs)) : ∃ k, Ordered src i k ps ∧ Ordered src k j qs := by
  induction ps generalizing i with
  | nil => exact ⟨i, .nil (Nat.le_refl _), h⟩
  | cons p ps ih =>
    cases h with
    | cons hio hrest =>
      obtain ⟨k, hps, hqs⟩ := ih hrest
      exact ⟨k, .cons hio hps, hqs⟩

theorem single {o : Nat} (hi : i ≤ o) (hj : o ≤ j) : Ordered src i j [src.positionAt o] :=
  .cons hi (.nil hj)

/-- A node that stands where its first child does repeats the child's position. -/
theorem dup {p : Position} (h : Ordered src i j (p :: ps)) : Ordered src i j (p :: p :: ps) := by
  cases h with
  | cons hio hrest => exact .cons hio (.cons (Nat.le_refl _) hrest)

theorem replicate {p : Position} (h : Ordered src i j (p :: ps)) (n : Nat) :
    Ordered src i j (List.replicate n p ++ p :: ps) := by
  induction n with
  | zero => exact h
  | succ n ih =>
    rw [List.replicate_succ, List.cons_append]
    cases n with
    | zero => exact h.dup
    | succ n =>
      rw [List.replicate_succ, List.cons_append] at ih ⊢
      exact ih.dup

theorem after (h : Ordered src i j ps) : ∀ q ∈ ps, ∃ o, i ≤ o ∧ q = src.positionAt o := by
  induction h with
  | nil _ => simp
  | @cons i o j ps hio _ ih =>
    intro q hq
    rcases List.mem_cons.1 hq with rfl | hq
    · exact ⟨o, hio, rfl⟩
    · obtain ⟨o', ho', rfl⟩ := ih q hq
      exact ⟨o', Nat.le_trans hio ho', rfl⟩

/-- Positions taken at offsets in order are in the order of the text. -/
theorem pairwise (h : Ordered src i j ps) : ps.Pairwise Position.AtOrBefore := by
  induction h with
  | nil _ => exact .nil
  | @cons i o j ps _ hrest ih =>
    refine List.Pairwise.cons (fun q hq => ?_) ih
    obtain ⟨o', ho', rfl⟩ := hrest.after q hq
    exact src.positionAt_mono ho'

end Ordered

/-! ### The positions of a listing -/

namespace Tree

namespace Outline

mutual

/-- The positions of an outline's nodes, each node before its children. -/
def spots : Outline → List Position
  | .node _ _ _ p cs => p :: spotsAll cs

/-- The positions of a list of outlines' nodes, one outline after another. -/
def spotsAll : List Outline → List Position
  | [] => []
  | o :: os => spots o ++ spotsAll os

end

@[simp] theorem spots_node (k l : String) (s : Option Scalar) (p : Position) (cs : List Outline) :
    (Outline.node k l s p cs).spots = p :: spotsAll cs := by
  rw [spots]

@[simp] theorem spotsAll_nil : spotsAll [] = [] := by
  rw [spotsAll]

@[simp] theorem spotsAll_cons (o : Outline) (os : List Outline) :
    spotsAll (o :: os) = o.spots ++ spotsAll os := by
  rw [spotsAll]

@[simp] theorem spotsAll_append (os os' : List Outline) :
    spotsAll (os ++ os') = spotsAll os ++ spotsAll os' := by
  induction os with
  | nil => simp
  | cons o os ih => simp [ih]

theorem spotsAll_map {α : Type} (f : α → Outline) (xs : List α) :
    spotsAll (xs.map f) = xs.flatMap fun x => (f x).spots := by
  induction xs with
  | nil => simp
  | cons x xs ih => simp [ih]

end Outline

theorem LitNode.outline_spots (l : LitNode) : l.outline.spots = [l.pos] := by
  unfold LitNode.outline
  split <;> simp

/-- A node's listing starts with the node's own position. -/
theorem Node.spots_outline (n : Node) : ∃ ps, n.outline.spots = n.pos :: ps := by
  cases n with
  | lit l p => exact ⟨[], LitNode.outline_spots ⟨l, p⟩⟩
  | _ => simp only [Node.outline, Outline.spots_node, Node.pos, List.cons.injEq, true_and,
      exists_eq']

end Tree

/-! ### Readers that lay positions in order -/

namespace Tree

open Reader

variable {α β : Type} {src : Source} {i j : Nat}

theorem bind_eq_read {r : Reader α} {f : α → Reader β} {b : β} (h : (r >>= f) src i = .read b j) :
    ∃ a k, r src i = .read a k ∧ f a src k = .read b j := by
  cases hr : r src i with
  | read a k => exact ⟨a, k, rfl, by rwa [bind_read hr] at h⟩
  | miss => rw [bind_miss hr] at h; cases h
  | stop w => rw [bind_stop hr] at h; cases h

/-- A token read first: the rest of the rule reads on from no earlier offset. -/
theorem token_then {t : Reader β} {f : β → Reader α} {a : α} (ht : t.Forward)
    (h : (t >>= f) src i = .read a j) : ∃ b k, i ≤ k ∧ f b src k = .read a j := by
  obtain ⟨b, k, hb, h⟩ := bind_eq_read h
  exact ⟨b, k, ht _ _ _ _ hb, h⟩

theorem orElse_eq_read {r s : Reader α} {a : α} (h : (r <|> s) src i = .read a j) :
    r src i = .read a j ∨ s src i = .read a j := by
  cases hr : r src i with
  | read b k => rw [orElse_read hr] at h; exact Or.inl h
  | miss => rw [orElse_miss hr] at h; exact Or.inr h
  | stop w => rw [orElse_stop hr] at h; cases h

theorem pure_eq_read {a b : α} (h : (pure a : Reader α) src i = .read b j) : b = a ∧ j = i := by
  cases h
  exact ⟨rfl, rfl⟩

theorem tokenPosition_eq_read {p : Position} (h : tokenPosition src i = .read p j) :
    p = src.positionAt (skipBlank src i) ∧ j = skipBlank src i := by
  rw [tokenPosition_apply] at h
  cases h
  exact ⟨rfl, rfl⟩

/-- A rule that notes the position of its first token reads on from that token. -/
theorem tokenPosition_then {f : Position → Reader α} {a : α}
    (h : (tokenPosition >>= f) src i = .read a j) :
    f (src.positionAt (skipBlank src i)) src (skipBlank src i) = .read a j := by
  obtain ⟨p, k, hp, h⟩ := bind_eq_read h
  obtain ⟨rfl, rfl⟩ := tokenPosition_eq_read hp
  exact h

/-- `r` reads `as` one item after another from offset `i`, ending at `j`. -/
inductive ReadsSeq (r : Reader α) (src : Source) : Nat → List α → Nat → Prop
  | nil {i : Nat} : ReadsSeq r src i [] i
  | cons {i k j : Nat} {a : α} {as : List α} : r src i = .read a k → ReadsSeq r src k as j →
      ReadsSeq r src i (a :: as) j

/-- What a repetition reads, its reader read item by item. -/
theorem many_go_eq_read {r : Reader α} :
    ∀ (fuel i : Nat) (acc out : List α) (j : Nat), many.go r src fuel i acc = .read out j →
      ∃ as, out = acc.reverse ++ as ∧ ReadsSeq r src i as j
  | 0, _, acc, out, _, h => by
    cases h
    exact ⟨[], by simp, .nil⟩
  | fuel + 1, i, acc, out, j, h => by
    simp only [many.go] at h
    split at h
    · next a k hk =>
      split at h
      · obtain ⟨as, rfl, hseq⟩ := many_go_eq_read fuel k (a :: acc) out j h
        exact ⟨a :: as, by simp, .cons hk hseq⟩
      · cases h
        exact ⟨[a], by simp, .cons hk .nil⟩
    · cases h
      exact ⟨[], by simp, .nil⟩
    · cases h

theorem many_eq_read_seq {r : Reader α} {as : List α} (h : Reader.many r src i = .read as j) :
    ReadsSeq r src i as j := by
  obtain ⟨as', rfl, hseq⟩ := many_go_eq_read _ i [] as j h
  simpa using hseq

/-- Whatever `r` reads from `i` to `j`, the positions `S` gives for it are taken at offsets from
`i` to `j`, in order. -/
def Reader.Lays (src : Source) (r : Reader α) (S : α → List Position) : Prop :=
  ∀ i a j, r src i = .read a j → Ordered src i j (S a)

namespace Reader.Lays

variable {r s : Reader α} {S : α → List Position}

/-- A reader that reads forward lays no positions. -/
theorem nil (hr : r.Forward) : Lays src r fun _ => [] :=
  fun _ _ _ h => .nil (hr _ _ _ _ h)

theorem orElse (hr : Lays src r S) (hs : Lays src s S) : Lays src (r <|> s) S := by
  intro i a j h
  rcases orElse_eq_read h with h | h
  · exact hr _ _ _ h
  · exact hs _ _ _ h

/-- A token read before a reader adds no position. -/
theorem after {t : Reader β} {f : β → Reader α} (ht : t.Forward) (hf : ∀ b, Lays src (f b) S) :
    Lays src (t >>= f) S := by
  intro i a j h
  obtain ⟨b, k, hb, h⟩ := bind_eq_read h
  exact (hf b _ _ _ h).mono (ht _ _ _ _ hb) (Nat.le_refl _)

/-- A token read after a reader adds no position. -/
theorem before {t : Reader β} (hr : Lays src r S) (ht : t.Forward) :
    Lays src (do let a ← r; let _ ← t; pure a) S := by
  intro i a j h
  obtain ⟨a', k, ha, h⟩ := bind_eq_read h
  obtain ⟨b, k', hb, h⟩ := bind_eq_read h
  obtain ⟨rfl, rfl⟩ := pure_eq_read h
  exact (hr _ _ _ ha).mono (Nat.le_refl _) (ht _ _ _ _ hb)

theorem seq {as : List α} (hseq : ReadsSeq r src i as j) (hr : Lays src r S) : Ordered src i j (as.flatMap S) := by
  induction hseq with
  | nil => exact .nil (Nat.le_refl _)
  | cons hread _ ih => exact (hr _ _ _ hread).append ih

/-- A repetition lays its items one after another. -/
theorem many (hr : Lays src r S) : Lays src (Reader.many r) fun as => as.flatMap S :=
  fun _ _ _ h => seq (many_eq_read_seq h) hr

theorem optional (hr : Lays src r S) : Lays src (Reader.optional r) fun o => (o.map S).getD [] := by
  intro i o j h
  rcases orElse_eq_read h with h | h
  · obtain ⟨a, k, ha, h⟩ := bind_eq_read h
    cases h
    exact hr _ _ _ ha
  · obtain ⟨rfl, rfl⟩ := pure_eq_read h
    exact .nil (Nat.le_refl _)

/-- A list that may be absent lays what the list lays, and nothing when absent. -/
theorem optionalList {r : Reader (List α)} {S : α → List Position}
    (hr : Lays src r fun as => as.flatMap S) :
    Lays src (Reader.optional r) fun o => (o.getD []).flatMap S := by
  intro i o j h
  have := optional hr _ _ _ h
  cases o <;> exact this

theorem sepBy1 {sep : Reader Unit} (hr : Lays src r S) (hsep : sep.Forward) :
    Lays src (Reader.sepBy1 r sep) fun as => as.flatMap S := by
  intro i as j h
  obtain ⟨a, k, ha, h⟩ := bind_eq_read h
  obtain ⟨as', k', has, h⟩ := bind_eq_read h
  obtain ⟨rfl, rfl⟩ := pure_eq_read h
  exact (hr _ _ _ ha).append (many (after hsep fun _ => hr) _ _ _ has)

theorem many1 (hr : Lays src r S) : Lays src (Reader.many1 r) fun as => as.flatMap S := by
  intro i as j h
  obtain ⟨a, k, ha, h⟩ := bind_eq_read h
  obtain ⟨as', k', has, h⟩ := bind_eq_read h
  obtain ⟨rfl, rfl⟩ := pure_eq_read h
  exact (hr _ _ _ ha).append (many hr _ _ _ has)

end Reader.Lays

end Tree

end Retl
