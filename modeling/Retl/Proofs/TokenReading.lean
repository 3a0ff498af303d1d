import Mathlib
import Retl.Tree.Parse
/-!
# Reading known text

What the readers do at an offset where the text is known. `Source.Spells src j s` says that
the text `s` stands in the source from offset `j` on. There a symbol or a keyword that the
text spells is read past, and one that differs from it misses; a token that starts with
neither a blank nor a slash has no blanks to skip before it.

A reader is a function of the source and the offset, so the combinators are taken apart
one outcome of their first reader at a time (`bind_read`, `orElse_miss`, ...). A repetition
reads every item of a run of items that each advance, and stops at the first miss
(`many_eq_read`).

A text with no tab is read as it stands (`ofText_spells`), and past its end nothing is read
(`not_spells_of_end`); names and keyword lists are read by the first keyword that the text
spells (`find?_keywordAt`).
-/

namespace Retl

namespace Text

theorem expandTabs_go_of_tab_not_mem : ∀ (cs : List Char) (col : Nat), '\t' ∉ cs →
    expandTabs.go cs col = cs
  | [], _, _ => rfl
  | c :: cs, col, h => by
    have hc : c ≠ '\t' := fun e => h (e ▸ List.mem_cons_self)
    have hcs : '\t' ∉ cs := fun m => h (List.mem_cons_of_mem c m)
    rw [expandTabs.go, if_neg (by simpa using hc)]
    split <;> rw [expandTabs_go_of_tab_not_mem cs _ hcs]

end Text

namespace Source

variable {src : Source} {j : Nat}

/-- The text `s` stands in the source from offset `j` on. -/
def Spells (src : Source) (j : Nat) (s : String) : Prop :=
  s.toList <+: src.chars.toList.drop j

/-- No word character stands at offset `j`: a keyword may end right before it. -/
def Boundary (src : Source) (j : Nat) : Prop :=
  ((src.at? j).map Tree.isWordChar).getD false = false

theorem spells_append {a b : String} :
    src.Spells j (a ++ b) ↔ src.Spells j a ∧ src.Spells (j + a.length) b := by
  unfold Spells
  rw [String.toList_append, ← String.length_toList, ← List.drop_drop]
  constructor
  · rintro ⟨t, ht⟩
    refine ⟨⟨b.toList ++ t, by rw [← ht, List.append_assoc]⟩, ⟨t, ?_⟩⟩
    rw [← ht, List.append_assoc, List.drop_left]
  · rintro ⟨⟨v, hv⟩, ⟨u, hu⟩⟩
    refine ⟨u, ?_⟩
    -- the text after `a` is `v`, which starts with `b`
    rw [← hv, List.drop_left] at hu
    rw [List.append_assoc, hu, hv]

theorem Spells.at? {s : String} (h : src.Spells j s) {k : Nat} {c : Char}
    (hk : s.toList[k]? = some c) : src.at? (j + k) = some c := by
  have hlt : k < s.toList.length := (List.getElem?_eq_some_iff.1 hk).1
  have hget := List.prefix_iff_getElem?.1 h k hlt
  rw [List.getElem?_drop, Array.getElem?_toList] at hget
  rw [Source.at?, hget, (List.getElem?_eq_some_iff.1 hk).2]

theorem hasAt_iff {s : String} : src.hasAt s j = true ↔ src.Spells j s := by
  unfold hasAt Spells
  rw [List.all_eq_true, List.prefix_iff_getElem?]
  constructor
  · intro h k hk
    have hmem : (s.toList[k], k) ∈ s.toList.zipIdx :=
      List.mem_zipIdx_iff_getElem?.2 (List.getElem?_eq_getElem hk)
    have hat := h _ hmem
    simp only [beq_iff_eq] at hat
    rw [List.getElem?_drop, Array.getElem?_toList]
    exact hat
  · rintro h ⟨c, k⟩ hmem
    have hk := List.mem_zipIdx_iff_getElem?.1 hmem
    have hlt : k < s.toList.length := (List.getElem?_eq_some_iff.1 hk).1
    have hat := h k hlt
    rw [List.getElem?_drop, Array.getElem?_toList, List.getElem_eq_getElem?_get hlt] at hat
    simp only [hk, Option.get_some] at hat
    simpa [Source.at?] using hat

/-- Two texts that both stand at one offset agree as far as the shorter goes, so a text
that neither is a start of another, nor has it as a start, does not stand where the other
does. -/
theorem not_spells_of_differs {s k : String} (h : src.Spells j s)
    (hks : k.toList.isPrefixOf s.toList = false) (hsk : s.toList.isPrefixOf k.toList = false) :
    ¬ src.Spells j k := by
  intro hk
  rcases Nat.le_total k.toList.length s.toList.length with hle | hle
  · have := List.prefix_of_prefix_length_le hk h hle
    rw [← List.isPrefixOf_iff_prefix, hks] at this
    exact Bool.false_ne_true this
  · have := List.prefix_of_prefix_length_le h hk hle
    rw [← List.isPrefixOf_iff_prefix, hsk] at this
    exact Bool.false_ne_true this

/-- Neither text starts the other, so the two never stand at one offset. -/
def differ (k s : String) : Bool :=
  !k.toList.isPrefixOf s.toList && !s.toList.isPrefixOf k.toList

theorem not_spells_of_differ {s k : String} (h : src.Spells j s) (hk : differ k s = true) :
    ¬ src.Spells j k := by
  simp only [differ, Bool.and_eq_true, Bool.not_eq_true'] at hk
  exact not_spells_of_differs h hk.1 hk.2

theorem boundary_of_at? {c : Char} (h : src.at? j = some c) (hc : Tree.isWordChar c = false) :
    src.Boundary j := by
  simp [Boundary, h, hc]

/-- A text with no tab is read as it stands. -/
theorem ofText_chars {file text : String} (h : '\t' ∉ text.toList) :
    (ofText file text).chars.toList = text.toList := by
  simp [ofText, Text.expandTabs, Text.expandTabs_go_of_tab_not_mem _ _ h]

theorem ofText_spells (file : String) {text : String} (h : '\t' ∉ text.toList) :
    (ofText file text).Spells 0 text := by
  simp [Spells, ofText_chars h]

/-- Past the end of a text nothing stands, so a word may end there. -/
theorem ofText_boundary_end (file : String) {text : String} (h : '\t' ∉ text.toList) :
    (ofText file text).Boundary text.length := by
  have hsize : (ofText file text).chars.size = text.length := by
    rw [← Array.length_toList, ofText_chars h, String.length_toList]
  simp [Boundary, at?, hsize]

theorem Spells.at?_first {s : String} {c : Char} (h : src.Spells j s)
    (hs : s.toList.head? = some c) : src.at? j = some c := by
  simpa using h.at? (k := 0) (by rwa [← List.head?_eq_getElem?])

end Source

namespace Tree

open Source

variable {α β : Type} {src : Source} {i j : Nat}

/-! ### Tokens -/

/-- No blank or comment starts at a character that is neither a blank nor a slash. -/
theorem skipBlank_of_token {c : Char} (h : src.at? j = some c) (hc : c ≠ ' ' ∧ c ≠ '\t' ∧
    c ≠ '\n' ∧ c ≠ '\r' ∧ c ≠ '/') : skipBlank src j = j := by
  have hlt : j < src.chars.size := (Array.getElem?_eq_some_iff.1 h).1
  have hget : src.chars[j] = c := (Array.getElem?_eq_some_iff.1 h).2
  unfold skipBlank
  rw [skipBlankFrom]
  simp [hlt, hget, hc]

/-- A space is passed over. -/
theorem skipBlank_space (h : src.at? j = some ' ') : skipBlank src j = skipBlank src (j + 1) := by
  have hlt : j < src.chars.size := (Array.getElem?_eq_some_iff.1 h).1
  have hget : src.chars[j] = ' ' := (Array.getElem?_eq_some_iff.1 h).2
  unfold skipBlank
  rw [skipBlankFrom]
  simp [hlt, hget]

theorem tokenPosition_apply : tokenPosition src i = .read (src.positionAt (skipBlank src i)) (skipBlank src i) :=
  rfl

theorem symbol_read {s : String} (hskip : skipBlank src i = j) (h : src.Spells j s) :
    symbol s src i = .read () (j + s.length) := by
  simp only [symbol, hskip, hasAt_iff.2 h, if_true]

theorem symbol_miss {s : String} (hskip : skipBlank src i = j) (h : ¬ src.Spells j s) :
    symbol s src i = .miss := by
  have hat : src.hasAt s j = false := by
    cases hb : src.hasAt s j
    · rfl
    · exact absurd (hasAt_iff.1 hb) h
  simp only [symbol, hskip, hat, Bool.false_eq_true, if_false]

/-- A keyword stands where its text does, with no word character on either side. -/
theorem keywordAt_of_spells {k : String} (h : src.Spells j k)
    (hbefore : j = 0 ∨ src.Boundary (j - 1)) (hafter : src.Boundary (j + k.length)) :
    keywordAt src k j = true := by
  have hbefore' : (j == 0 || !((src.at? (j - 1)).map isWordChar).getD false) = true := by
    rcases hbefore with rfl | hb
    · rfl
    · simp only [Boundary] at hb
      simp [hb]
  simp only [Boundary] at hafter
  simp only [keywordAt, hasAt_iff.2 h, hbefore', hafter, Bool.not_false, Bool.and_self]

theorem keywordAt_eq_false {k : String} (h : ¬ src.Spells j k) : keywordAt src k j = false := by
  have hat : src.hasAt k j = false := by
    cases hb : src.hasAt k j
    · rfl
    · exact absurd (hasAt_iff.1 hb) h
  simp only [keywordAt, hat, Bool.false_and]

theorem keyword_read {k : String} (hskip : skipBlank src i = j) (h : keywordAt src k j = true) :
    keyword k src i = .read () (j + k.length) := by
  simp only [keyword, hskip, h, if_true]

theorem keyword_miss {k : String} (hskip : skipBlank src i = j) (h : ¬ src.Spells j k) :
    keyword k src i = .miss := by
  simp only [keyword, hskip, keywordAt_eq_false h, Bool.false_eq_true, if_false]

theorem keywordAt_false_of_differ {s k : String} (h : src.Spells j s) (hk : differ k s = true) :
    keywordAt src k j = false :=
  keywordAt_eq_false (not_spells_of_differ h hk)

theorem keyword_miss_of_differ {s k : String} (hskip : skipBlank src i = j) (h : src.Spells j s)
    (hk : differ k s = true) : keyword k src i = .miss :=
  keyword_miss hskip (not_spells_of_differ h hk)

theorem oneKeyword_read {spell : α → String} {ks : List α} {k : α} (hskip : skipBlank src i = j)
    (h : ks.find? (fun k => keywordAt src (spell k) j) = some k) :
    oneKeyword spell ks src i = .read k (j + (spell k).length) := by
  simp only [oneKeyword, hskip, h]

/-! ### Combinators -/

namespace Reader

theorem pure_apply (a : α) : (pure a : Reader α) src i = .read a i := rfl

theorem bind_read {r : Reader α} {f : α → Reader β} {a : α} (h : r src i = .read a j) :
    (r >>= f) src i = f a src j := by
  simp only [bind, h]

theorem bind_miss {r : Reader α} {f : α → Reader β} (h : r src i = .miss) :
    (r >>= f) src i = .miss := by
  simp only [bind, h]

theorem bind_stop {r : Reader α} {f : α → Reader β} {w : Stop} (h : r src i = .stop w) :
    (r >>= f) src i = .stop w := by
  simp only [bind, h]

theorem orElse_read {r s : Reader α} {a : α} (h : r src i = .read a j) :
    (r <|> s) src i = .read a j := by
  simp only [HOrElse.hOrElse, OrElse.orElse, orElse, h]

theorem orElse_miss {r s : Reader α} (h : r src i = .miss) : (r <|> s) src i = s src i := by
  simp only [HOrElse.hOrElse, OrElse.orElse, orElse, h]

theorem orElse_stop {r s : Reader α} {w : Stop} (h : r src i = .stop w) :
    (r <|> s) src i = .stop w := by
  simp only [HOrElse.hOrElse, OrElse.orElse, orElse, h]

theorem optional_read {r : Reader α} {a : α} (h : r src i = .read a j) :
    optional r src i = .read (some a) j :=
  orElse_read (bind_read h)

theorem optional_miss {r : Reader α} (h : r src i = .miss) : optional r src i = .read none i :=
  (orElse_miss (bind_miss h)).trans rfl

/-! ### Repetition -/

/-- `r` reads `as` one item after another from offset `i`, each advancing, and then
misses at offset `j`. -/
inductive ReadsAll (r : Reader α) (src : Source) : Nat → List α → Nat → Prop
  | last {i : Nat} : r src i = .miss → ReadsAll r src i [] i
  | next {i k j : Nat} {a : α} {as : List α} : r src i = .read a k → i < k →
      ReadsAll r src k as j → ReadsAll r src i (a :: as) j

theorem ReadsAll.length_le {r : Reader α} {as : List α} (h : ReadsAll r src i as j) :
    i + as.length ≤ j := by
  induction h with
  | last _ => simp
  | next _ hik _ ih =>
    simp only [List.length_cons]
    omega

/-- The rounds of a repetition read the whole run, given a round for every item. -/
theorem many_go_eq {r : Reader α} {as : List α} (h : ReadsAll r src i as j) :
    ∀ (fuel : Nat) (acc : List α), as.length ≤ fuel →
      many.go r src fuel i acc = .read (acc.reverse ++ as) j := by
  induction h with
  | last hmiss =>
    intro fuel acc _
    cases fuel with
    | zero => simp [many.go]
    | succ fuel => simp [many.go, hmiss]
  | @next i k j a as hread hik _ ih =>
    intro fuel acc hfuel
    cases fuel with
    | zero => simp at hfuel
    | succ fuel =>
      simp only [List.length_cons, Nat.add_le_add_iff_right] at hfuel
      simp only [many.go, hread, hik, if_true, ih fuel (a :: acc) hfuel, List.reverse_cons,
        List.append_assoc, List.cons_append, List.nil_append]

theorem many_eq_read {r : Reader α} {as : List α} (h : ReadsAll r src i as j)
    (hj : j ≤ src.chars.size) : many r src i = .read as j := by
  have hlen := h.length_le
  show many.go r src (src.chars.size + 1 - i) i [] = _
  rw [many_go_eq h _ [] (by omega)]
  rfl

end Reader

/-! ### Names, alternatives and the end of the text -/

open Reader

/-- A letter starts a token: no blank or comment stands before it. -/
theorem skipBlank_of_alpha {c : Char} (h : src.at? j = some c) (hc : c.isAlpha = true) :
    skipBlank src j = j := by
  refine skipBlank_of_token h ⟨?_, ?_, ?_, ?_, ?_⟩ <;> rintro rfl <;> exact absurd hc (by decide)

/-- An alternative that starts with a keyword the text differs from is passed over. -/
theorem keyword_alt_miss (k : String) {s : String} {f : Unit → Reader α} {rest : Reader α}
    (hskip : skipBlank src i = j) (h : src.Spells j s) (hk : differ k s = true) :
    ((keyword k >>= f) <|> rest) src i = rest src i :=
  orElse_miss (bind_miss (keyword_miss_of_differ hskip h hk))

/-- The first keyword of a list that stands at `j` is the one the text spells, when the text
differs from every keyword before it. -/
theorem find?_keywordAt [DecidableEq α] {spell : α → String} {ks : List α} {s : α}
    (h : src.Spells j (spell s)) (hk : keywordAt src (spell s) j = true) (hmem : s ∈ ks)
    (hdiff : (ks.takeWhile (· != s)).all (fun k => differ (spell k) (spell s)) = true) :
    ks.find? (fun k => keywordAt src (spell k) j) = some s := by
  induction ks with
  | nil => simp at hmem
  | cons k ks ih =>
    by_cases hks : k = s
    · subst hks
      simp [hk]
    · have hne : (k != s) = true := by simpa using hks
      simp only [List.takeWhile_cons, hne, if_true, List.all_cons, Bool.and_eq_true] at hdiff
      simp only [List.find?_cons, keywordAt_false_of_differ h hdiff.1]
      exact ih ((List.mem_cons.1 hmem).resolve_left (Ne.symm hks)) hdiff.2

theorem find?_keywordAt_none {spell : α → String} {ks : List α} {s : String}
    (h : src.Spells j s) (hdiff : ks.all (fun k => differ (spell k) s) = true) :
    ks.find? (fun k => keywordAt src (spell k) j) = none :=
  List.find?_eq_none.2 fun k hk => by
    simp [keywordAt_false_of_differ h (List.all_eq_true.1 hdiff k hk)]

theorem oneKeyword_miss {spell : α → String} {ks : List α} (hskip : skipBlank src i = j)
    (h : ks.find? (fun k => keywordAt src (spell k) j) = none) :
    oneKeyword spell ks src i = .miss := by
  simp only [oneKeyword, hskip, h]

/-- No identifier starts at a character that is neither a letter nor an underscore. -/
theorem identifier_miss {c : Char} (hskip : skipBlank src i = j) (h : src.at? j = some c)
    (ha : c.isAlpha = false) (hu : c ≠ '_') : identifier src i = .miss := by
  simp only [identifier, hskip, h, ha, Bool.false_eq_true, if_false, beq_iff_eq, hu]
  split <;> rfl

section End

variable {e : Nat} (hend : src.chars.size ≤ e)
include hend

theorem at?_of_end : src.at? e = none := by
  simp [Source.at?, hend]

theorem skipBlank_of_end : skipBlank src e = e := by
  unfold skipBlank
  rw [skipBlankFrom, dif_neg (Nat.not_lt.2 hend)]

theorem not_spells_of_end {s : String} (hs : s ≠ "") : ¬ src.Spells e s := by
  intro h
  obtain ⟨c, cs, hcs⟩ : ∃ c cs, s.toList = c :: cs := by
    cases hl : s.toList with
    | nil => exact absurd (String.toList_eq_nil_iff.1 hl) hs
    | cons c cs => exact ⟨c, cs, rfl⟩
  have hat := h.at?_first (c := c) (by simp [hcs])
  rw [at?_of_end hend] at hat
  exact absurd hat (by simp)

end End

theorem scanWhile_stop {p : Char → Bool} {i : Nat} {c : Char} (h : src.at? i = some c)
    (hc : p c = false) : src.scanWhile p i = i := by
  have hlt : i < src.chars.size := (Array.getElem?_eq_some_iff.1 h).1
  have hget : src.chars[i] = c := (Array.getElem?_eq_some_iff.1 h).2
  rw [Source.scanWhile, dif_pos hlt, hget, hc, if_neg Bool.false_ne_true]

theorem slice_one {i : Nat} {c : Char} (h : src.at? i = some c) :
    src.slice i (i + 1) = String.singleton c := by
  have hlt : i < src.chars.toList.length := by simpa using (Array.getElem?_eq_some_iff.1 h).1
  have hget : src.chars.toList[i] = c := by simpa using (Array.getElem?_eq_some_iff.1 h).2
  simp only [Source.slice, Array.toList_extract, List.extract, List.drop_eq_getElem_cons hlt,
    Nat.add_sub_cancel_left, List.take_succ_cons, List.take_zero, hget]
  simp

end Tree

end Retl
