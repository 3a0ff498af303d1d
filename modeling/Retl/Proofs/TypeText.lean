import Retl.Proofs.TokenReading
import Retl.Proofs.AnalysisSteps
/-!
# Written types read back

A type term prints the way programs write it (`Ty.render`), and reading that text with the
type grammar and resolving it gives the term back, for every term a program can write
(`Ty.writable`: no `unknown`, and no tuple or union without members) that nests no deeper
than reading follows. Reading is bounded: the type reader at depth `d` follows `d` levels
(`Ty.depth`), and an `alias` statement gives its type the levels that the statements around
it leave.

The main statements: at depth `d` the type reader takes the text of every writable type of
depth at most `d` to a type expression that resolves to the type under every alias map,
reporting nothing (`readsTypes`, by induction on `d` with one lemma per constructor); so the
printed text tells writable types apart (`render_injective`). A list nested at least `d` levels
deep stops the reader at depth `d` (`typeExpr_nested_stops`). The module `AliasText` takes
both to the program `alias A = T`.
-/

namespace Retl

open Retl.Tree (TypeExpr)

namespace Ty

mutual

/-- Whether a program can write a type term: no `unknown`, and every tuple and union has
members. -/
def writable : Ty → Bool
  | .unknown => false
  | .list e => e.writable
  | .tuple ts | .union ts => !ts.isEmpty && writableAll ts
  | .dict k v => k.writable && v.writable
  | .func ps r => writableAll ps && r.writable
  | .int | .bool | .char | .string | .null | .schema | .any => true

/-- Whether a program can write every type term of a list. -/
def writableAll : List Ty → Bool
  | [] => true
  | t :: ts => t.writable && writableAll ts

end

mutual

/-- The levels of nesting that reading a type term's text takes. -/
def depth : Ty → Nat
  | .list e => e.depth + 1
  | .tuple ts | .union ts => depthAll ts + 1
  | .dict k v => max k.depth v.depth + 1
  | .func ps r => max (depthAll ps) r.depth + 1
  | .int | .bool | .char | .string | .null | .schema | .unknown | .any => 1

/-- The deepest of a list of type terms. -/
def depthAll : List Ty → Nat
  | [] => 0
  | t :: ts => max t.depth (depthAll ts)

end

/-- A list of lists, `k` levels deep around `t`. -/
def nested : Nat → Ty → Ty
  | 0, t => t
  | k + 1, t => .list (nested k t)

theorem depth_pos (t : Ty) : 0 < t.depth := by
  cases t <;> simp [depth]

/-- The members after the first, each after its comma. -/
def commaTail (ts : List Ty) : String := String.join (ts.map fun u => "," ++ u.render)

theorem commaTail_cons (u : Ty) (us : List Ty) :
    commaTail (u :: us) = "," ++ u.render ++ commaTail us := by
  simp [commaTail, String.append_assoc]

theorem renderList_cons (t : Ty) (ts : List Ty) : renderList (t :: ts) = t.render ++ commaTail ts := by
  induction ts generalizing t with
  | nil => simp [renderList, commaTail]
  | cons u us ih =>
    rw [renderList, ih u, commaTail_cons]
    · simp [String.append_assoc]
    · nofun

/-- Every printed type starts with a letter. -/
theorem render_starts (t : Ty) : ∃ c cs, t.render.toList = c :: cs ∧ c.isAlpha = true := by
  cases t <;> simp [render]

mutual

/-- A printed type has no tab, so reading it sees the text unchanged. -/
theorem tab_not_mem_render : ∀ t : Ty, '\t' ∉ t.render.toList
  | .int | .bool | .char | .string | .null | .schema | .unknown | .any => by decide
  | .list e => by
    simp only [render, String.toList_append, List.mem_append, not_or]
    exact ⟨⟨by decide, tab_not_mem_render e⟩, by decide⟩
  | .tuple ts => by
    simp only [render, String.toList_append, List.mem_append, not_or]
    exact ⟨⟨by decide, tab_not_mem_renderList ts⟩, by decide⟩
  | .union ts => by
    simp only [render, String.toList_append, List.mem_append, not_or]
    exact ⟨⟨by decide, tab_not_mem_renderList ts⟩, by decide⟩
  | .dict k v => by
    simp only [render, String.toList_append, List.mem_append, not_or]
    exact ⟨⟨⟨⟨by decide, tab_not_mem_render k⟩, by decide⟩, tab_not_mem_render v⟩, by decide⟩
  | .func ps r => by
    simp only [render, String.toList_append, List.mem_append, not_or]
    exact ⟨⟨⟨⟨by decide, tab_not_mem_renderList ps⟩, by decide⟩, tab_not_mem_render r⟩, by decide⟩

theorem tab_not_mem_renderList : ∀ ts : List Ty, '\t' ∉ (renderList ts).toList
  | [] => by decide
  | [t] => tab_not_mem_render t
  | t :: u :: us => by
    simp only [renderList, String.toList_append, List.mem_append, not_or]
    exact ⟨⟨tab_not_mem_render t, by decide⟩, tab_not_mem_renderList (u :: us)⟩

end

end Ty

namespace Tree

/-- A type expression resolves to `t` under every alias map, reporting nothing. -/
def TypeExpr.Resolves (c : TypeExpr) (t : Ty) : Prop :=
  ∀ (as : Aliases) (L : AnalysisLog), (resolveType as c).exec L = (.ok t, L)

namespace TypeExpr

open Analysis

variable {p : Position}

theorem resolves_atom (n : ScalarName) : (TypeExpr.atom n p).Resolves n.type := by
  intro as L
  rfl

theorem resolves_list {c : TypeExpr} {t : Ty} (h : c.Resolves t) :
    (TypeExpr.list c p).Resolves (.list t) := by
  intro as L
  simp only [resolveType]
  rw [exec_bind, h as L]
  rfl

theorem resolveTypes_of_forall₂ {cs : List TypeExpr} {ts : List Ty}
    (h : List.Forall₂ Resolves cs ts) (as : Aliases) (L : AnalysisLog) :
    (resolveTypes as cs).exec L = (.ok ts, L) := by
  induction h with
  | nil => rfl
  | cons hc _ ih =>
    simp only [resolveTypes]
    rw [exec_bind, hc as L]
    dsimp only
    rw [exec_bind, ih]
    rfl

theorem resolves_tuple {cs : List TypeExpr} {ts : List Ty} (h : List.Forall₂ Resolves cs ts) :
    (TypeExpr.tuple cs p).Resolves (.tuple ts) := by
  intro as L
  simp only [resolveType]
  rw [exec_bind, resolveTypes_of_forall₂ h as L]
  rfl

theorem resolves_union {cs : List TypeExpr} {ts : List Ty} (h : List.Forall₂ Resolves cs ts) :
    (TypeExpr.union cs p).Resolves (.union ts) := by
  intro as L
  simp only [resolveType]
  rw [exec_bind, resolveTypes_of_forall₂ h as L]
  rfl

theorem resolves_dict {k v : TypeExpr} {tk tv : Ty} (hk : k.Resolves tk) (hv : v.Resolves tv) :
    (TypeExpr.dict k v p).Resolves (.dict tk tv) := by
  intro as L
  simp only [resolveType]
  rw [exec_bind, hk as L]
  dsimp only
  rw [exec_bind, hv as L]
  rfl

theorem resolves_func {cs : List TypeExpr} {r : TypeExpr} {ts : List Ty} {tr : Ty}
    (hps : List.Forall₂ Resolves cs ts) (hr : r.Resolves tr) :
    (TypeExpr.func cs r p).Resolves (.func ts tr) := by
  intro as L
  simp only [resolveType]
  rw [exec_bind, resolveTypes_of_forall₂ hps as L]
  dsimp only
  rw [exec_bind, hr as L]
  rfl

end TypeExpr

/-! ### Reading a printed type -/

open Source Reader

variable {src : Source} {i j : Nat}

theorem skipBlank_of_render {t : Ty} (h : src.Spells j t.render) : skipBlank src j = j := by
  obtain ⟨c, cs, hcs, hc⟩ := t.render_starts
  exact skipBlank_of_alpha (h.at?_first (by simp [hcs])) hc

theorem ScalarName.mem_all (n : ScalarName) : n ∈ ScalarName.all := by
  cases n <;> decide

/-- A scalar type keyword is read by the keyword alternative, after the compound ones miss. -/
theorem typeExpr_scalar_reads {n : ScalarName} {d : Nat} (hskip : skipBlank src i = j)
    (h : src.Spells j n.keyword) (hbefore : j = 0 ∨ src.Boundary (j - 1))
    (hafter : src.Boundary (j + n.keyword.length)) :
    typeExpr (d + 1) src i = .read (.atom n (src.positionAt j)) (j + n.keyword.length) := by
  have hfacts : ∀ n ∈ ScalarName.all,
      ["list", "tuple", "dict", "union", "lambda"].all (differ · n.keyword) = true ∧
      (ScalarName.all.takeWhile (· != n)).all (fun k => differ k.keyword n.keyword) = true ∧
      n.keyword.toList.head?.map Char.isAlpha = some true := by decide
  obtain ⟨hcompound, hearlier, halpha⟩ := hfacts n n.mem_all
  simp only [List.all_cons, List.all_nil, Bool.and_true, Bool.and_eq_true] at hcompound
  obtain ⟨hl, ht, hd, hu, hla⟩ := hcompound
  have hj : skipBlank src j = j := by
    cases hcs : n.keyword.toList with
    | nil => simp [hcs] at halpha
    | cons c cs =>
      simp only [hcs, List.head?_cons, Option.map_some, Option.some.injEq] at halpha
      exact skipBlank_of_alpha (h.at?_first (by simp [hcs])) halpha
  have hfind : ScalarName.all.find? (fun k => keywordAt src k.keyword j) = some n :=
    find?_keywordAt h (keywordAt_of_spells h hbefore hafter) n.mem_all hearlier
  rw [typeExpr, bind_read tokenPosition_apply, hskip, keyword_alt_miss "list" hj h hl,
    keyword_alt_miss "tuple" hj h ht, keyword_alt_miss "dict" hj h hd,
    keyword_alt_miss "union" hj h hu, keyword_alt_miss "lambda" hj h hla]
  exact orElse_read ((bind_read (oneKeyword_read hj hfind)).trans rfl)

/-- Where the arrow of a function type stands, no type is read. -/
theorem typeExpr_miss_of_arrow {d : Nat} (hskip : skipBlank src i = j) (h : src.Spells j "->") :
    typeExpr (d + 1) src i = .miss := by
  have hat : src.at? j = some '-' := h.at?_first rfl
  have hj : skipBlank src j = j := skipBlank_of_token hat (by decide)
  have hscalar : ScalarName.all.find? (fun k => keywordAt src k.keyword j) = none :=
    find?_keywordAt_none h (by decide)
  rw [typeExpr, bind_read tokenPosition_apply, hskip, keyword_alt_miss "list" hj h (by decide),
    keyword_alt_miss "tuple" hj h (by decide), keyword_alt_miss "dict" hj h (by decide),
    keyword_alt_miss "union" hj h (by decide), keyword_alt_miss "lambda" hj h (by decide),
    orElse_miss (bind_miss (oneKeyword_miss hj hscalar))]
  exact bind_miss (identifier_miss hj hat (by decide) (by decide))

/-- A keyword right before `[` is read past, and so is the bracket. -/
theorem opening_reads {w : String} (hskip : skipBlank src i = j) (h : src.Spells j (w ++ "["))
    (hbefore : j = 0 ∨ src.Boundary (j - 1)) :
    keyword w src i = .read () (j + w.length) ∧
      symbol "[" src (j + w.length) = .read () (j + w.length + 1) ∧
      (j + w.length + 1 = 0 ∨ src.Boundary (j + w.length + 1 - 1)) := by
  obtain ⟨hw, hb⟩ := spells_append.1 h
  have hat : src.at? (j + w.length) = some '[' := hb.at?_first rfl
  exact ⟨keyword_read hskip (keywordAt_of_spells hw hbefore (boundary_of_at? hat (by decide))),
    symbol_read (skipBlank_of_token hat (by decide)) hb,
    .inr (by simpa using boundary_of_at? hat (by decide))⟩

/-- A compound type prints as a keyword and its members in brackets. -/
theorem spells_wrapped {w body : String} (h : src.Spells j (w ++ "[" ++ body ++ "]")) :
    src.Spells j (w ++ "[") ∧ src.Spells (j + w.length + 1) body ∧
      src.Spells (j + w.length + 1 + body.length) "]" := by
  rw [spells_append, spells_append] at h
  obtain ⟨⟨hopen, hbody⟩, hclose⟩ := h
  have hlen : (w ++ "[").length = w.length + 1 := by simp [String.length_append]; rfl
  rw [hlen, ← Nat.add_assoc] at hbody
  rw [String.length_append, hlen, ← Nat.add_assoc, ← Nat.add_assoc] at hclose
  exact ⟨hopen, hbody, hclose⟩

theorem wrapped_length (w body : String) :
    (w ++ "[" ++ body ++ "]").length = w.length + 1 + body.length + 1 := by
  simp only [String.length_append]
  rfl

/-- What may follow a list of members: the closing bracket, or the arrow of a function type. -/
def Closer (src : Source) (e : Nat) : Prop := src.at? e = some ']' ∨ src.at? e = some '-'

theorem Closer.boundary {e : Nat} (h : Closer src e) : src.Boundary e := by
  rcases h with h | h <;> exact boundary_of_at? h (by decide)

theorem Closer.skipBlank_eq {e : Nat} (h : Closer src e) : skipBlank src e = e := by
  rcases h with h | h <;> exact skipBlank_of_token h (by decide)

theorem Closer.not_comma {e : Nat} (h : Closer src e) : ¬ src.Spells e "," := by
  intro hc
  have hat := hc.at?_first rfl
  rcases h with h | h <;> rw [h] at hat <;> exact absurd hat (by decide)

theorem closing_reads {e : Nat} (h : src.Spells e "]") :
    Closer src e ∧ symbol "]" src e = .read () (e + 1) := by
  have hat : src.at? e = some ']' := h.at?_first rfl
  exact ⟨.inl hat, symbol_read (skipBlank_of_token hat (by decide)) h⟩

theorem Closer.lt_size {e : Nat} (h : Closer src e) : e < src.chars.size := by
  rcases h with h | h <;> exact (Array.getElem?_eq_some_iff.1 h).1

/-- A word may end where the members after it start, or where they close. -/
theorem boundary_of_commaTail {us : List Ty} {e : Nat} (h : src.Spells e (Ty.commaTail us))
    (hclose : Closer src (e + (Ty.commaTail us).length)) : src.Boundary e := by
  cases us with
  | nil => simpa [Ty.commaTail] using hclose.boundary
  | cons u us =>
    rw [Ty.commaTail_cons] at h
    exact boundary_of_at? (h.at?_first (c := ',') (by simp)) (by decide)

/-- Reading at depth `d` takes the text of every writable type of depth at most `d` back to a
type expression that resolves to it. -/
def ReadsTypes (d : Nat) : Prop :=
  ∀ (t : Ty), t.writable = true → t.depth ≤ d → ∀ (src : Source) (i j : Nat),
    skipBlank src i = j → src.Spells j t.render → (j = 0 ∨ src.Boundary (j - 1)) →
    src.Boundary (j + t.render.length) →
    ∃ c, typeExpr d src i = .read c (j + t.render.length) ∧ c.Resolves t

section Members

variable {d : Nat} (ih : ReadsTypes d)
include ih

/-- The members after the first are read one after another, each after its comma. -/
theorem commaTail_reads : ∀ (ts : List Ty), Ty.writableAll ts = true → Ty.depthAll ts ≤ d →
    ∀ (j : Nat), src.Spells j (Ty.commaTail ts) → Closer src (j + (Ty.commaTail ts).length) →
    ∃ cs, ReadsAll (symbol "," >>= fun _ => typeExpr d) src j cs (j + (Ty.commaTail ts).length) ∧
      List.Forall₂ TypeExpr.Resolves cs ts
  | [], _, _, j, _, hclose => by
    have hnil : (Ty.commaTail []).length = 0 := rfl
    rw [hnil, Nat.add_zero] at hclose ⊢
    exact ⟨[], .last (bind_miss (symbol_miss hclose.skipBlank_eq hclose.not_comma)), .nil⟩
  | u :: us, hw, hd, j, hspell, hclose => by
    simp only [Ty.writableAll, Bool.and_eq_true] at hw
    simp only [Ty.depthAll, Nat.max_le] at hd
    have hone : ",".length = 1 := rfl
    -- the comma at `j`, the member after it, and the members after that
    have hend : j + (Ty.commaTail (u :: us)).length =
        j + 1 + u.render.length + (Ty.commaTail us).length := by
      simp only [Ty.commaTail_cons, String.length_append, hone]
      omega
    simp only [Ty.commaTail_cons, spells_append, String.length_append, hone, ← Nat.add_assoc]
      at hspell
    obtain ⟨⟨hcomma, hu⟩, hrest⟩ := hspell
    rw [hend] at hclose ⊢
    have hcomma_at : src.at? j = some ',' := hcomma.at?_first rfl
    obtain ⟨c, hc, hres⟩ := ih u hw.1 hd.1 src (j + 1) (j + 1) (skipBlank_of_render hu) hu
      (.inr (by simpa using boundary_of_at? hcomma_at (by decide)))
      (boundary_of_commaTail hrest hclose)
    obtain ⟨cs, hcs, hress⟩ := commaTail_reads us hw.2 hd.2 _ hrest hclose
    refine ⟨c :: cs, .next ?_ (by omega) hcs, .cons hres hress⟩
    rw [bind_read (symbol_read (skipBlank_of_token hcomma_at (by decide)) hcomma)]
    exact hc

/-- A comma-separated list of member types is read up to where it closes. -/
theorem sepBy1_reads {ts : List Ty} (hne : ts ≠ []) (hw : Ty.writableAll ts = true)
    (hd : Ty.depthAll ts ≤ d) (h : src.Spells j (Ty.renderList ts))
    (hbefore : j = 0 ∨ src.Boundary (j - 1)) (hclose : Closer src (j + (Ty.renderList ts).length)) :
    ∃ cs, sepBy1 (typeExpr d) (symbol ",") src j = .read cs (j + (Ty.renderList ts).length) ∧
      List.Forall₂ TypeExpr.Resolves cs ts := by
  obtain ⟨t, us, rfl⟩ := List.exists_cons_of_ne_nil hne
  simp only [Ty.writableAll, Bool.and_eq_true] at hw
  simp only [Ty.depthAll, Nat.max_le] at hd
  rw [Ty.renderList_cons, String.length_append, ← Nat.add_assoc] at hclose ⊢
  rw [Ty.renderList_cons, spells_append] at h
  obtain ⟨ht, hrest⟩ := h
  obtain ⟨c, hc, hres⟩ := ih t hw.1 hd.1 src j j (skipBlank_of_render ht) ht hbefore
    (boundary_of_commaTail hrest hclose)
  obtain ⟨cs, hcs, hress⟩ := commaTail_reads ih us hw.2 hd.2 _ hrest hclose
  refine ⟨c :: cs, ?_, .cons hres hress⟩
  rw [sepBy1, bind_read hc, bind_read (many_eq_read hcs (Nat.le_of_lt hclose.lt_size))]
  rfl

/-- The parameters of a function type, none or some, are read up to its arrow. -/
theorem params_reads {ps : List Ty} (hw : Ty.writableAll ps = true) (hd : Ty.depthAll ps ≤ d)
    (hd1 : 1 ≤ d) (h : src.Spells j (Ty.renderList ps ++ "->"))
    (hbefore : j = 0 ∨ src.Boundary (j - 1)) :
    ∃ pso, optional (sepBy1 (typeExpr d) (symbol ",")) src j =
      .read pso (j + (Ty.renderList ps).length) ∧ List.Forall₂ TypeExpr.Resolves (pso.getD []) ps := by
  cases ps with
  | nil =>
    -- no parameter: the first member already misses at the arrow
    obtain ⟨d, rfl⟩ : ∃ d', d = d' + 1 := ⟨d - 1, by omega⟩
    have harrow : src.Spells j "->" := by simpa [Ty.renderList] using h
    have hmiss := typeExpr_miss_of_arrow (d := d) (skipBlank_of_token (harrow.at?_first rfl)
      (by decide)) harrow
    have hsep : sepBy1 (typeExpr (d + 1)) (symbol ",") src j = .miss := bind_miss hmiss
    refine ⟨none, ?_, .nil⟩
    simpa [Ty.renderList] using optional_miss hsep
  | cons t ts =>
    obtain ⟨hL, harrow⟩ := spells_append.1 h
    obtain ⟨cs, hcs, hres⟩ := sepBy1_reads ih (List.cons_ne_nil t ts) hw hd hL hbefore
      (.inr (harrow.at?_first rfl))
    exact ⟨some cs, optional_read hcs, hres⟩

end Members

section Compound

variable {d : Nat} (ih : ReadsTypes d)
include ih

theorem typeExpr_list_reads {e : Ty} (hw : e.writable = true) (hd : e.depth ≤ d)
    (hskip : skipBlank src i = j) (h : src.Spells j (Ty.list e).render)
    (hbefore : j = 0 ∨ src.Boundary (j - 1)) :
    ∃ c, typeExpr (d + 1) src i = .read c (j + (Ty.list e).render.length) ∧
      c.Resolves (.list e) := by
  have hj := skipBlank_of_render h
  have hr : (Ty.list e).render = "list" ++ "[" ++ e.render ++ "]" := rfl
  rw [hr] at h ⊢
  obtain ⟨hopen, he, hclose⟩ := spells_wrapped h
  obtain ⟨hkw, hbr, hin⟩ := opening_reads hj hopen hbefore
  obtain ⟨hcl, hend⟩ := closing_reads hclose
  obtain ⟨c, hc, hres⟩ := ih e hw hd src _ _ (skipBlank_of_render he) he hin hcl.boundary
  refine ⟨.list c (src.positionAt j), ?_, TypeExpr.resolves_list hres⟩
  rw [typeExpr, bind_read tokenPosition_apply, hskip]
  refine orElse_read ?_
  rw [bind_read hkw, bind_read hbr, bind_read hc, bind_read hend, wrapped_length]
  simp only [pure_apply, Nat.add_assoc]

/-- Tuple and union types: a keyword and their members in brackets. -/
theorem bracketed_reads (w : String) (mk : List TypeExpr → TypeExpr) {ts : List Ty}
    (hne : ts ≠ []) (hw : Ty.writableAll ts = true) (hd : Ty.depthAll ts ≤ d)
    (hj : skipBlank src j = j) (h : src.Spells j (w ++ "[" ++ Ty.renderList ts ++ "]"))
    (hbefore : j = 0 ∨ src.Boundary (j - 1)) :
    ∃ cs, (do
        keyword w
        let ts ← (do symbol "["; let ts ← sepBy1 (typeExpr d) (symbol ","); symbol "]"; pure ts)
        pure (mk ts) : Reader TypeExpr) src j =
      .read (mk cs) (j + (w ++ "[" ++ Ty.renderList ts ++ "]").length) ∧
      List.Forall₂ TypeExpr.Resolves cs ts := by
  obtain ⟨hopen, hbody, hclose⟩ := spells_wrapped h
  obtain ⟨hkw, hbr, hin⟩ := opening_reads hj hopen hbefore
  obtain ⟨hcl, hend⟩ := closing_reads hclose
  obtain ⟨cs, hcs, hres⟩ := sepBy1_reads ih hne hw hd hbody hin hcl
  refine ⟨cs, ?_, hres⟩
  rw [bind_read hkw]
  refine (bind_read (a := cs) (j := j + w.length + 1 + (Ty.renderList ts).length + 1) ?_).trans ?_
  · rw [bind_read hbr, bind_read hcs, bind_read hend]
    rfl
  · rw [wrapped_length]
    simp only [pure_apply, Nat.add_assoc]

theorem typeExpr_dict_reads {k v : Ty} (hwk : k.writable = true) (hwv : v.writable = true)
    (hdk : k.depth ≤ d) (hdv : v.depth ≤ d) (hskip : skipBlank src i = j)
    (h : src.Spells j (Ty.dict k v).render) (hbefore : j = 0 ∨ src.Boundary (j - 1)) :
    ∃ c, typeExpr (d + 1) src i = .read c (j + (Ty.dict k v).render.length) ∧
      c.Resolves (.dict k v) := by
  have hj := skipBlank_of_render h
  have hone : ":".length = 1 := rfl
  have hsp : " ".length = 1 := rfl
  have hr : (Ty.dict k v).render = "dict" ++ "[" ++ (k.render ++ ":" ++ " " ++ v.render) ++ "]" := by
    show "dict[" ++ k.render ++ ": " ++ v.render ++ "]" = _
    rw [show ("dict[" : String) = "dict" ++ "[" from rfl, show (": " : String) = ":" ++ " " from rfl]
    simp only [String.append_assoc]
  rw [hr] at h ⊢
  obtain ⟨hopen, hbody, hclose⟩ := spells_wrapped h
  obtain ⟨hkw, hbr, hin⟩ := opening_reads hj hopen hbefore
  obtain ⟨hcl, hend⟩ := closing_reads hclose
  -- the key, the colon and the blank after it, then the value
  rw [spells_append, spells_append, spells_append] at hbody
  simp only [String.length_append, hone, hsp, ← Nat.add_assoc] at hbody hcl hend
  obtain ⟨⟨⟨hk, hcolon⟩, hspace⟩, hv⟩ := hbody
  have hcolon_at : src.at? _ = some ':' := hcolon.at?_first rfl
  have hspace_at : src.at? _ = some ' ' := hspace.at?_first rfl
  obtain ⟨ck, hck, hresk⟩ := ih k hwk hdk src _ _ (skipBlank_of_render hk) hk hin
    (boundary_of_at? hcolon_at (by decide))
  have hcolon_read := symbol_read (skipBlank_of_token hcolon_at (by decide)) hcolon
  obtain ⟨cv, hcv, hresv⟩ := ih v hwv hdv src _ _
    ((skipBlank_space hspace_at).trans (skipBlank_of_render hv)) hv
    (.inr (by simpa using boundary_of_at? hspace_at (by decide))) hcl.boundary
  refine ⟨.dict ck cv (src.positionAt j), ?_, TypeExpr.resolves_dict hresk hresv⟩
  have hword := (spells_append.1 hopen).1
  rw [typeExpr, bind_read tokenPosition_apply, hskip, keyword_alt_miss "list" hj hword (by decide),
    keyword_alt_miss "tuple" hj hword (by decide)]
  refine orElse_read ?_
  rw [bind_read hkw, bind_read hbr, bind_read hck, bind_read hcolon_read, hone, bind_read hcv,
    bind_read hend, wrapped_length]
  simp only [pure_apply, String.length_append, hone, hsp, Reading.read.injEq, true_and]
  omega

theorem typeExpr_func_reads {ps : List Ty} {r : Ty} (hwp : Ty.writableAll ps = true)
    (hwr : r.writable = true) (hdp : Ty.depthAll ps ≤ d) (hdr : r.depth ≤ d)
    (hskip : skipBlank src i = j) (h : src.Spells j (Ty.func ps r).render)
    (hbefore : j = 0 ∨ src.Boundary (j - 1)) :
    ∃ c, typeExpr (d + 1) src i = .read c (j + (Ty.func ps r).render.length) ∧
      c.Resolves (.func ps r) := by
  have hj := skipBlank_of_render h
  have htwo : "->".length = 2 := rfl
  have hr : (Ty.func ps r).render = "lambda" ++ "[" ++ (Ty.renderList ps ++ "->" ++ r.render) ++ "]" := by
    show "lambda[" ++ Ty.renderList ps ++ "->" ++ r.render ++ "]" = _
    rw [show ("lambda[" : String) = "lambda" ++ "[" from rfl]
    simp only [String.append_assoc]
  rw [hr] at h ⊢
  obtain ⟨hopen, hbody, hclose⟩ := spells_wrapped h
  obtain ⟨hkw, hbr, hin⟩ := opening_reads hj hopen hbefore
  obtain ⟨hcl, hend⟩ := closing_reads hclose
  -- the parameters up to the arrow, then the result
  obtain ⟨hparams, hresult⟩ := spells_append.1 hbody
  obtain ⟨-, harrow⟩ := spells_append.1 hparams
  simp only [String.length_append, htwo, ← Nat.add_assoc] at hresult hcl hend
  obtain ⟨pso, hpso, hresp⟩ := params_reads ih hwp hdp (Nat.lt_of_lt_of_le r.depth_pos hdr)
    hparams hin
  have harrow_at : src.at? _ = some '-' := harrow.at?_first rfl
  have harrow_read := symbol_read (skipBlank_of_token harrow_at (by decide)) harrow
  have hgt : src.at? (_ + 1) = some '>' := harrow.at? (k := 1) rfl
  obtain ⟨cr, hcr, hresr⟩ := ih r hwr hdr src _ _ (skipBlank_of_render hresult) hresult
    (.inr (by simpa using boundary_of_at? hgt (by decide))) hcl.boundary
  refine ⟨.func (pso.getD []) cr (src.positionAt j), ?_, TypeExpr.resolves_func hresp hresr⟩
  have hword := (spells_append.1 hopen).1
  rw [typeExpr, bind_read tokenPosition_apply, hskip, keyword_alt_miss "list" hj hword (by decide),
    keyword_alt_miss "tuple" hj hword (by decide), keyword_alt_miss "dict" hj hword (by decide),
    keyword_alt_miss "union" hj hword (by decide)]
  refine orElse_read ?_
  rw [bind_read hkw, bind_read hbr, bind_read hpso, bind_read harrow_read, htwo, bind_read hcr,
    bind_read hend, wrapped_length]
  simp only [pure_apply, String.length_append, htwo, Reading.read.injEq, true_and]
  omega

end Compound

/-- One more level of reading takes one more level of nesting: each constructor is read by its
own alternative, with its members read one level down. -/
theorem readsTypes_succ {d : Nat} (ih : ReadsTypes d) : ReadsTypes (d + 1) := by
  intro t hw hd src i j hskip h hbefore hafter
  have hj := skipBlank_of_render h
  -- a scalar type prints as its keyword, which reads back as an atom naming it
  have hscalar (n : ScalarName) (hn : src.Spells j n.keyword)
      (hafter : src.Boundary (j + n.keyword.length)) :
      ∃ c, typeExpr (d + 1) src i = .read c (j + n.keyword.length) ∧ c.Resolves n.type :=
    ⟨_, typeExpr_scalar_reads hskip hn hbefore hafter, TypeExpr.resolves_atom n⟩
  cases t with
  | int => exact hscalar .int h hafter
  | bool => exact hscalar .bool h hafter
  | char => exact hscalar .char h hafter
  | string => exact hscalar .string h hafter
  | null => exact hscalar .null h hafter
  | schema => exact hscalar .schema h hafter
  | any => exact hscalar .any h hafter
  | unknown => simp [Ty.writable] at hw
  | list e =>
    simp only [Ty.writable] at hw
    simp only [Ty.depth, Nat.add_le_add_iff_right] at hd
    exact typeExpr_list_reads ih hw hd hskip h hbefore
  | dict k v =>
    simp only [Ty.writable, Bool.and_eq_true] at hw
    simp only [Ty.depth, Nat.add_le_add_iff_right, Nat.max_le] at hd
    exact typeExpr_dict_reads ih hw.1 hw.2 hd.1 hd.2 hskip h hbefore
  | func ps r =>
    simp only [Ty.writable, Bool.and_eq_true] at hw
    simp only [Ty.depth, Nat.add_le_add_iff_right, Nat.max_le] at hd
    exact typeExpr_func_reads ih hw.1 hw.2 hd.1 hd.2 hskip h hbefore
  | tuple ts =>
    simp [Ty.writable] at hw
    simp only [Ty.depth, Nat.add_le_add_iff_right] at hd
    have hr : (Ty.tuple ts).render = "tuple" ++ "[" ++ Ty.renderList ts ++ "]" := rfl
    have hword : src.Spells j "tuple" := (spells_append.1 (spells_wrapped (hr ▸ h)).1).1
    obtain ⟨cs, hcs, hres⟩ := bracketed_reads ih "tuple" (fun cs => .tuple cs (src.positionAt j))
      hw.1 hw.2 hd hj (hr ▸ h) hbefore
    refine ⟨.tuple cs (src.positionAt j), ?_, TypeExpr.resolves_tuple hres⟩
    rw [typeExpr, bind_read tokenPosition_apply, hskip, keyword_alt_miss "list" hj hword (by decide),
      hr]
    exact orElse_read hcs
  | union ts =>
    simp [Ty.writable] at hw
    simp only [Ty.depth, Nat.add_le_add_iff_right] at hd
    have hr : (Ty.union ts).render = "union" ++ "[" ++ Ty.renderList ts ++ "]" := rfl
    have hword : src.Spells j "union" := (spells_append.1 (spells_wrapped (hr ▸ h)).1).1
    obtain ⟨cs, hcs, hres⟩ := bracketed_reads ih "union" (fun cs => .union cs (src.positionAt j))
      hw.1 hw.2 hd hj (hr ▸ h) hbefore
    refine ⟨.union cs (src.positionAt j), ?_, TypeExpr.resolves_union hres⟩
    rw [typeExpr, bind_read tokenPosition_apply, hskip, keyword_alt_miss "list" hj hword (by decide),
      keyword_alt_miss "tuple" hj hword (by decide), keyword_alt_miss "dict" hj hword (by decide),
      hr]
    exact orElse_read hcs

/-- A list type nested `k` levels deep stops reading at any depth `d ≤ k`: each level of
reading takes one level of the text, and the last level left has no reading depth. -/
theorem typeExpr_nested_stops (t : Ty) : ∀ (d k : Nat), d ≤ k → ∀ (src : Source) (i j : Nat),
    skipBlank src i = j → src.Spells j (Ty.nested k t).render → (j = 0 ∨ src.Boundary (j - 1)) →
    typeExpr d src i = .stop .tooDeep
  | 0, _, _, _, _, _, _, _, _ => rfl
  | _ + 1, 0, hdk, _, _, _, _, _, _ => absurd hdk (by omega)
  | d + 1, k + 1, hdk, src, i, j, hskip, h, hbefore => by
    have hj := skipBlank_of_render h
    have hr : (Ty.nested (k + 1) t).render = "list" ++ "[" ++ (Ty.nested k t).render ++ "]" := rfl
    obtain ⟨hopen, hinner, -⟩ := spells_wrapped (hr ▸ h)
    obtain ⟨hkw, hbr, hin⟩ := opening_reads hj hopen hbefore
    have hstop := typeExpr_nested_stops t d k (by omega) src _ _ (skipBlank_of_render hinner)
      hinner hin
    rw [typeExpr, bind_read tokenPosition_apply, hskip]
    refine orElse_stop ?_
    rw [bind_read hkw, bind_read hbr, bind_stop hstop]

/-- At depth `d` the type reader takes the text of every writable type of depth at most `d`
back to a type expression that resolves to it. -/
theorem readsTypes : ∀ d, ReadsTypes d
  | 0 => fun t _ hd => absurd hd (Nat.not_le.2 t.depth_pos)
  | d + 1 => readsTypes_succ (readsTypes d)

/-- The printed text of a writable type, read on its own at any depth that covers the type,
gives a type expression that resolves to the type. -/
theorem typeExpr_reads_render (file : String) {t : Ty} {d : Nat} (hw : t.writable = true)
    (hd : t.depth ≤ d) :
    ∃ c, typeExpr d (Source.ofText file t.render) 0 = .read c t.render.length ∧ c.Resolves t := by
  have hs := ofText_spells file (Ty.tab_not_mem_render t)
  have hend : (Source.ofText file t.render).Boundary (0 + t.render.length) := by
    simpa using ofText_boundary_end file (Ty.tab_not_mem_render t)
  simpa using readsTypes d t hw hd _ 0 0 (skipBlank_of_render hs) hs (.inl rfl) hend

/-- Writable types print apart: reading a printed text gives back the one type it came from. -/
theorem render_injective {t₁ t₂ : Ty} (hw₁ : t₁.writable = true) (hw₂ : t₂.writable = true)
    (h : t₁.render = t₂.render) : t₁ = t₂ := by
  -- read both texts at a depth that covers both types
  obtain ⟨c₁, hc₁, hr₁⟩ := typeExpr_reads_render "" hw₁ (Nat.le_max_left t₁.depth t₂.depth)
  obtain ⟨c₂, hc₂, hr₂⟩ := typeExpr_reads_render "" hw₂ (Nat.le_max_right t₁.depth t₂.depth)
  rw [← h, hc₁] at hc₂
  obtain rfl : c₁ = c₂ := (Reading.read.inj hc₂).1
  have hres := (hr₁ [] ⟨#[], ""⟩).symm.trans (hr₂ [] ⟨#[], ""⟩)
  simpa using hres

end Tree

end Retl
