import Retl.Proofs.TypeText
/-!
# An alias of a printed type

The program `alias A = T`, where `T` is the printed text of a type, read and analysed whole.
A statement list reads its types one level below its statements, so under a nesting budget
of `b` levels the type of a top-level alias is read at depth `b - 1`: every writable type of
depth below `b` comes back as the alias's type (`alias_program_reads_back`), and a list
nested `b - 1` levels deep or more stops the reading, so the program is refused as nested
too deeply (`alias_of_deep_list_is_refused`). For a list of a scalar, whose depth is one
more than its nesting, the two meet: it is read back exactly when the budget exceeds its
depth.
-/

namespace Retl

namespace Tree

open Source Reader

variable {src : Source}

/-! ### The head `alias A = ` -/

/-- The text before the type in the program `alias A = T`. -/
def aliasHead : String := "alias A = "

section Head

variable (h : src.Spells 0 aliasHead)
include h

theorem aliasHead_at {k : Nat} {c : Char} (hk : aliasHead.toList[k]? = some c) :
    src.at? k = some c := by
  simpa using h.at? hk

/-- The statement reader reads `alias A =` up to the type, after the `let` alternative
misses: the keyword, the name `A` and the equals sign. -/
theorem aliasHead_reads :
    skipBlank src 0 = 0 ∧ keyword "let" src 0 = .miss ∧ keyword "alias" src 0 = .read () 5 ∧
      identifier src 5 = .read "A" 7 ∧ equalsSign src 7 = .read () 9 := by
  have hsplit : src.Spells 0 ("alias" ++ " " ++ "A" ++ " = ") := h
  simp only [spells_append] at hsplit
  obtain ⟨⟨⟨hword, -⟩, hname⟩, -⟩ := hsplit
  have h0 : skipBlank src 0 = 0 := skipBlank_of_alpha (aliasHead_at h (k := 0) (c := 'a') rfl) rfl
  have h5 : skipBlank src 5 = 6 :=
    (skipBlank_space (aliasHead_at h (k := 5) (c := ' ') rfl)).trans
      (skipBlank_of_alpha (aliasHead_at h (k := 6) (c := 'A') rfl) rfl)
  have h7 : skipBlank src 7 = 8 :=
    (skipBlank_space (aliasHead_at h (k := 7) (c := ' ') rfl)).trans
      (skipBlank_of_token (aliasHead_at h (k := 8) (c := '=') rfl) (by decide))
  refine ⟨h0, keyword_miss_of_differ h0 hword (by decide), ?_, ?_, ?_⟩
  · -- the keyword ends at the blank after it
    have hkw := keywordAt_of_spells hword (.inl rfl)
      (boundary_of_at? (aliasHead_at h (k := 5) (c := ' ') rfl) (by decide))
    rw [keyword_read h0 hkw]
    rfl
  · -- `A` is no keyword, and the blank after it ends the name
    have hname6 : src.Spells 6 "A" := hname
    have hnone : keywords.any (fun k => keywordAt src k 6) = false :=
      List.any_eq_false.2 fun k hk => by
        simp [keywordAt_false_of_differ hname6 (List.all_eq_true.1
          (show keywords.all (differ · "A") = true by decide) k hk)]
    have hscan : src.scanWhile (fun c => c.isAlphanum || c == '_') 7 = 7 :=
      scanWhile_stop (aliasHead_at h (k := 7) (c := ' ') rfl) rfl
    have hslice : src.slice 6 7 = "A" := slice_one (aliasHead_at h (k := 6) (c := 'A') rfl)
    have halpha : 'A'.isAlpha = true := by decide
    simp only [identifier, h5, hnone, Bool.false_eq_true, if_false,
      aliasHead_at h (k := 6) (c := 'A') rfl, halpha, if_true, hscan, hslice]
  · simp only [equalsSign, h7, aliasHead_at h (k := 8) (c := '=') rfl, aliasHead_at h (k := 9) (c := ' ') rfl]
    rfl

variable {g : Nested}

theorem statement_alias_read {c : TypeExpr} {e : Nat} (hty : g.type src 9 = .read c e) :
    statement g src 0 = .read (.aliasType "A" c (src.positionAt 0)) e := by
  obtain ⟨h0, hlet, hkw, hid, heq⟩ := aliasHead_reads h
  rw [statement, bind_read tokenPosition_apply, h0, orElse_miss (bind_miss hlet)]
  refine orElse_read ?_
  rw [bind_read hkw, bind_read hid, bind_read heq, bind_read hty]
  rfl

theorem statement_alias_stop {w : Stop} (hty : g.type src 9 = .stop w) :
    statement g src 0 = .stop w := by
  obtain ⟨h0, hlet, hkw, hid, heq⟩ := aliasHead_reads h
  rw [statement, bind_read tokenPosition_apply, h0, orElse_miss (bind_miss hlet)]
  refine orElse_stop ?_
  rw [bind_read hkw, bind_read hid, bind_read heq, bind_stop hty]

theorem aliasHead_size_pos : 0 < src.chars.size :=
  (Array.getElem?_eq_some_iff.1 (aliasHead_at h (k := 0) (c := 'a') rfl)).1

/-- A program of one alias whose type is read up to the end of the text reads as that alias,
with nothing after it, the type read one level below the program's budget. -/
theorem readProgram_alias_read {d : Nat} {c : TypeExpr}
    (hty : typeExpr d src 9 = .read c src.chars.size) :
    readProgram (d + 1) src = .ok (.aliasType "A" c none (src.positionAt 0)) := by
  have hend := Nat.le_refl src.chars.size
  -- no `;` and no further statement stands at the end
  have hsemi : symbol ";" src src.chars.size = .miss :=
    symbol_miss (skipBlank_of_end hend) (not_spells_of_end hend (by decide))
  have hlast : ReadsAll (symbol ";" >>= fun _ => statement ⟨expression d, statements d,
      typeExpr d⟩) src src.chars.size [] src.chars.size := .last (bind_miss hsemi)
  have hsep : sepBy1 (statement ⟨expression d, statements d, typeExpr d⟩) (symbol ";") src 0 =
      .read [.aliasType "A" c (src.positionAt 0)] src.chars.size := by
    rw [sepBy1, bind_read (statement_alias_read (g := ⟨expression d, statements d,
      typeExpr d⟩) h hty), bind_read (many_eq_read hlast hend)]
    rfl
  have hstmts : statements (d + 1) src 0 =
      .read (.aliasType "A" c none (src.positionAt 0)) src.chars.size := by
    rw [statements, statementList, bind_read hsep, bind_read (optional_miss hsemi)]
    rfl
  have h0 := (aliasHead_reads h).1
  simp only [readProgram, h0, Nat.not_le.2 (aliasHead_size_pos h), if_false, hstmts,
    skipBlank_of_end hend, Nat.le_refl, if_true]

/-- A program of one alias whose type stops the reading stops as a whole. -/
theorem readProgram_alias_stop {d : Nat} {w : Stop} (hty : typeExpr d src 9 = .stop w) :
    readProgram (d + 1) src = .error (.stopped w) := by
  have hstmts : statements (d + 1) src 0 = .stop w := by
    have hsep : sepBy1 (statement ⟨expression d, statements d, typeExpr d⟩) (symbol ";")
        src 0 = .stop w := by
      rw [sepBy1, bind_stop (statement_alias_stop (g := ⟨expression d, statements d,
        typeExpr d⟩) h hty)]
    rw [statements, statementList, bind_stop hsep]
  have h0 := (aliasHead_reads h).1
  simp only [readProgram, h0, Nat.not_le.2 (aliasHead_size_pos h), if_false, hstmts]

/-- With no nesting left, a program of one alias is refused as nested too deeply. -/
theorem readProgram_alias_zero : readProgram 0 src = .error (.stopped .tooDeep) := by
  have h0 := (aliasHead_reads h).1
  simp only [readProgram, h0, Nat.not_le.2 (aliasHead_size_pos h), if_false]
  rfl

end Head

/-! ### The program `alias A = T` -/

section Program

variable (file : String) (t : Ty)

/-- The program text of an alias of a printed type has no tab, and the type stands after the
blank that follows the equals sign, up to the end of the text. -/
theorem aliasProgram_layout :
    (Source.ofText file (aliasHead ++ t.render)).Spells 0 aliasHead ∧
      (Source.ofText file (aliasHead ++ t.render)).Spells 10 t.render ∧
      skipBlank (Source.ofText file (aliasHead ++ t.render)) 9 = 10 ∧
      (Source.ofText file (aliasHead ++ t.render)).Boundary 9 ∧
      (Source.ofText file (aliasHead ++ t.render)).chars.size = 10 + t.render.length := by
  have hnotab : '\t' ∉ (aliasHead ++ t.render).toList := by
    simp only [String.toList_append, List.mem_append, not_or]
    exact ⟨by decide, Ty.tab_not_mem_render t⟩
  have hlen : aliasHead.length = 10 := rfl
  obtain ⟨hhead, htype⟩ := spells_append.1 (ofText_spells file hnotab)
  rw [Nat.zero_add, hlen] at htype
  have hspace := aliasHead_at hhead (k := 9) (c := ' ') rfl
  refine ⟨hhead, htype, (skipBlank_space hspace).trans (skipBlank_of_render htype),
    boundary_of_at? hspace (by decide), ?_⟩
  rw [← Array.length_toList, ofText_chars hnotab, String.length_toList, String.length_append, hlen]

theorem aliasProgram_boundary_end :
    (Source.ofText file (aliasHead ++ t.render)).Boundary (10 + t.render.length) := by
  have hnotab : '\t' ∉ (aliasHead ++ t.render).toList := by
    simp only [String.toList_append, List.mem_append, not_or]
    exact ⟨by decide, Ty.tab_not_mem_render t⟩
  have hb := ofText_boundary_end file hnotab
  rwa [String.length_append, show aliasHead.length = 10 from rfl] at hb

end Program

end Tree

open Retl.Tree

/-- An alias whose type expression resolves to `t` declares `t`, reporting nothing, at any
depth: resolving a written type does not nest. -/
theorem analyzeProgram_alias {c : TypeExpr} {t : Ty} (hc : c.Resolves t) (depth : Nat)
    (aliases : Aliases) (trace : Bool) (name : String) (p : Position) :
    analyzeProgram depth aliases trace (.aliasType name c none p) =
      ⟨some (.aliasType name t none p, aliases.declare name t), #[], ""⟩ := by
  have hrun : (analyzeRest ⟨aliases, trace⟩ depth
      (some (.aliasType name c none p))).exec ⟨#[], ""⟩ =
      (.ok (some (.aliasType name t none p), aliases.declare name t), ⟨#[], ""⟩) := by
    simp only [analyzeRest]
    rw [Analysis.exec_bind, hc aliases ⟨#[], ""⟩]
    rfl
  -- the program's analysis runs the same chain on the empty log
  have hrun' : ExceptT.run (analyzeRest ⟨aliases, trace⟩ depth
      (some (.aliasType name c none p))) ⟨#[], ""⟩ =
      (.ok (some (.aliasType name t none p), aliases.declare name t), ⟨#[], ""⟩) := hrun
  simp only [analyzeProgram, hrun']

/-- The program `alias A = T` that writes a type of depth below the nesting budget reads, and
analyses at any depth, to the alias of that type, reporting nothing. -/
theorem alias_program_reads_back (file : String) (trace : Bool) {t : Ty} (hw : t.writable = true)
    {nesting : Nat} (hd : t.depth < nesting) (depth : Nat) :
    ∃ n, parse nesting file ("alias A = " ++ t.render) = .ok n ∧
      ∃ p, analyzeProgram depth [] trace n = ⟨some (.aliasType "A" t none p, [("A", t)]), #[], ""⟩ := by
  -- the statement list leaves its type one level of the budget
  obtain ⟨d, rfl⟩ : ∃ d, nesting = d + 1 := ⟨nesting - 1, by omega⟩
  obtain ⟨hhead, htype, h9, hbefore, hsize⟩ := aliasProgram_layout file t
  obtain ⟨c, hc, hres⟩ := readsTypes d t hw (by omega) _ 9 10 h9 htype (.inr hbefore)
    (aliasProgram_boundary_end file t)
  rw [← hsize] at hc
  exact ⟨_, readProgram_alias_read hhead hc, _, analyzeProgram_alias hres depth [] trace "A" _⟩

/-- The program `alias A = T` whose type is a list nested `k` levels deep, with a nesting
budget of at most `k + 1` levels, is refused as nested too deeply, whatever the type at the
bottom. -/
theorem alias_of_deep_list_is_refused (file : String) (t : Ty) {nesting k : Nat}
    (hk : nesting ≤ k + 1) :
    parse nesting file ("alias A = " ++ (Ty.nested k t).render) = .error (.stopped .tooDeep) := by
  obtain ⟨hhead, htype, h9, hbefore, -⟩ := aliasProgram_layout file (Ty.nested k t)
  cases nesting with
  | zero => exact readProgram_alias_zero hhead
  | succ d =>
    exact readProgram_alias_stop hhead
      (typeExpr_nested_stops t d k (by omega) _ 9 10 h9 htype (.inr hbefore))

/-- A list of `int` nested 3000 levels deep, written as the type of an alias, is refused as
nested too deeply under a budget of a thousand levels instead of being declared. -/
theorem alias_of_3000_nested_int_lists_is_refused :
    parse 1000 "main.retl" ("alias A = " ++ (Ty.nested 3000 .int).render) =
        .error (.stopped .tooDeep) ∧
      (ReadError.stopped .tooDeep).diagnostic =
        { severity := .internal, message := "Program nested too deeply to parse" } :=
  ⟨alias_of_deep_list_is_refused "main.retl" .int (by decide), rfl⟩

/-- Printed types read back through the type grammar. At any depth that covers it, the type
reader takes the printed text of a writable type (no `unknown`, no tuple or union without
members) to a type expression that resolves to the type under every alias map, reporting
nothing; so the printed text tells writable types apart. Under any nesting budget, the program
`alias A = T` declares `A` as the type when the type's depth is below the budget, the levels a
top-level statement leaves its type, whatever depth analysis is given; a list nested so deep
that the budget is at most one more than its nesting is refused as nested too deeply. -/
theorem printed_types_read_back :
    (∀ (t : Ty) (file : String) (d : Nat), t.writable = true → t.depth ≤ d →
      ∃ c, typeExpr d (Source.ofText file t.render) 0 = .read c t.render.length ∧
        ∀ (as : Aliases) (L : AnalysisLog), (resolveType as c).exec L = (.ok t, L)) ∧
    (∀ t₁ t₂ : Ty, t₁.writable = true → t₂.writable = true → t₁.render = t₂.render → t₁ = t₂) ∧
    (∀ (t : Ty) (file : String) (trace : Bool) (nesting depth : Nat), t.writable = true →
      t.depth < nesting →
      ∃ n, parse nesting file ("alias A = " ++ t.render) = .ok n ∧
        ∃ p, analyzeProgram depth [] trace n =
          ⟨some (.aliasType "A" t none p, [("A", t)]), #[], ""⟩) ∧
    (∀ (t : Ty) (file : String) (nesting k : Nat), nesting ≤ k + 1 →
      parse nesting file ("alias A = " ++ (Ty.nested k t).render) = .error (.stopped .tooDeep)) :=
  ⟨fun _ file _ hw hd => typeExpr_reads_render file hw hd,
    fun _ _ hw₁ hw₂ h => render_injective hw₁ hw₂ h,
    fun _ file trace _ depth hw hd => alias_program_reads_back file trace hw hd depth,
    fun t file _ _ hk => alias_of_deep_list_is_refused file t hk⟩

end Retl
