import Retl.Proofs.TypeSafety
/-!
# The members of containers

A container literal fixes the types of its members when it is built. A list literal
takes its element type from an expected union, or else from its first element, and
evaluates every other element under it; a dictionary literal fixes its key and value
types in the same way from its first pair; a tuple literal is typed by its elements'
own types. Every member of the container so built conforms to the type fixed for it.

The container then meets the type its context expects through `conformValue`, which
retypes it and keeps its members. Conformance resolves a union against one of its
members and `any` against anything, so the new tag can be narrower than the members it
holds: a `list[union[int,string]]` holding a string conforms to `list[int]`, string and all.
-/

namespace Retl

open Eval

namespace Value

@[simp] theorem retype_type (v : Value) : v.retype v.type = v := by
  cases v <;> rfl

theorem WellTyped.conformsTo_self {v : Value} (h : v.WellTyped) :
    v.type.conformsTo v.type = true := by
  rw [Ty.conformsTo_iff, Ty.unify_self]
  exact h.type_ok

theorem Good.fits_type {v : Value} (h : v.Good) : v.Fits v.type := fun hv =>
  ⟨h hv, (h hv).conformsTo_self⟩

/-- The first item of a literal fits the type it fixes for the items. -/
theorem Fits.fixedBy {ex : Ty} {first : Value} (h : first.Fits ex) :
    first.Fits (ex.fixedBy first) := by
  unfold Ty.fixedBy
  split
  · exact h
  · exact h.good.fits_type

end Value

namespace Ty

/-- The type the items of a list or dictionary literal are fixed to, when the literal
expects items of type `t` and they evaluated to `items`: with no item, `t`, or `any` where
`t` holds an `unknown`; otherwise `t` fixed by the first item. -/
def fixedByItems (t : Ty) : List Value → Ty
  | [] => if t.hasUnknown then .any else t
  | first :: _ => t.fixedBy first

theorem dictParts_eq_unknown {E : Ty} (h : ∀ a b, E = .dict a b → False) :
    E.dictParts = (.unknown, .unknown) := by
  unfold dictParts
  split
  next a b => exact absurd rfl (h a b)
  next => rfl

end Ty

namespace Eval

/-- Conformance only retypes: it gives an error, or the value with its type resolved
against the expected one, members unchanged. -/
theorem conformValue_retype (v : Value) (E : Ty) (pos : Position) :
    Returns (conformValue v E pos) fun w => w.isError = true ∨ w = v.retype (v.type.unify E) := by
  unfold conformValue
  split
  next herr => exact Returns.pure (Or.inl herr)
  split
  next t ht =>
    have hunify : v.type.unify E = t := (Ty.conform?_eq_some.mp ht).1
    refine Returns.pure (Or.inr ?_)
    rw [hunify]
    split
    next heq => rw [heq, Value.retype_type]
    next => rfl
  next => exact Returns.bind Returns.trivial fun _ _ => Returns.pure (Or.inl rfl)

section Engine

variable {k : Engine} (hk : k.Sound)
include hk

theorem dictRest_fits {env : Env} (henv : env.WellTyped) {kt vt : Ty} (hkt : kt.Admissible)
    (hvt : vt.Admissible) {key val : Value} (hkey : key.Fits kt) (hval : val.Fits vt)
    {rest : List (Tree.LitNode × Expr)} (hrest : ∀ p ∈ rest, p.2.resolved = true) :
    Returns (do
        let others ← rest.mapM fun x => do
          let key ← k.eval env kt (.lit x.1.literal x.1.pos)
          let val ← k.eval env vt x.2
          pure (key, val)
        pure ((key, val) :: others, kt, vt)) fun r =>
      ∃ others, r = ((key, val) :: others, kt, vt) ∧ others.length = rest.length ∧
        ∀ p ∈ r.1, p.1.Fits kt ∧ p.2.Fits vt := by
  refine Returns.bind (Returns.mapM_forall (Q := fun p => p.1.Fits kt ∧ p.2.Fits vt)
    fun x hx => ?_) fun others hothers => ?_
  · refine Returns.bind (hk.eval henv (e := .lit x.1.literal x.1.pos) rfl hkt) fun key' hkey' => ?_
    refine Returns.bind (hk.eval henv (hrest x hx) hvt) fun val' hval' => ?_
    exact Returns.pure ⟨hkey', hval'⟩
  refine Returns.pure ⟨others, rfl, hothers.1, fun p hp => ?_⟩
  rcases List.mem_cons.mp hp with rfl | hp
  · exact ⟨hkey, hval⟩
  · exact hothers.2 p hp

/-- A dictionary literal's pairs, with the key and value types it fixes for them: those of
an expected union, or else those of its first pair; every pair fits them. -/
theorem dictPairs_fits {env : Env} {kt vt : Ty} (henv : env.WellTyped) (hkt : kt.Admissible)
    (hvt : vt.Admissible) {pairs : List (Tree.LitNode × Expr)} (hpairs : pairs ≠ [])
    (hp : Expr.resolvedEntries pairs = true) :
    Returns (dictPairs k env kt vt pairs) fun r =>
      ∃ ps, r = (ps, kt.fixedByItems (ps.map Prod.fst), vt.fixedByItems (ps.map Prod.snd)) ∧
        ps.length = pairs.length ∧ ∀ p ∈ ps, p.1.Fits r.2.1 ∧ p.2.Fits r.2.2 := by
  obtain ⟨⟨kn, ve⟩, rest, rfl⟩ := List.exists_cons_of_ne_nil hpairs
  have hres := Expr.resolved_of_mem_entries hp
  have hrest : ∀ p ∈ rest, p.2.resolved = true := fun p hp => hres p (List.mem_cons_of_mem _ hp)
  simp only [dictPairs]
  refine Returns.bind (hk.eval henv (e := .lit kn.literal kn.pos) rfl hkt) fun key hkey => ?_
  refine Returns.bind (hk.eval henv (hres _ List.mem_cons_self) hvt) fun val hval => ?_
  -- the rest is evaluated under the types the first pair fixed
  have hkt' : (kt.fixedBy key).Admissible := hkt.literalElement hkey.good
  have hvt' : (vt.fixedBy val).Admissible := hvt.literalElement hval.good
  refine (dictRest_fits hk henv hkt' hvt' hkey.fixedBy hval.fixedBy hrest).mono ?_
  rintro _ ⟨others, rfl, hlen, hall⟩
  exact ⟨(key, val) :: others, rfl, by simp [hlen], hall⟩

/-- A list literal gives an error, or its elements, each conforming to the element type
it fixed, under that list type conformed to the expected one. -/
theorem step_list_members (cfg : RunConfig) {env : Env} {E : Ty} {es : List Expr}
    (pos : Position) (henv : env.WellTyped) (hes : Expr.resolvedAll es = true)
    (hE : E.Admissible) :
    Returns (step k cfg env E (.list es pos)) fun v => v.isError = true ∨
      ∃ vs, v = .list vs (Ty.unify (.list (E.elementType.fixedByItems vs)) E) ∧
        vs.length = es.length ∧
        ∀ x ∈ vs, x.WellTyped ∧ x.type.conformsTo (E.elementType.fixedByItems vs) = true := by
  have hres := Expr.resolved_of_mem hes
  unfold step
  refine Returns.bind Returns.trivial fun _ _ => ?_
  dsimp only
  split
  next =>
    exact (conformValue_retype _ E pos).mono fun w hw =>
      hw.imp_right fun h => ⟨[], h, rfl, by simp⟩
  next e rest =>
    have hex := hE.expectedElement
    refine Returns.bind (hk.eval henv (hres e List.mem_cons_self) hex) fun first hfirst => ?_
    have helem := hex.literalElement hfirst.good
    refine Returns.bind (Returns.mapM_forall fun x hx =>
      hk.eval henv (hres x (List.mem_cons_of_mem e hx)) helem) fun others hothers => ?_
    split
    next bad hbad => exact Returns.pure (Or.inl (firstError_eq_some hbad))
    next hnone =>
      have hok := firstError_eq_none hnone
      refine (conformValue_retype _ E pos).mono fun w hw => hw.imp_right fun h =>
        ⟨first :: others, h, by simp [hothers.1], fun x hx => ?_⟩
      -- the first element fits the element type it fixed, the others were evaluated under it
      rcases List.mem_cons.mp hx with rfl | hx
      · exact hfirst.fixedBy (hok _ List.mem_cons_self)
      · exact hothers.2 x hx (hok x (List.mem_cons_of_mem _ hx))

/-- A dictionary literal gives an error, or its pairs, each key and value conforming to
the key and value types it fixed, under that dictionary type conformed to the expected one. -/
theorem step_dict_members (cfg : RunConfig) {env : Env} {E : Ty}
    {pairs : List (Tree.LitNode × Expr)} (pos : Position) (henv : env.WellTyped)
    (hp : Expr.resolvedEntries pairs = true) (hE : E.Admissible) :
    Returns (step k cfg env E (.dict pairs pos)) fun v => v.isError = true ∨
      ∃ ps, v = .dict ps (Ty.unify (.dict (E.dictParts.1.fixedByItems (ps.map Prod.fst))
          (E.dictParts.2.fixedByItems (ps.map Prod.snd))) E) ∧ ps.length = pairs.length ∧
        ∀ p ∈ ps, p.1.WellTyped ∧
          p.1.type.conformsTo (E.dictParts.1.fixedByItems (ps.map Prod.fst)) = true ∧
          p.2.WellTyped ∧
          p.2.type.conformsTo (E.dictParts.2.fixedByItems (ps.map Prod.snd)) = true := by
  unfold step
  refine Returns.bind Returns.trivial fun _ _ => ?_
  dsimp only
  -- the key and value types expected are those of an expected dictionary, or unknown
  split
  · split
    case' h_2 hnd => rw [Ty.dictParts_eq_unknown hnd]
    all_goals exact (conformValue_retype _ _ pos).mono fun w hw =>
      hw.imp_right fun h => ⟨[], h, rfl, by simp⟩
  next hne =>
    split
    case' h_1 a b => have hkv : a.Admissible ∧ b.Admissible := hE.dictParts
    case' h_2 hnd =>
      rw [Ty.dictParts_eq_unknown hnd]
      have hkv : Ty.unknown.Admissible ∧ Ty.unknown.Admissible := ⟨.unknown, .unknown⟩
    all_goals
      refine Returns.bind (dictPairs_fits hk henv hkv.1 hkv.2 (fun h => hne h) hp)
        fun r hr => ?_
      obtain ⟨ps, rfl, hlen, hall⟩ := hr
      dsimp only
      split
      next bad hbad => exact Returns.pure (Or.inl (firstError_eq_some hbad))
      next hnone =>
        have hok := firstError_pairs_eq_none hnone
        refine (conformValue_retype _ _ pos).mono fun w hw => hw.imp_right fun h =>
          ⟨ps, h, hlen, fun p hp => ?_⟩
        obtain ⟨hkey, hval⟩ := hall p hp
        exact ⟨(hkey (hok p hp).1).1, (hkey (hok p hp).1).2, (hval (hok p hp).2).1,
          (hval (hok p hp).2).2⟩

theorem step_tuple_members (cfg : RunConfig) {env : Env} {E : Ty} {es : List Expr}
    (pos : Position) (henv : env.WellTyped) (hes : Expr.resolvedAll es = true)
    (hE : E.Admissible) :
    Returns (step k cfg env E (.tuple es pos)) fun v => v.isError = true ∨
      ∃ vs, v = .tuple vs (Ty.unify (.tuple (vs.map Value.type)) E) ∧
        ∀ x ∈ vs, x.WellTyped := by
  have hres := Expr.resolved_of_mem hes
  unfold step
  refine Returns.bind Returns.trivial fun _ _ => ?_
  dsimp only
  refine Returns.bind (Returns.mapM_forall (Q := Value.Good) fun p hp => ?_) fun vs hvs => ?_
  · obtain ⟨e, t⟩ := p
    have hmem := List.of_mem_zip hp
    exact (hk.eval henv (hres e hmem.1) (Ty.Admissible.tupleSlot es hmem.2 hE)).mono
      fun v hv => hv.good
  split
  next bad hbad => exact Returns.pure (Or.inl (firstError_eq_some hbad))
  next hnone =>
    exact (conformValue_retype _ E pos).mono fun w hw =>
      hw.imp_right fun h => ⟨vs, h, wellTyped_of_firstError hvs.2 hnone⟩

end Engine

/-- Container literals type their members when they are built: each element of a list
literal conforms to the element type the literal fixes from the expected one (an expected
union stays, anything else gives way to the first element's type), each key and value of a
dictionary literal to the key and value types it fixes in the same way from its first pair,
and a tuple literal is typed by its elements' types; the container then takes the type its
own resolves to against the expected one, and conformance to a type never changes the
members of a value. -/
theorem containers_type_members_when_built (cfg : RunConfig) :
    (∀ n env E es pos, Env.WellTyped env → Expr.resolvedAll es = true → Ty.Admissible E →
      Returns (eval (n + 1) cfg env E (.list es pos)) fun v => v.isError = true ∨
        ∃ vs, v = .list vs (Ty.unify (.list (E.elementType.fixedByItems vs)) E) ∧
          vs.length = es.length ∧
          ∀ x ∈ vs, x.WellTyped ∧ x.type.conformsTo (E.elementType.fixedByItems vs) = true) ∧
    (∀ n env E pairs pos, Env.WellTyped env → Expr.resolvedEntries pairs = true →
      Ty.Admissible E →
      Returns (eval (n + 1) cfg env E (.dict pairs pos)) fun v => v.isError = true ∨
        ∃ ps, v = .dict ps (Ty.unify (.dict (E.dictParts.1.fixedByItems (ps.map Prod.fst))
            (E.dictParts.2.fixedByItems (ps.map Prod.snd))) E) ∧ ps.length = pairs.length ∧
          ∀ p ∈ ps, p.1.WellTyped ∧
            p.1.type.conformsTo (E.dictParts.1.fixedByItems (ps.map Prod.fst)) = true ∧
            p.2.WellTyped ∧
            p.2.type.conformsTo (E.dictParts.2.fixedByItems (ps.map Prod.snd)) = true) ∧
    (∀ n env E es pos, Env.WellTyped env → Expr.resolvedAll es = true → Ty.Admissible E →
      Returns (eval (n + 1) cfg env E (.tuple es pos)) fun v => v.isError = true ∨
        ∃ vs, v = .tuple vs (Ty.unify (.tuple (vs.map Value.type)) E) ∧
          ∀ x ∈ vs, x.WellTyped) ∧
    (∀ v E pos, Returns (conformValue v E pos) fun w =>
      w.isError = true ∨ w = v.retype (v.type.unify E)) := by
  refine ⟨fun n env E es pos henv hes hE => ?_, fun n env E pairs pos henv hp hE => ?_,
    fun n env E es pos henv hes hE => ?_, conformValue_retype⟩
  · exact step_list_members (engine_sound cfg n) cfg pos henv hes hE
  · exact step_dict_members (engine_sound cfg n) cfg pos henv hp hE
  · exact step_tuple_members (engine_sound cfg n) cfg pos henv hes hE

end Eval

/-- A list typed `list[int]` can hold a string: a function whose parameter is a list of
a union and whose result is `list[int]` returns its argument retyped. -/
theorem list_of_int_holding_string :
    ∃ es m, runSource ⟨1000, 1000, 1000⟩ "<input>"
        "(\\xs: list[union[int,string]] -> list[int] { xs })([1, \"a\"])" false
        (Machine.start [] .empty) = (some (.list es (.list .int)), m) ∧
      m.diagnostics = #[] ∧ Value.string "a" ∈ es := by
  -- the run read through the model's own accessors, which the kernel evaluates
  have hcheck : (
      let r := runSource ⟨1000, 1000, 1000⟩ "<input>"
        "(\\xs: list[union[int,string]] -> list[int] { xs })([1, \"a\"])" false
        (Machine.start [] .empty)
      r.2.diagnostics.isEmpty && r.1.any fun v =>
        v.kindName == "List" && v.type.beq (.list .int) && v.items?.any fun es =>
          es.any fun x => x.kindName == "String" && Operators.textOf? x == some "a") = true := by
    decide +kernel
  generalize runSource ⟨1000, 1000, 1000⟩ "<input>" _ false (Machine.start [] .empty) = r at hcheck ⊢
  obtain ⟨o, m⟩ := r
  simp only [Bool.and_eq_true, Array.isEmpty_iff, Option.any_eq_true] at hcheck
  obtain ⟨hdiag, v, rfl, ⟨hkind, ht⟩, hv⟩ := hcheck
  -- only a list is of kind `List`
  cases v <;> simp [Value.kindName] at hkind
  case list es t =>
    obtain rfl := Ty.eq_of_beq ht
    simp only [List.any_eq_true, Bool.and_eq_true] at hv
    obtain ⟨_, hitems, x, hx, hstr, htext⟩ := hv
    obtain rfl := Option.some.inj hitems
    refine ⟨es, m, rfl, hdiag, ?_⟩
    -- and only a string of kind `String` reads as the text `a`
    cases x
    case string s =>
      simp only [Operators.textOf?, beq_iff_eq, Option.some.injEq] at htext
      exact htext ▸ hx
    all_goals simp [Value.kindName] at hstr

end Retl
