import Retl.Proofs.EvalLogic
import Retl.Eval.Builtins
/-!
# Reporting what goes wrong

A step of evaluation that gives an error value says why: it records a diagnostic on the
machine. `Blames x B P` promises two things of `x`, from any machine: it never takes a
diagnostic back, and a result of `x` that fails `P` comes with a diagnostic that `x`
recorded itself, unless `B` holds. `B` names what was already wrong with what `x` was
handed. The rules below carry such promises through sequencing, loops and handlers, as
the rules of `Returns` carry promises about results; in a sequence, a result that fails
its promise becomes part of the blame of every step after it.

The property results are held to is cleanliness: no error value can be reached from a
clean value, through its elements, its pairs, its rows or the scope a function captured.
-/

namespace Retl

/-- No error value can be reached from the value. -/
inductive Value.Clean : Value → Prop
  | int (n : Int) : Value.Clean (.int n)
  | bool (b : Bool) : Value.Clean (.bool b)
  | char (c : Char) : Value.Clean (.char c)
  | string (s : String) : Value.Clean (.string s)
  | null : Value.Clean .null
  | schema (cs : List (String × Ty)) : Value.Clean (.schema cs)
  | list {es : List Value} {t : Ty} (hes : ∀ x ∈ es, Value.Clean x) : Value.Clean (.list es t)
  | tuple {es : List Value} {t : Ty} (hes : ∀ x ∈ es, Value.Clean x) :
      Value.Clean (.tuple es t)
  | dict {ps : List (Value × Value)} {t : Ty} (hkeys : ∀ p ∈ ps, Value.Clean p.1)
      (hvals : ∀ p ∈ ps, Value.Clean p.2) : Value.Clean (.dict ps t)
  | table {cs : List (String × Ty)} {rs : List Value} {t : Ty} (hrs : ∀ r ∈ rs, Value.Clean r) :
      Value.Clean (.table cs rs t)
  | func {id : FuncId} {ps : List (String × Ty)} {r : Ty} {body : Option Expr}
      {closure : List (List (String × Value))} {t : Ty}
      (hclosure : ∀ f ∈ closure, ∀ b ∈ f, Value.Clean b.2) :
      Value.Clean (.func id ps r body closure t)

/-- No error value can be reached from any binding of the scope. -/
def Env.Clean (env : Env) : Prop := ∀ f ∈ env, ∀ b ∈ f, b.2.Clean

namespace Value

theorem Clean.isError_eq {v : Value} (h : v.Clean) : v.isError = false := by
  cases h <;> rfl

theorem Clean.retype {v : Value} (h : v.Clean) (t : Ty) : (v.retype t).Clean := by
  cases h
  case list hes => exact .list hes
  case tuple hes => exact .tuple hes
  case dict hkeys hvals => exact .dict hkeys hvals
  case table hrs => exact .table hrs
  case func hclosure => exact .func hclosure
  all_goals constructor

theorem Clean.listOf {es : List Value} (hes : ∀ x ∈ es, x.Clean) (t : Ty) :
    (listOf es t).Clean :=
  .list hes

theorem Clean.tupleOf {es : List Value} (hes : ∀ x ∈ es, x.Clean) : (tupleOf es).Clean :=
  .tuple hes

theorem Clean.tableOf (cs : List (String × Ty)) {rs : List Value} (hrs : ∀ r ∈ rs, r.Clean) :
    (tableOf cs rs).Clean :=
  .table hrs

theorem Clean.asList? {v : Value} (h : v.Clean) {es : List Value} {t : Ty}
    (hl : v.asList? = some (es, t)) : ∀ x ∈ es, x.Clean := by
  cases h
  case list hes =>
    simp only [Value.asList?, Option.some.injEq, Prod.mk.injEq] at hl
    rw [← hl.1]
    exact hes
  case table hrs =>
    simp only [Value.asList?, Option.some.injEq, Prod.mk.injEq] at hl
    rw [← hl.1]
    exact hrs
  all_goals simp [Value.asList?] at hl

theorem Clean.items? {v : Value} (h : v.Clean) {xs : List Value} (hi : v.items? = some xs) :
    ∀ x ∈ xs, x.Clean := by
  cases h
  case list hes | tuple hes | table hes =>
    simp only [Value.items?, Option.some.injEq] at hi
    rw [← hi]
    exact hes
  case string s =>
    simp only [Value.items?, Option.some.injEq] at hi
    intro x hx
    rw [← hi] at hx
    obtain ⟨c, -, rfl⟩ := List.mem_map.mp hx
    exact .char c
  case dict hkeys hvals =>
    simp only [Value.items?, Option.some.injEq] at hi
    intro x hx
    rw [← hi] at hx
    obtain ⟨p, hp, rfl⟩ := List.mem_map.mp hx
    refine .tupleOf fun y hy => ?_
    simp only [List.mem_cons, List.not_mem_nil, or_false] at hy
    rcases hy with rfl | rfl
    · exact hkeys p hp
    · exact hvals p hp
  all_goals simp [Value.items?] at hi

theorem clean_ofBuiltin (b : Builtin) : (ofBuiltin b).Clean :=
  .func (by simp)

end Value

namespace Env

theorem Clean.lookup {env : Env} (h : env.Clean) {name : String} {v : Value}
    (hv : env.lookup name = some v) : v.Clean := by
  induction env with
  | nil => simp [Env.lookup] at hv
  | cons f fs ih =>
    unfold Env.lookup at hv
    split at hv
    next b v' hfind =>
      cases hv
      exact h f List.mem_cons_self _ (List.mem_of_find?_eq_some hfind)
    next => exact ih (fun f' hf' => h f' (List.mem_cons_of_mem f hf')) hv

theorem Clean.cons {env : Env} {f : Frame} (hf : ∀ b ∈ f, b.2.Clean) (h : env.Clean) :
    Env.Clean (f :: env) := by
  intro f' hf'
  rcases List.mem_cons.mp hf' with rfl | hf'
  · exact hf
  · exact h f' hf'

theorem Clean.bind {env : Env} (h : env.Clean) (name : String) {v : Value} (hv : v.Clean) :
    (env.bind name v).Clean := by
  refine Clean.cons (fun b hb => ?_) h
  rw [List.mem_singleton.mp hb]
  exact hv

theorem clean_root : Env.root.Clean := by
  intro f hf b hb
  rw [Env.root, List.mem_singleton] at hf
  subst hf
  obtain ⟨b', -, rfl⟩ := List.mem_map.mp hb
  exact Value.clean_ofBuiltin b'

end Env

namespace Eval

variable {α β : Type}

/-- `x` only appends diagnostics, and each result of it that fails `P` comes with a
diagnostic it appended, unless `B` holds. -/
def Blames (x : Eval α) (B : Prop) (P : α → Prop) : Prop :=
  (∀ m, m.diagnostics.toList <+: (x.exec m).2.diagnostics.toList) ∧
  ∀ m a m', x.exec m = (.ok a, m') → ¬P a → B ∨ m.diagnostics.size < m'.diagnostics.size

theorem size_le_of_prefix {ds ds' : Array Diagnostic} (h : ds.toList <+: ds'.toList) :
    ds.size ≤ ds'.size := by
  simpa using h.length_le

namespace Blames

variable {B C : Prop}

theorem grows {x : Eval α} {P : α → Prop} (hx : Blames x B P) {m m' : Machine}
    {r : Except Halt α} (hexec : x.exec m = (r, m')) :
    m.diagnostics.toList <+: m'.diagnostics.toList := by
  have h := hx.1 m
  rw [hexec] at h
  exact h

theorem pure {a : α} {P : α → Prop} (h : ¬P a → B) : Blames (Pure.pure a) B P := by
  constructor
  · intro m
    simp
  · intro m a' m' hexec hP
    obtain ⟨rfl, -⟩ := exec_pure_eq_ok hexec
    exact Or.inl (h hP)

theorem throw {h : Halt} {P : α → Prop} : Blames (MonadExcept.throw h : Eval α) B P := by
  constructor
  · intro m
    simp
  · intro m a m' hexec
    simp at hexec

theorem throw_bind {h : Halt} {f : α → Eval β} {Q : β → Prop} :
    Blames (MonadExcept.throw h >>= f) B Q := by
  constructor
  · intro m
    rw [exec_bind]
    simp
  · intro m b m' hexec
    rw [exec_bind] at hexec
    simp at hexec

/-- A step that reads the machine first: its rest is judged from the machine it read. -/
theorem get_bind {f : Machine → Eval β} {Q : β → Prop}
    (hf : ∀ m r m', (f m).exec m = (r, m') → m.diagnostics.toList <+: m'.diagnostics.toList ∧
      ∀ b, r = .ok b → ¬Q b → B ∨ m.diagnostics.size < m'.diagnostics.size) :
    Blames (get >>= f) B Q := by
  constructor
  · intro m
    rw [exec_bind, exec_get]
    exact (hf m _ _ rfl).1
  · intro m b m' hexec hQ
    rw [exec_bind, exec_get] at hexec
    exact (hf m _ _ hexec).2 b rfl hQ

theorem mono {x : Eval α} {P P' : α → Prop} (hx : Blames x B P) (hB : B → C)
    (hP : ∀ a, P a → P' a) : Blames x C P' := by
  refine ⟨hx.1, fun m a m' hexec hP' => ?_⟩
  rcases hx.2 m a m' hexec (fun h => hP' (hP a h)) with h | h
  · exact Or.inl (hB h)
  · exact Or.inr h

theorem weaken {x : Eval α} {P : α → Prop} (hx : Blames x B P) (hB : B → C) : Blames x C P :=
  hx.mono hB fun _ h => h

theorem weaken_of {x : Eval α} {P : α → Prop} {Q : Prop} (hx : Blames x (¬Q) P) (hQ : ¬C → Q) :
    Blames x C P :=
  hx.weaken fun h => by_contra fun hC => h (hQ hC)

theorem bind {x : Eval α} {f : α → Eval β} {P : α → Prop} {Q : β → Prop}
    (hx : Blames x B P) (hf : ∀ a, Blames (f a) (B ∨ ¬P a) Q) : Blames (x >>= f) B Q := by
  constructor
  · intro m
    rw [exec_bind]
    rcases hrun : x.exec m with ⟨_ | a, m₁⟩
    · exact hx.grows hrun
    · have h₁ := hx.grows hrun
      have h₂ := (hf a).1 m₁
      exact h₁.trans h₂
  · intro m b m' hexec hQ
    rw [exec_bind] at hexec
    rcases hrun : x.exec m with ⟨_ | a, m₁⟩
    · rw [hrun] at hexec
      cases hexec
    · rw [hrun] at hexec
      have h₁ := size_le_of_prefix (hx.grows hrun)
      have h₂ := size_le_of_prefix ((hf a).grows hexec)
      -- the blame of the second step is either the first step's blame, or its result
      rcases (hf a).2 m₁ b m' hexec hQ with (hB | hP) | hlt
      · exact Or.inl hB
      · rcases hx.2 m a m₁ hrun hP with hB | hlt
        · exact Or.inl hB
        · exact Or.inr (Nat.lt_of_lt_of_le hlt h₂)
      · exact Or.inr (Nat.lt_of_le_of_lt h₁ hlt)

theorem bind_grows {x : Eval α} {f : α → Eval β} {Q : β → Prop}
    (hx : Blames x B fun _ => True) (hf : ∀ a, Blames (f a) B Q) : Blames (x >>= f) B Q :=
  hx.bind fun a => (hf a).weaken Or.inl

theorem map {x : Eval α} {f : α → β} {P : α → Prop} {Q : β → Prop}
    (hx : Blames x B P) (h : ∀ a, P a → Q (f a)) : Blames (f <$> x) B Q := by
  rw [map_eq_pure_bind]
  refine hx.bind fun a => Blames.pure fun hQ => Or.inr fun hP => hQ (h a hP)

theorem pure_of {a : α} {P : α → Prop} (h : ¬B → P a) : Blames (Pure.pure a) B P :=
  Blames.pure fun hP => by
    by_contra hB
    exact hP (h hB)

theorem of_grows {x : Eval α} {P : α → Prop} (hx : Blames x C fun _ => True) (hB : B) :
    Blames x B P :=
  ⟨hx.1, fun _ _ _ _ _ => Or.inl hB⟩

theorem forget {x : Eval α} {P : α → Prop} (hx : Blames x B P) : Blames x C fun _ => True :=
  ⟨hx.1, fun _ _ _ _ h => absurd True.intro h⟩

theorem discard {x : Eval α} {P : α → Prop} (hx : Blames x B P) :
    Blames (Functor.discard x) C fun _ => True :=
  (hx.map (Q := fun _ => True) fun _ _ => True.intro).forget

theorem ite {c : Prop} [Decidable c] {x y : Eval α} {P : α → Prop}
    (hx : Blames x B P) (hy : Blames y B P) : Blames (if c then x else y) B P := by
  split
  · exact hx
  · exact hy

theorem record (severity : Severity) (message : String) (pos : Option Position)
    {P : Unit → Prop} : Blames (record severity message pos) B P := by
  constructor
  · intro m
    simp [Eval.record]
  · intro m a m' hexec _
    simp only [Eval.record, exec_modify, Prod.mk.injEq] at hexec
    obtain ⟨-, rfl⟩ := hexec
    exact Or.inr (by simp)

theorem of_keeps {x : Eval α} {P : α → Prop}
    (hkeep : ∀ m, (x.exec m).2.diagnostics = m.diagnostics) (hP : ∀ m a m', x.exec m = (.ok a, m') → P a) :
    Blames x B P := by
  constructor
  · intro m
    exact (hkeep m) ▸ List.prefix_refl _
  · intro m a m' hexec hna
    exact absurd (hP m a m' hexec) hna

/-- A loop over a list keeps an invariant of its state, each pass blamed for what its
state already broke. -/
theorem forIn {xs : List α} {b : β} {f : α → β → Eval (ForInStep β)} (I : β → Prop)
    (hf : ∀ a ∈ xs, ∀ s, Blames (f a s) (B ∨ ¬I s) fun r => I r.value) :
    Blames (ForIn.forIn xs b f) (B ∨ ¬I b) I := by
  induction xs generalizing b with
  | nil =>
    simp only [List.forIn_nil]
    exact Blames.pure fun h => Or.inr h
  | cons a xs ih =>
    rw [List.forIn_cons]
    refine (hf a List.mem_cons_self b).bind fun r => ?_
    cases r with
    | done s => exact Blames.pure fun h => Or.inr h
    | yield s =>
      have hrest := ih (b := s) fun a' ha' => hf a' (List.mem_cons_of_mem a ha')
      refine hrest.weaken (fun h => ?_)
      rcases h with h | h
      · exact Or.inl (Or.inl h)
      · exact Or.inr h

theorem forIn_start {xs : List α} {b : β} {f : α → β → Eval (ForInStep β)} (I : β → Prop)
    (hb : I b) (hf : ∀ a ∈ xs, ∀ s, Blames (f a s) (B ∨ ¬I s) fun r => I r.value) :
    Blames (ForIn.forIn xs b f) B I :=
  (Blames.forIn I hf).weaken (fun h => h.resolve_right (not_not.mpr hb))

theorem mapM_forall {xs : List α} {f : α → Eval β} {Q : β → Prop}
    (hf : ∀ a ∈ xs, Blames (f a) B Q) :
    Blames (xs.mapM f) B fun ys => ys.length = xs.length ∧ ∀ y ∈ ys, Q y := by
  induction xs with
  | nil =>
    simp only [List.mapM_nil]
    exact Blames.pure_of fun _ => ⟨rfl, by simp⟩
  | cons a xs ih =>
    rw [List.mapM_cons]
    refine (hf a List.mem_cons_self).bind fun b => ?_
    have hrest := ih fun a' ha' => hf a' (List.mem_cons_of_mem a ha')
    refine (hrest.mono (C := B ∨ ¬Q b) (fun h => Or.inl h) fun _ h => h).bind fun bs => ?_
    refine Blames.pure fun hno => ?_
    by_cases hb : Q b
    · refine Or.inr fun hbs => hno ⟨by simp [hbs.1], fun y hy => ?_⟩
      rcases List.mem_cons.mp hy with rfl | hy
      · exact hb
      · exact hbs.2 y hy
    · exact Or.inl (Or.inr hb)

theorem forM {xs : List α} {f : α → Eval PUnit} (hf : ∀ a ∈ xs, Blames (f a) B fun _ => True) :
    Blames (xs.forM f) B fun _ => True := by
  induction xs with
  | nil => exact Blames.pure_of fun _ => True.intro
  | cons a xs ih =>
    simp only [List.forM]
    exact (hf a List.mem_cons_self).bind_grows fun _ =>
      ih fun a' ha' => hf a' (List.mem_cons_of_mem a ha')

theorem tryCatch {x : Eval α} {handle : Halt → Eval α} {P : α → Prop}
    (hx : Blames x B P) (hh : ∀ h, Blames (handle h) B P) :
    Blames (MonadExcept.tryCatch x handle) B P := by
  constructor
  · intro m
    rw [exec_tryCatch]
    rcases hrun : x.exec m with ⟨_ | a, m₁⟩
    · exact (hx.grows hrun).trans ((hh _).1 m₁)
    · exact hx.grows hrun
  · intro m a m' hexec hP
    rw [exec_tryCatch] at hexec
    rcases hrun : x.exec m with ⟨_ | a₁, m₁⟩
    · rw [hrun] at hexec
      have h₁ := size_le_of_prefix (hx.grows hrun)
      rcases (hh _).2 m₁ a m' hexec hP with hB | hlt
      · exact Or.inl hB
      · exact Or.inr (Nat.lt_of_le_of_lt h₁ hlt)
    · rw [hrun] at hexec
      simp only [Prod.mk.injEq, Except.ok.injEq] at hexec
      obtain ⟨rfl, rfl⟩ := hexec
      exact hx.2 m a₁ m₁ hrun hP

end Blames

theorem Blames.record_bind {x : Eval α} {severity : Severity} {message : String}
    {pos : Option Position} {B C : Prop} {P : α → Prop} (hx : Blames x C fun _ => True) :
    Blames (Eval.record severity message pos >>= fun _ => x) B P :=
  (Blames.record (P := fun _ => False) _ _ _).bind fun _ => hx.of_grows (Or.inr id)

/-- A failure is reported: whatever its error value breaks, it recorded a diagnostic. -/
theorem fail_blames (message : String) (pos : Position) {B : Prop} {P : Value → Prop} :
    Blames (fail message pos) B P :=
  Blames.record_bind (C := True) (Blames.pure_of fun _ => True.intro)

/-- Conformance blames an error it gives on the value, or records the mismatch. -/
theorem conformValue_blames (v : Value) (E : Ty) (pos : Position) :
    Blames (conformValue v E pos) (¬v.Clean) Value.Clean := by
  unfold conformValue
  split
  · exact Blames.pure id
  split
  next t _ =>
    refine Blames.pure_of fun hv => ?_
    have hv : v.Clean := not_not.mp hv
    split
    · exact hv
    · exact hv.retype t
  next => exact Blames.record_bind (C := True) (Blames.pure_of fun _ => True.intro)

theorem emit_blames (text : String) {B : Prop} : Blames (emit text) B fun _ => True :=
  Blames.of_keeps (fun m => by simp [emit]) fun _ _ _ _ => True.intro

theorem trace_blames (cfg : RunConfig) (line : String) {B : Prop} :
    Blames (trace cfg line) B fun _ => True := by
  unfold trace
  split
  · exact emit_blames _
  · exact Blames.pure_of fun _ => True.intro

theorem readLine_blames {B : Prop} : Blames readLine B fun _ => True :=
  Blames.of_keeps (fun m => by simp [readLine]) fun _ _ _ _ => True.intro

theorem freshLambda_blames {B : Prop} : Blames freshLambda B fun _ => True :=
  Blames.of_keeps (fun m => by simp [freshLambda]) fun _ _ _ _ => True.intro


end Eval

/-- An engine that reports what goes wrong: an evaluation is blamed on an unclean scope,
a call on an unclean function or argument. -/
structure Engine.Honest (k : Engine) : Prop where
  eval (env : Env) (E : Ty) (e : Expr) : Eval.Blames (k.eval env E e) (¬env.Clean) Value.Clean
  call (f : Value) (args : List Value) (pos : Position) :
    Eval.Blames (k.call f args pos) (¬(f.Clean ∧ ∀ a ∈ args, a.Clean)) Value.Clean

end Retl
