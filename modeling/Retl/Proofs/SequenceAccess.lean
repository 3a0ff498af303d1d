import Retl.Proofs.StepRuns
/-!
# Sequence access never wraps or clamps

A text, a list or a table applied to an integer `i` gives its item at `i`, a character,
an element or a row, exactly when `0 ≤ i < n` for its length `n`; a tuple's field `.j`
exists exactly when `j` is below its width; `slice(xs, s, e)` and `substr(t, s, e)` give
the `e - s` items from position `s` exactly when `0 ≤ s ≤ e ≤ n`. Negative positions do
not count from the end, and ranges past the end are not cut short: every other access is
an error value whose message states the position or range and the length, reported as
one evaluation diagnostic at the access and nothing else.

Each rule is an exact run: from the machine the position's evaluation leaves (or the
machine the builtin is called on), the access gives the item met to the type its context
expects, or the error with the machine holding one more diagnostic.
-/

namespace Retl

namespace Value

/-- What a value is indexed by, with the word an out-of-range message names it by: a
text by its characters, a list by its elements and a table by its rows. -/
def indexItems? : Value → Option (String × List Value)
  | .string s => some ("String", s.toList.map .char)
  | .list es _ | .table _ es _ => some ("List", es)
  | _ => none

end Value

namespace Eval

section Index

variable {k : Engine} {env : Env} {E : Ty} {a : Expr} {pos : Position} {i : Int} {m m₁ : Machine}

/-- A position from zero up to below the length is an index of the items. -/
theorem toNat_lt_length {α : Type} {items : List α} (h : 0 ≤ i ∧ i < items.length) :
    i.toNat < items.length := by
  omega

/-- The item at `i`, when `0 ≤ i`, as the index arm of `applyTo` looks it up. -/
theorem getElem?_of_nonneg {α : Type} (items : List α) :
    (if 0 ≤ i then items[i.toNat]? else none) =
      if h : 0 ≤ i ∧ i < items.length then some (items.get ⟨i.toNat, toNat_lt_length h⟩) else none := by
  by_cases h : 0 ≤ i ∧ i < items.length
  · rw [if_pos h.1, dif_pos h]
    exact List.getElem?_eq_getElem (by omega)
  · rw [dif_neg h]
    split
    next hi => exact List.getElem?_eq_none (by omega)
    next => rfl

/-- What indexing gives once the position is known: the item met to the expected type,
or an error stating the position and the length, reported once. -/
theorem exec_index_outcome {what : String} {items : List Value}
    (c : Option Value) (hc : c = if 0 ≤ i then items[i.toNat]? else none) :
    (match c with
      | some v => conformValue v E pos
      | none => fail (indexMessage what i items.length) pos).exec m₁ =
      if h : 0 ≤ i ∧ i < items.length then (conformValue (items.get ⟨i.toNat, toNat_lt_length h⟩) E pos).exec m₁
      else (.ok (.error (indexMessage what i items.length)),
        m₁.report (indexMessage what i items.length) pos) := by
  rw [getElem?_of_nonneg] at hc
  subst hc
  by_cases h : 0 ≤ i ∧ i < items.length
  · rw [dif_pos h, dif_pos h]
  · rw [dif_neg h, dif_neg h]
    exact exec_fail_report _ pos m₁

/-- A text, list or table applied to one argument that evaluates to the integer `i`: its
item at `i` when `0 ≤ i` and `i` is below its length, met to the expected type; otherwise
an error stating `i` and the length, reported as one evaluation diagnostic. -/
theorem exec_applyTo_index {callee : Value} {what : String} {items : List Value}
    (hseq : callee.indexItems? = some (what, items))
    (hi : (k.eval env .int a).exec m = (.ok (.int i), m₁)) :
    (applyTo k env E callee [a] pos).exec m =
      if h : 0 ≤ i ∧ i < items.length then (conformValue (items.get ⟨i.toNat, toNat_lt_length h⟩) E pos).exec m₁
      else (.ok (.error (indexMessage what i items.length)),
        m₁.report (indexMessage what i items.length) pos) := by
  cases callee with
  | string s =>
    simp only [Value.indexItems?, Option.some.injEq, Prod.mk.injEq] at hseq
    obtain ⟨rfl, rfl⟩ := hseq
    unfold applyTo
    rw [exec_bind, hi]
    dsimp only
    -- the characters of the text are its items, and its length is theirs
    have hlen : (s.toList.map Value.char).length = s.length := by
      rw [List.length_map, String.length_toList]
    by_cases h : 0 ≤ i ∧ i < s.length
    · have hlt : i.toNat < s.toList.length := by
        rw [String.length_toList]
        omega
      rw [if_pos h.1, List.getElem?_eq_getElem hlt, dif_pos (by rw [hlen]; exact h)]
      simp only [List.get_eq_getElem, List.getElem_map]
    · have hnone : (if 0 ≤ i then s.toList[i.toNat]? else none) = none := by
        split
        · exact List.getElem?_eq_none (by rw [String.length_toList]; omega)
        · rfl
      rw [dif_neg (by rw [hlen]; exact h), hlen, hnone]
      exact exec_fail_report _ pos m₁
  | list es t | table cs es t =>
    simp only [Value.indexItems?, Option.some.injEq, Prod.mk.injEq] at hseq
    obtain ⟨rfl, rfl⟩ := hseq
    unfold applyTo
    rw [exec_bind, hi]
    exact exec_index_outcome _ rfl
  | _ => simp [Value.indexItems?] at hseq

end Index

/-- A tuple's field `.j`, when the target evaluates to a tuple: the field met to the
expected type when `j` is below the tuple's width; otherwise an error stating `j` and the
width, reported as one evaluation diagnostic. -/
theorem exec_step_access {k : Engine} (cfg : RunConfig) {env : Env} {E : Ty} {target : Expr}
    {j : Nat} {pos : Position} {vs : List Value} {t : Ty} {m m₁ : Machine}
    (ht : (k.eval env .unknown target).exec ((m.entering cfg (.access target j pos))) =
      (.ok (.tuple vs t), m₁)) :
    (step k cfg env E (.access target j pos)).exec m =
      if h : j < vs.length then (conformValue (vs.get ⟨j, h⟩) E pos).exec m₁
      else (.ok (.error (indexMessage "Tuple" j vs.length)),
        m₁.report (indexMessage "Tuple" j vs.length) pos) := by
  unfold step
  rw [exec_trace_bind]
  dsimp only
  rw [exec_bind, ht]
  dsimp only
  by_cases h : j < vs.length
  · rw [dif_pos h, List.getElem?_eq_getElem h]
    rfl
  · rw [dif_neg h, List.getElem?_eq_none (by omega)]
    exact exec_fail_report _ pos m₁

end Eval

namespace Builtins

open Eval

/-- The items of a sequence from position `s` up to `e`: `take` then `drop`, as `slice` has it,
is the `e - s` items that start at `s`. -/
theorem drop_take_eq_take_drop {α : Type} (items : List α) (s e : Int) (hs : 0 ≤ s) :
    (items.take e.toNat).drop s.toNat = (items.drop s.toNat).take (e - s).toNat := by
  rw [List.drop_take]
  congr 1
  omega

/-- `slice(xs, s, e)` on a list or table: the `e - s` items from position `s`, typed by
`xs`'s element type, when `0 ≤ s ≤ e ≤ n`; otherwise an error stating the range and the
length, reported as one evaluation diagnostic. -/
theorem exec_slice (k : Engine) {xs : Value} {items : List Value} {t : Ty}
    (hxs : xs.asList? = some (items, t)) (s e : Int) (pos : Position) (m : Machine) :
    (run k .slice [xs, .int s, .int e] pos).exec m =
      if 0 ≤ s ∧ s ≤ e ∧ e ≤ items.length then
        (.ok (Value.listOf ((items.drop s.toNat).take (e - s).toNat) t.elementType), m)
      else (.ok (.error (badRange "slice" s e items.length)),
        m.report (badRange "slice" s e items.length) pos) := by
  unfold run
  simp only [hxs, rangeOk, Bool.and_eq_true, decide_eq_true_eq, and_assoc]
  split
  next h => rw [drop_take_eq_take_drop items s e h.1]; rfl
  next => exact exec_fail_report _ pos m

/-- `substr(str, s, e)`: the `e - s` characters from position `s` when `0 ≤ s ≤ e ≤ n`;
otherwise an error stating the range and the length, reported as one evaluation
diagnostic. -/
theorem exec_substr (k : Engine) (str : String) (s e : Int) (pos : Position) (m : Machine) :
    (run k .substr [.string str, .int s, .int e] pos).exec m =
      if 0 ≤ s ∧ s ≤ e ∧ e ≤ str.length then
        (.ok (.string (String.ofList ((str.toList.drop s.toNat).take (e - s).toNat))), m)
      else (.ok (.error (badRange "substr" s e str.length)),
        m.report (badRange "substr" s e str.length) pos) := by
  unfold run
  simp only [rangeOk, Bool.and_eq_true, decide_eq_true_eq, and_assoc]
  split
  next h => rw [drop_take_eq_take_drop _ s e h.1]; rfl
  next => exact exec_fail_report _ pos m

end Builtins

open Eval in
/-- Sequence access never wraps or clamps. A text, list or table applied to a position `i`
gives its item at `i` (a character, an element, a row) exactly when `0 ≤ i < n`; a
tuple's field `.j` exists exactly when `j` is below its width; `slice` and `substr` give
the `e - s` items from `s` exactly when `0 ≤ s ≤ e ≤ n`, a slice keeping the list's element
type. Every other access gives an error stating the position or range and the length, and
records it as the one evaluation diagnostic of the access. -/
theorem sequence_access_never_wraps :
    (∀ (k : Engine) env E (callee : Value) what items a pos (i : Int) m m₁,
      callee.indexItems? = some (what, items) →
      (k.eval env .int a).exec m = (.ok (.int i), m₁) →
      (applyTo k env E callee [a] pos).exec m =
        if h : 0 ≤ i ∧ i < items.length then
          (conformValue (items.get ⟨i.toNat, by omega⟩) E pos).exec m₁
        else (.ok (.error (indexMessage what i items.length)),
          m₁.report (indexMessage what i items.length) pos)) ∧
    (∀ (k : Engine) cfg env E target (j : Nat) pos vs t m m₁,
      (k.eval env .unknown target).exec (m.entering cfg (.access target j pos)) =
        (.ok (.tuple vs t), m₁) →
      (step k cfg env E (.access target j pos)).exec m =
        if h : j < vs.length then (conformValue (vs.get ⟨j, h⟩) E pos).exec m₁
        else (.ok (.error (indexMessage "Tuple" j vs.length)),
          m₁.report (indexMessage "Tuple" j vs.length) pos)) ∧
    (∀ (k : Engine) (xs : Value) items t (s e : Int) pos m, xs.asList? = some (items, t) →
      (Builtins.run k .slice [xs, .int s, .int e] pos).exec m =
        if 0 ≤ s ∧ s ≤ e ∧ e ≤ items.length then
          (.ok (Value.listOf ((items.drop s.toNat).take (e - s).toNat) t.elementType), m)
        else (.ok (.error (Builtins.badRange "slice" s e items.length)),
          m.report (Builtins.badRange "slice" s e items.length) pos)) ∧
    (∀ (k : Engine) (str : String) (s e : Int) pos m,
      (Builtins.run k .substr [.string str, .int s, .int e] pos).exec m =
        if 0 ≤ s ∧ s ≤ e ∧ e ≤ str.length then
          (.ok (.string (String.ofList ((str.toList.drop s.toNat).take (e - s).toNat))), m)
        else (.ok (.error (Builtins.badRange "substr" s e str.length)),
          m.report (Builtins.badRange "substr" s e str.length) pos)) :=
  ⟨fun _ _ _ _ _ _ _ _ _ _ _ hseq hi => exec_applyTo_index hseq hi,
    fun _ cfg _ _ _ _ _ _ _ _ _ ht => exec_step_access cfg ht,
    fun k _ _ _ s e pos m hxs => Builtins.exec_slice k hxs s e pos m,
    fun k str s e pos m => Builtins.exec_substr k str s e pos m⟩

end Retl
