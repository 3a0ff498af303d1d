import Retl.Proofs.Reporting
/-!
# The builtins report what goes wrong

A builtin run on its arguments gives a clean value, records a diagnostic, or can be
blamed on an argument from which an error is reachable. Most builtins build their result
from the members of their arguments, which are clean when the arguments are. The
higher-order builtins call functions through an engine that reports, and stop at the
first error a call gives, so the loops that drive them keep an invariant of their own:
what they collected is clean, and so is the result they stop with, unless a diagnostic
was recorded. `readCSV` builds its rows from scalar fields.
-/

namespace Retl

open Eval

namespace Builtins

theorem fieldValue_clean {text : String} {t : Ty} {v : Value}
    (h : fieldValue text t = .ok (some v)) : v.Clean := by
  unfold fieldValue at h
  repeat' split at h
  all_goals simp only [pure, Except.pure, throw, throwThe, MonadExceptOf.throw,
    Except.ok.injEq, reduceCtorEq] at h
  repeat' split at h
  all_goals cases h
  all_goals constructor

/-- The state of a loop that collects values and may stop early with a result: both are
clean. -/
def Gathering (s : Option Value × Array Value) : Prop :=
  (∀ r, s.1 = some r → r.Clean) ∧ ∀ x ∈ s.2.toList, x.Clean

theorem Gathering.start : Gathering (none, #[]) := ⟨by simp, by simp⟩

theorem Gathering.keep {s : Option Value × Array Value} (h : Gathering s) :
    Gathering (none, s.2) :=
  ⟨by simp, h.2⟩

theorem Gathering.push {s : Option Value × Array Value} (h : Gathering s) {x : Value}
    (hx : x.Clean) : Gathering (none, s.2.push x) := by
  refine ⟨by simp, fun y hy => ?_⟩
  simp only [Array.toList_push, List.mem_append, List.mem_singleton] at hy
  rcases hy with hy | rfl
  · exact h.2 y hy
  · exact hx

theorem Gathering.stop {s : Option Value × Array Value} (h : Gathering s) {r : Value}
    (hr : r.Clean) : Gathering (some r, s.2) := by
  refine ⟨fun r' hr' => ?_, h.2⟩
  cases hr'
  exact hr

theorem cell_blames (i : Nat) (r : Value) : Blames (cell i r) (¬r.Clean) Value.Clean := by
  unfold cell
  split
  case' h_1 vs t =>
    have hmem : ∀ x ∈ vs, (Value.tuple vs t).Clean → x.Clean := by
      intro x hx hr
      cases hr with
      | tuple hes => exact hes x hx
  case' h_2 vs t =>
    have hmem : ∀ x ∈ vs, (Value.list vs t).Clean → x.Clean := by
      intro x hx hr
      cases hr with
      | list hes => exact hes x hx
  case h_3 => exact Blames.throw
  -- a row that is a sequence gives its field, clean when the row is
  all_goals
    split
    next v hv => exact Blames.pure_of fun hr => hmem v (List.mem_of_getElem? hv) (not_not.mp hr)
    next => exact Blames.throw

theorem readCSV_blames (path : String) (columns : List (String × Ty)) (header : Bool)
    (pos : Position) {B : Prop} : Blames (readCSV path columns header pos) B Value.Clean := by
  unfold readCSV
  refine Blames.bind_grows (Blames.of_keeps (fun m => by simp) fun _ _ _ _ => True.intro)
    fun m => ?_
  dsimp only
  split
  · refine Blames.bind_grows (Blames.pure_of fun _ => True.intro) fun bytes => ?_
    split
    · refine Blames.bind_grows (Blames.pure_of fun _ => True.intro) fun text => ?_
      split
      · -- every row kept is a tuple of scalar fields
        refine (Blames.forIn_start (fun rows => ∀ r ∈ rows.toList, r.Clean) (by simp)
          fun x _ rows => ?_).bind fun rows => ?_
        · by_cases hlen : (x.fst.length != columns.length) = true
          · rw [if_pos hlen]
            refine (fail_blames (P := fun _ => True) _ _).bind fun _ => Blames.pure_of fun hB => ?_
            simp only [not_or, not_not] at hB
            exact hB.1.2
          rw [if_neg hlen]
          refine (Blames.mapM_forall (Q := fun o => ∀ v, o = some v → v.Clean)
            fun a _ => ?_).bind fun fields => ?_
          · split
            next o ho => exact Blames.pure_of fun _ v hv => fieldValue_clean (hv ▸ ho)
            next => exact Blames.throw
          split
          · refine (fail_blames (P := fun _ => True) _ _).bind fun _ => Blames.pure_of fun hB => ?_
            simp only [not_or, not_not] at hB
            exact hB.1.1.2
          · refine Blames.pure_of fun hB => ?_
            simp only [not_or, not_not] at hB
            obtain ⟨⟨-, hrows⟩, -, hfields⟩ := hB
            intro r hr
            simp only [ForInStep.value, Array.toList_push, List.mem_append,
              List.mem_singleton] at hr
            rcases hr with hr | rfl
            · exact hrows r hr
            refine .tuple fun v hv => ?_
            obtain ⟨o, ho, hov⟩ := List.mem_filterMap.mp hv
            exact hfields o ho v hov
        · refine Blames.pure_of fun hB => ?_
          simp only [not_or, not_not] at hB
          exact .tableOf columns hB.2
      · exact Blames.throw
    · exact Blames.throw_bind
  · exact Blames.throw_bind
  · exact fail_blames _ _

theorem writeCSV_blames (path : String) (t : Value) (header : Bool) (pos : Position)
    {B : Prop} : Blames (writeCSV path t header pos) B Value.Clean := by
  unfold writeCSV
  split
  · refine (Blames.forIn_start (fun s => ∀ r, s.1 = some r → r.Clean) (by simp)
      fun row _ s => ?_).bind fun s => ?_
    · dsimp only
      refine Blames.ite ((fail_blames (P := Value.Clean) _ _).bind fun v =>
        Blames.pure_of fun hB => ?_) (Blames.pure_of fun _ => by simp)
      simp only [not_or, not_not] at hB
      intro r hr
      cases hr
      exact hB.2
    · dsimp only
      split
      next r hr =>
        refine Blames.pure_of fun hB => ?_
        simp only [not_or, not_not] at hB
        exact hB.2 r hr
      next =>
        -- writing the file changes the files only
        refine Blames.get_bind fun m r m' hexec => ?_
        split at hexec
        · simp only [exec_bind, exec_set, exec_pure, Prod.mk.injEq] at hexec
          obtain ⟨rfl, rfl⟩ := hexec
          exact ⟨List.prefix_refl _, fun b hb hnc => by cases hb; exact absurd .null hnc⟩
        · simp only [exec_throw, Prod.mk.injEq] at hexec
          obtain ⟨rfl, rfl⟩ := hexec
          exact ⟨List.prefix_refl _, fun b hb => by cases hb⟩
        · exact ⟨(fail_blames (B := True) (P := Value.Clean) _ _).grows hexec,
            fun b hb hnc => (fail_blames _ _).2 m b m' (hb ▸ hexec) hnc⟩
  · exact fail_blames _ _

theorem zip_blames {args : List Value} {xs ys : Value} (hxs : xs ∈ args) (hys : ys ∈ args)
    (pos : Position) : Blames (zip xs ys pos) (¬∀ a ∈ args, a.Clean) Value.Clean := by
  unfold zip
  rcases hl : xs.asList? with _ | ⟨as, ta⟩
  · exact fail_blames _ _
  rcases hr : ys.asList? with _ | ⟨bs, tb⟩
  · exact fail_blames _ _
  dsimp only
  refine Blames.ite ((fail_blames (P := fun _ => True) _ _).bind fun _ =>
    Blames.pure_of fun _ => .listOf (by simp) _) (Blames.pure_of fun hB => ?_)
  have hargs : ∀ a ∈ args, a.Clean := not_not.mp hB
  have has := (hargs xs hxs).asList? hl
  have hbs := (hargs ys hys).asList? hr
  refine .listOf (fun p hp => ?_) _
  obtain ⟨⟨a, b⟩, hab, rfl⟩ := List.mem_map.mp hp
  refine .tupleOf fun y hy => ?_
  simp only [List.mem_cons, List.not_mem_nil, or_false] at hy
  rcases hy with rfl | rfl
  · exact has _ (List.of_mem_zip hab).1
  · exact hbs _ (List.of_mem_zip hab).2

section HigherOrder

variable {k : Engine} (hk : k.Honest)
include hk

theorem call_element_blames {args : List Value} {f xs : Value} (hf : f ∈ args)
    (hxs : xs ∈ args) {items : List Value} {t : Ty} (hl : xs.asList? = some (items, t))
    {x : Value} (hx : x ∈ items) (pos : Position) :
    Blames (k.call f [x] pos) (¬∀ a ∈ args, a.Clean) Value.Clean := by
  refine (hk.call f [x] pos).weaken (fun h hargs => h ⟨hargs f hf, fun a ha => ?_⟩)
  rw [List.mem_singleton.mp ha]
  exact (hargs xs hxs).asList? hl x hx

theorem map_blames {args : List Value} {f xs : Value} (hf : f ∈ args) (hxs : xs ∈ args)
    (pos : Position) : Blames (map k f xs pos) (¬∀ a ∈ args, a.Clean) Value.Clean := by
  unfold map
  rcases hl : xs.asList? with _ | ⟨items, t⟩
  · exact fail_blames _ _
  rcases hsig : Builtins.signature? f with _ | ⟨ps, result⟩
  · exact fail_blames _ _
  dsimp only
  refine (Blames.forIn_start Gathering Gathering.start fun x hx s => ?_).bind fun s => ?_
  · refine ((call_element_blames hk hf hxs hl hx pos).weaken Or.inl).bind fun r => ?_
    by_cases herr : r.isError = true
    · rw [if_pos herr]
      refine Blames.pure_of fun hB => ?_
      simp only [not_or, not_not] at hB
      exact hB.1.2.stop hB.2
    · rw [if_neg herr]
      refine Blames.pure_of fun hB => ?_
      simp only [not_or, not_not] at hB
      exact hB.1.2.push hB.2
  · split
    next r hr =>
      refine Blames.pure_of fun hB => ?_
      simp only [not_or, not_not] at hB
      exact hB.2.1 r hr
    next =>
      refine Blames.pure_of fun hB => ?_
      simp only [not_or, not_not] at hB
      exact .listOf hB.2.2 _

theorem filter_blames {args : List Value} {f xs : Value} (hf : f ∈ args) (hxs : xs ∈ args)
    (pos : Position) : Blames (filter k f xs pos) (¬∀ a ∈ args, a.Clean) Value.Clean := by
  unfold filter
  rcases hsig : Builtins.signature? f with _ | ⟨ps, result⟩
  · exact fail_blames _ _
  dsimp only
  split
  · exact fail_blames _ _
  rcases hl : xs.asList? with _ | ⟨items, t⟩
  · exact fail_blames _ _
  refine (Blames.forIn_start Gathering Gathering.start fun x hx s => ?_).bind fun s => ?_
  · refine ((call_element_blames hk hf hxs hl hx pos).weaken Or.inl).bind fun r => ?_
    by_cases herr : r.isError = true
    · rw [if_pos herr]
      refine Blames.pure_of fun hB => ?_
      simp only [not_or, not_not] at hB
      exact hB.1.2.stop hB.2
    rw [if_neg herr]
    split
    · -- a kept element is a member of the list argument
      refine Blames.pure_of fun hB => ?_
      simp only [not_or, not_not] at hB
      exact hB.1.2.push ((hB.1.1 xs hxs).asList? hl x hx)
    · refine Blames.pure_of fun hB => ?_
      simp only [not_or, not_not] at hB
      exact hB.1.2.keep
    · refine (fail_blames (P := Value.Clean) _ _).bind fun v => Blames.pure_of fun hB => ?_
      simp only [not_or, not_not] at hB
      exact hB.1.1.2.stop hB.2
  · split
    next r hr =>
      refine Blames.pure_of fun hB => ?_
      simp only [not_or, not_not] at hB
      exact hB.2.1 r hr
    next =>
      refine Blames.pure_of fun hB => ?_
      simp only [not_or, not_not] at hB
      exact .listOf hB.2.2 _

theorem fold_blames (name : String) (fromRight : Bool) {args : List Value} {init xs f : Value}
    (hinit : init ∈ args) (hxs : xs ∈ args) (hf : f ∈ args) (pos : Position) :
    Blames (fold k name fromRight init xs f pos) (¬∀ a ∈ args, a.Clean) Value.Clean := by
  unfold fold
  rcases hl : xs.asList? with _ | ⟨items, t⟩
  · exact fail_blames _ _
  rcases hsig : Builtins.signature? f with _ | ⟨ps, result⟩
  · exact fail_blames _ _
  dsimp only
  refine Blames.ite (fail_blames _ _) (Blames.ite (fail_blames _ _) ?_)
  -- the accumulator stays clean; a result the loop stops with is the accumulator itself
  refine ((Blames.forIn (B := ¬∀ a ∈ args, a.Clean)
    (fun s => (∀ r, s.1 = some r → r.Clean) ∧ s.2.Clean) fun x hx s => ?_).weaken
    fun h => ?_).bind fun s => ?_
  · have hitem : (∀ a ∈ args, a.Clean) → x.Clean := by
      intro hargs
      have hitems := (hargs xs hxs).asList? hl
      split at hx
      · exact hitems x (List.mem_reverse.mp hx)
      · exact hitems x hx
    refine ((hk.call f _ pos).weaken_of fun hno => ?_).bind fun acc => ?_
    · simp only [not_or, not_not] at hno
      obtain ⟨hargs, -, hacc⟩ := hno
      refine ⟨hargs f hf, fun a ha => ?_⟩
      simp only [List.mem_cons, List.not_mem_nil, or_false] at ha
      rcases ha with rfl | rfl
      · exact hacc
      · split
        · exact .string _
        · exact hitem hargs
    · by_cases herr : acc.isError = true
      · rw [if_pos herr]
        refine Blames.pure_of fun hB => ?_
        simp only [not_or, not_not] at hB
        exact ⟨fun r hr => by cases hr; exact hB.2, hB.2⟩
      · rw [if_neg herr]
        refine Blames.pure_of fun hB => ?_
        simp only [not_or, not_not] at hB
        exact ⟨by simp, hB.2⟩
  · -- the loop starts from the initial accumulator, an argument
    rcases h with h | h
    · exact h
    · intro hargs
      exact h ⟨by simp, hargs init hinit⟩
  · split
    next r hr =>
      refine Blames.pure_of fun hB => ?_
      simp only [not_or, not_not] at hB
      exact hB.2.1 r hr
    next =>
      refine Blames.pure_of fun hB => ?_
      simp only [not_or, not_not] at hB
      exact hB.2.2

/-- Every builtin reports what goes wrong: its outcome is clean, or it recorded a
diagnostic, or one of its arguments was unclean. -/
theorem run_blames (b : Builtin) (args : List Value) (pos : Position) :
    Blames (run k b args pos) (¬∀ a ∈ args, a.Clean) Value.Clean := by
  unfold run
  split
  next f xs => exact map_blames hk (by simp) (by simp) pos
  next f xs => exact filter_blames hk (by simp) (by simp) pos
  next init xs f => exact fold_blames hk _ _ (by simp) (by simp) (by simp) pos
  next init xs f => exact fold_blames hk _ _ (by simp) (by simp) (by simp) pos
  next xs ys => exact zip_blames (by simp) (by simp) pos
  next xs a e =>
    split
    next items t hl =>
      refine Blames.ite (Blames.pure_of fun hB => .listOf (fun x hx => ?_) _) (fail_blames _ _)
      have hxs : xs.Clean := (not_not.mp hB) xs (by simp)
      exact hxs.asList? hl x (List.mem_of_mem_take (List.mem_of_mem_drop hx))
    next => exact fail_blames _ _
  next => exact Blames.ite (Blames.pure_of fun _ => .string _) (fail_blames _ _)
  next x =>
    split
    all_goals first
      | exact fail_blames _ _
      | exact Blames.pure_of fun _ => .int _
  next => exact Blames.pure_of fun _ => .string _
  next a e =>
    refine Blames.pure_of fun _ => .listOf (fun x hx => ?_) _
    obtain ⟨i, -, rfl⟩ := List.mem_map.mp hx
    exact .int _
  next x =>
    split
    · exact Blames.bind_grows (emit_blames _) fun _ => Blames.pure_of fun _ => .null
    · exact fail_blames _ _
  next x =>
    split
    · exact Blames.bind_grows (emit_blames _) fun _ => Blames.pure_of fun _ => .null
    · exact fail_blames _ _
  next =>
    exact Blames.bind_grows readLine_blames fun _ => Blames.pure_of fun _ => .string _
  next => exact Blames.pure_of fun _ => .string _
  next s =>
    split
    · exact fail_blames _ _
    · exact Blames.throw
    · exact Blames.ite (Blames.pure_of fun _ => .int _) (fail_blames _ _)
  next cs rows =>
    split
    next items t hl =>
      split
      · exact fail_blames _ _
      · refine Blames.pure_of fun hB => .tableOf cs fun r hr => ?_
        have hrows : rows.Clean := (not_not.mp hB) rows (by simp)
        exact hrows.asList? hl r hr
    next => exact fail_blames _ _
  next t name =>
    split
    next cs rs ty =>
      split
      next n ct i hfind =>
        -- the cells of a column are fields of the table's rows
        refine (Blames.mapM_forall (B := ¬∀ a ∈ [Value.table cs rs ty, Value.string name], a.Clean)
          fun r hr => (cell_blames i r).weaken (fun h hargs => h ?_)).bind
          fun cells => Blames.pure_of fun hB => ?_
        · have htable : (Value.table cs rs ty).Clean := hargs _ (by simp)
          cases htable with
          | table hrs => exact hrs r hr
        · simp only [not_or, not_not] at hB
          exact .listOf hB.2.2 _
      next => exact fail_blames _ _
    next => exact fail_blames _ _
  next t =>
    split
    next cs rs ty =>
      refine Blames.pure_of fun hB => ?_
      have htable : (Value.table cs rs ty).Clean := (not_not.mp hB) _ (by simp)
      cases htable with
      | table hrs => exact .listOf hrs _
    next => exact fail_blames _ _
  next t =>
    split
    · exact Blames.pure_of fun _ => .int _
    · exact fail_blames _ _
  next path cs header => exact readCSV_blames path cs header pos
  next path t header => exact writeCSV_blames path t header pos
  next => exact Blames.throw

end HigherOrder

end Builtins

end Retl
