import Retl.Proofs.WellTyped
/-!
# The builtins keep the invariant

Every builtin, run on well-typed arguments by an engine that keeps the invariant, gives
a good outcome. The higher-order builtins call functions through the engine, so their
loops carry an invariant of their own: what they have collected so far is well typed,
and a result they stop with is good. `readCSV` builds its rows from the fields it reads,
each a scalar of its column's kind, and keeps only rows with every field, so its rows are
tuples as wide as the schema, as `createTable` checks of the rows it is given.
-/

namespace Retl

open Eval

namespace Builtins

/-- A field read from a file is a scalar of its column's kind. -/
theorem fieldValue_wellTyped {text : String} {t : Ty} {v : Value}
    (h : fieldValue text t = .ok (some v)) : v.WellTyped := by
  unfold fieldValue at h
  repeat' split at h
  all_goals simp only [pure, Except.pure, throw, throwThe, MonadExceptOf.throw,
    Except.ok.injEq, reduceCtorEq] at h
  repeat' split at h
  all_goals cases h
  all_goals constructor

/-- A row without a problem for a schema is a tuple as wide as the schema. -/
theorem rowProblem_eq_none {cs : List (String × Ty)} {r : Value} (h : rowProblem cs r = none) :
    ∃ vs t, r = .tuple vs t ∧ vs.length = cs.length := by
  unfold rowProblem at h
  split at h
  next vs t =>
    refine ⟨vs, t, rfl, ?_⟩
    split at h
    · cases h
    next hlen => simpa using hlen
  next => cases h

/-- The rows a table of `columns` may hold: well-typed tuples as wide as the schema. -/
def TableRows (columns : List (String × Ty)) (rows : List Value) : Prop :=
  ∀ r ∈ rows, r.WellTyped ∧ ∃ vs t, r = .tuple vs t ∧ vs.length = columns.length

theorem TableRows.tableOf {cs : List (String × Ty)} {rows : List Value}
    (hcs : ∀ c ∈ cs, c.2.hasUnknown = false) (h : TableRows cs rows) :
    (Value.tableOf cs rows).WellTyped :=
  .tableOf hcs (fun r hr => (h r hr).2) fun r hr => (h r hr).1

/-- The state of a loop that collects values and may stop early with a result: the result
is good and the values collected so far are well typed. -/
def Collecting (s : Option Value × Array Value) : Prop :=
  (∀ r, s.1 = some r → r.Good) ∧ ∀ x ∈ s.2.toList, x.WellTyped

theorem Collecting.start : Collecting (none, #[]) := ⟨by simp, by simp⟩

theorem Collecting.keep {s : Option Value × Array Value} (h : Collecting s) :
    Collecting (none, s.2) :=
  ⟨by simp, h.2⟩

theorem Collecting.push {s : Option Value × Array Value} (h : Collecting s) {x : Value}
    (hx : x.WellTyped) : Collecting (none, s.2.push x) := by
  refine ⟨by simp, fun y hy => ?_⟩
  simp only [Array.toList_push, List.mem_append, List.mem_singleton] at hy
  rcases hy with hy | rfl
  · exact h.2 y hy
  · exact hx

theorem Collecting.stop {s : Option Value × Array Value} (h : Collecting s) {r : Value}
    (hr : r.Good) : Collecting (some r, s.2) := by
  refine ⟨fun r' hr' => ?_, h.2⟩
  cases hr'
  exact hr

/-- The field at a column's index of a well-typed row is well typed. -/
theorem cell_wellTyped (i : Nat) {r : Value} (hr : r.WellTyped) :
    Returns (cell i r) Value.WellTyped := by
  cases hr
  case tuple hes | list hes =>
    simp only [cell]
    split
    next v hv => exact Returns.pure (hes v (List.mem_of_getElem? hv))
    next => exact Returns.throw
  all_goals exact Returns.throw

theorem readCSV_good (path : String) {columns : List (String × Ty)}
    (hcs : ∀ c ∈ columns, c.2.hasUnknown = false) (header : Bool) (pos : Position) :
    Returns (readCSV path columns header pos) Value.Good := by
  unfold readCSV
  refine Returns.bind Returns.trivial fun m _ => ?_
  dsimp only
  split
  · refine Returns.bind Returns.trivial fun bytes _ => ?_
    split
    · refine Returns.bind Returns.trivial fun text _ => ?_
      split
      · refine Returns.bind (Returns.forIn (fun rows => TableRows columns rows.toList)
          (by simp [TableRows]) fun x _ rows hrows => ?_) fun rows hrows =>
          Returns.pure fun _ => hrows.tableOf hcs
        by_cases hlen : (x.fst.length != columns.length) = true
        · rw [if_pos hlen]
          exact Returns.bind Returns.trivial fun _ _ => Returns.pure hrows
        rw [if_neg hlen]
        have hlen' : x.fst.length = columns.length := by simpa using hlen
        refine Returns.bind (Returns.mapM_forall (Q := fun o => ∀ v, o = some v → v.WellTyped)
          fun a _ => ?_) fun fields hfields => ?_
        · split
          next o ho => exact Returns.pure fun v hv => fieldValue_wellTyped (hv ▸ ho)
          next => exact Returns.throw
        split
        · exact Returns.bind Returns.trivial fun _ _ => Returns.pure hrows
        next hnone =>
          have hwidth : fields.length = columns.length := by simp [hfields.1, hlen']
          have hsome : ∀ o ∈ fields, o.isSome := by
            intro o ho
            have hmem : o ∈ (fields.zip columns).map Prod.fst := by
              rw [List.map_fst_zip (by omega)]
              exact ho
            obtain ⟨p, hp, rfl⟩ := List.mem_map.mp hmem
            exact Option.isSome_iff_ne_none.mpr (by simpa using List.find?_eq_none.mp hnone p hp)
          have hrow : (fields.filterMap id).length = columns.length := by
            rw [List.filterMap_length_eq_length.mpr (by simpa using hsome), hwidth]
          refine Returns.pure fun r hr => ?_
          simp only [ForInStep.value, Array.toList_push, List.mem_append, List.mem_singleton] at hr
          rcases hr with hr | rfl
          · exact hrows r hr
          refine ⟨.tuple ?_ (Ty.anyUnknown_map_snd hcs) fun v hv => ?_, _, _, rfl, hrow⟩
          · rw [List.length_map, hrow]
          · obtain ⟨o, ho, hov⟩ := List.mem_filterMap.mp hv
            exact hfields.2 o ho v hov
      · exact Returns.throw
    · exact Returns.throw_bind
  · exact Returns.throw_bind
  · exact fail_good _ _

theorem writeCSV_good (path : String) (t : Value) (header : Bool) (pos : Position) :
    Returns (writeCSV path t header pos) Value.Good := by
  unfold writeCSV
  split
  · refine Returns.bind (Returns.forIn (fun s => ∀ r, s.1 = some r → r.Good) (by simp)
      fun row _ s _ => ?_) fun s hs => ?_
    · dsimp only
      refine Returns.ite (Returns.bind (fail_good _ _) fun v hv => Returns.pure ?_)
        (Returns.pure (by simp))
      intro r hr
      cases hr
      exact hv
    · dsimp only
      split
      next r hr => exact Returns.pure (hs r hr)
      next =>
        refine Returns.bind Returns.trivial fun m _ => ?_
        split
        · exact Returns.bind Returns.trivial fun _ _ =>
            Returns.pure (Value.good_of_wellTyped .null)
        · exact Returns.throw
        · exact fail_good _ _
  · exact fail_good _ _

theorem zip_good {xs ys : Value} (hxs : xs.WellTyped) (hys : ys.WellTyped) (pos : Position) :
    Returns (zip xs ys pos) Value.Good := by
  unfold zip
  rcases hl : xs.asList? with _ | ⟨as, ta⟩
  · exact fail_good _ _
  rcases hr : ys.asList? with _ | ⟨bs, tb⟩
  · exact fail_good _ _
  obtain ⟨has, hta⟩ := hxs.asList? hl
  obtain ⟨hbs, htb⟩ := hys.asList? hr
  have hpair : (Ty.tuple [ta.elementType, tb.elementType]).hasUnknown = false := by
    simp [hta, htb]
  dsimp only
  refine Returns.ite (Returns.bind Returns.trivial fun _ _ =>
    Returns.pure fun _ => .listOf hpair (by simp)) (Returns.pure fun _ => .listOf hpair ?_)
  intro p hp
  obtain ⟨⟨a, b⟩, hab, rfl⟩ := List.mem_map.mp hp
  refine .tupleOf fun y hy => ?_
  simp only [List.mem_cons, List.not_mem_nil, or_false] at hy
  rcases hy with rfl | rfl
  · exact has _ (List.of_mem_zip hab).1
  · exact hbs _ (List.of_mem_zip hab).2

section HigherOrder

variable {k : Engine} (hk : k.Sound)
include hk

theorem call_one_good {f x : Value} (hf : f.WellTyped) (hx : x.WellTyped) (pos : Position) :
    Returns (k.call f [x] pos) Value.Good :=
  hk.call hf fun a ha => by
    rw [List.mem_singleton.mp ha]
    exact Value.good_of_wellTyped hx

theorem map_good {f xs : Value} (hf : f.WellTyped) (hxs : xs.WellTyped) (pos : Position) :
    Returns (map k f xs pos) Value.Good := by
  unfold map
  rcases hl : xs.asList? with _ | ⟨items, t⟩
  · exact fail_good _ _
  rcases hsig : signature? f with _ | ⟨ps, result⟩
  · exact fail_good _ _
  dsimp only
  have hitems := (hxs.asList? hl).1
  refine Returns.bind (Returns.forIn Collecting Collecting.start fun x hx s hI => ?_)
    fun s hs => ?_
  swap
  · split
    next r hr => exact Returns.pure (hs.1 r hr)
    next => exact Returns.pure fun _ => .listOf (hf.signature? hsig) hs.2
  refine Returns.bind (call_one_good hk hf (hitems x hx) pos) fun r hr => ?_
  by_cases herr : r.isError = true
  · rw [if_pos herr]
    exact Returns.pure (hI.stop hr)
  · rw [if_neg herr]
    exact Returns.pure (hI.push (hr (by simpa using herr)))

theorem filter_good {f xs : Value} (hf : f.WellTyped) (hxs : xs.WellTyped) (pos : Position) :
    Returns (filter k f xs pos) Value.Good := by
  unfold filter
  rcases hs : signature? f with _ | ⟨ps, result⟩
  · exact fail_good _ _
  dsimp only
  split
  · exact fail_good _ _
  rcases hl : xs.asList? with _ | ⟨items, t⟩
  · exact fail_good _ _
  obtain ⟨hitems, ht⟩ := hxs.asList? hl
  refine Returns.bind (Returns.forIn Collecting Collecting.start fun x hx s hI => ?_)
    fun s hs => ?_
  swap
  · split
    next r hr => exact Returns.pure (hs.1 r hr)
    next => exact Returns.pure fun _ => .listOf ht hs.2
  refine Returns.bind (call_one_good hk hf (hitems x hx) pos) fun r hr => ?_
  by_cases herr : r.isError = true
  · rw [if_pos herr]
    exact Returns.pure (hI.stop hr)
  rw [if_neg herr]
  split
  · exact Returns.pure (hI.push (hitems x hx))
  · exact Returns.pure hI.keep
  · exact Returns.bind (fail_good _ _) fun v hv => Returns.pure (hI.stop hv)

theorem fold_good (name : String) (fromRight : Bool) {init xs f : Value} (hinit : init.WellTyped)
    (hxs : xs.WellTyped) (hf : f.WellTyped) (pos : Position) :
    Returns (fold k name fromRight init xs f pos) Value.Good := by
  unfold fold
  rcases hl : xs.asList? with _ | ⟨items, t⟩
  · exact fail_good _ _
  rcases hsig : signature? f with _ | ⟨ps, result⟩
  · exact fail_good _ _
  have hitems := (hxs.asList? hl).1
  dsimp only
  refine Returns.ite (fail_good _ _) (Returns.ite (fail_good _ _) ?_)
  -- the accumulator stays good; a result the loop stops with is the accumulator itself
  refine Returns.bind (Returns.forIn (fun s => (∀ r, s.1 = some r → r.Good) ∧ s.2.Good)
    ⟨by simp, Value.good_of_wellTyped hinit⟩ fun x hx s hI => ?_) fun s hs => ?_
  · have hx' : x.WellTyped := by
      split at hx
      · exact hitems x (List.mem_reverse.mp hx)
      · exact hitems x hx
    refine Returns.bind (hk.call hf fun a ha => ?_) fun acc hacc => ?_
    · simp only [List.mem_cons, List.not_mem_nil, or_false] at ha
      rcases ha with rfl | rfl
      · exact hI.2
      · split
        · exact Value.good_of_wellTyped (.string _)
        · exact Value.good_of_wellTyped hx'
    · by_cases herr : acc.isError = true
      · rw [if_pos herr]
        exact Returns.pure ⟨fun r hr => by cases hr; exact hacc, hacc⟩
      · rw [if_neg herr]
        exact Returns.pure ⟨by simp, hacc⟩
  · split
    next r hr => exact Returns.pure (hs.1 r hr)
    next => exact Returns.pure hs.2

/-- Every builtin keeps the invariant: on well-typed arguments its outcome is good. -/
theorem run_good (b : Builtin) {args : List Value} (hargs : ∀ a ∈ args, a.WellTyped)
    (pos : Position) : Returns (run k b args pos) Value.Good := by
  unfold run
  split
  next f xs => exact map_good hk (hargs f (by simp)) (hargs xs (by simp)) pos
  next f xs => exact filter_good hk (hargs f (by simp)) (hargs xs (by simp)) pos
  next init xs f =>
    exact fold_good hk _ _ (hargs init (by simp)) (hargs xs (by simp)) (hargs f (by simp)) pos
  next init xs f =>
    exact fold_good hk _ _ (hargs init (by simp)) (hargs xs (by simp)) (hargs f (by simp)) pos
  next xs ys => exact zip_good (hargs xs (by simp)) (hargs ys (by simp)) pos
  next xs a e =>
    split
    next items t hl =>
      obtain ⟨hitems, ht⟩ := (hargs xs (by simp)).asList? hl
      refine Returns.ite (Returns.pure fun _ => .listOf ht fun x hx => hitems x ?_) (fail_good _ _)
      exact List.mem_of_mem_take (List.mem_of_mem_drop hx)
    next => exact fail_good _ _
  next => exact Returns.ite (Returns.pure fun _ => .string _) (fail_good _ _)
  next x =>
    split
    all_goals first
      | exact fail_good _ _
      | exact Returns.pure fun _ => .int _
  next => exact Returns.pure fun _ => .string _
  next a e =>
    refine Returns.pure fun _ => .listOf rfl fun x hx => ?_
    obtain ⟨i, -, rfl⟩ := List.mem_map.mp hx
    exact .int _
  next x =>
    split
    · exact Returns.bind Returns.trivial fun _ _ => Returns.pure fun _ => .null
    · exact fail_good _ _
  next x =>
    split
    · exact Returns.bind Returns.trivial fun _ _ => Returns.pure fun _ => .null
    · exact fail_good _ _
  next => exact Returns.bind Returns.trivial fun _ _ => Returns.pure fun _ => .string _
  next => exact Returns.pure fun _ => .string _
  next s =>
    split
    · exact fail_good _ _
    · exact Returns.throw
    · exact Returns.ite (Returns.pure fun _ => .int _) (fail_good _ _)
  next cs rows =>
    have hcs : ∀ c ∈ cs, c.2.hasUnknown = false := by
      have hschema := hargs (.schema cs) (by simp)
      cases hschema
      assumption
    split
    next items t hl =>
      have hitems := ((hargs rows (by simp)).asList? hl).1
      split
      · exact fail_good _ _
      next hnone =>
        refine Returns.pure fun _ => TableRows.tableOf hcs fun r hr => ⟨hitems r hr, ?_⟩
        have hmem : r ∈ items.zipIdx.map Prod.fst := by
          rw [List.zipIdx_map_fst]
          exact hr
        obtain ⟨⟨r', i⟩, hri, rfl⟩ := List.mem_map.mp hmem
        exact rowProblem_eq_none (by simpa using List.findSome?_eq_none_iff.mp hnone _ hri)
    next => exact fail_good _ _
  next t name =>
    split
    next cs rs ty =>
      cases hargs (.table cs rs ty) (by simp) with
      | table he hcs hrows hrs =>
        split
        next n ct i hfind =>
          have hct : ct.hasUnknown = false := by
            have hmem := List.mem_map_of_mem (f := Prod.fst) (List.mem_of_find?_eq_some hfind)
            rw [List.zipIdx_map_fst] at hmem
            exact hcs _ hmem
          exact Returns.bind (Returns.mapM_forall fun r hr => cell_wellTyped i (hrs r hr))
            fun cells hcells => Returns.pure fun _ => .listOf hct hcells.2
        next => exact fail_good _ _
    next => exact fail_good _ _
  next t =>
    split
    next cs rs ty =>
      cases hargs (.table cs rs ty) (by simp) with
      | table he hcs hrows hrs => exact Returns.pure fun _ => .listOf he hrs
    next => exact fail_good _ _
  next t =>
    split
    · exact Returns.pure fun _ => .int _
    · exact fail_good _ _
  next path cs header =>
    cases hargs (.schema cs) (by simp) with
    | schema hcs => exact readCSV_good path hcs header pos
  next path t header => exact writeCSV_good path t header pos
  next => exact Returns.throw

end HigherOrder

end Builtins

end Retl
