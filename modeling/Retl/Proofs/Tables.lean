import Retl.Proofs.RunInvariant
/-!
# Tables keep their schema

A row fits a schema (`Builtins.RowFits`) when it is a tuple with one field per column and
the type of each field conforms to its column's type. `createTable` checks exactly that of
the rows it is given (`rowProblem_eq_none_iff`), and `readCSV` reads each field in its
column's type, so both make tables whose rows fit. No other step makes a table: the rest
pass tables on, retyped at most. So every table a run holds has rows that fit its schema:
that is the invariant `tableInv`, kept by evaluation at every depth.

On such a table `count` gives the number of rows, `collect` the rows in order, and `column`
the field of its column from every row, in row order, as a list of the column's type; a name
that is no column's gives an error. `createTable` gives a table when every row fits, and
otherwise an error that names the first row that does not and what is wrong with it.
-/

namespace Retl

open Eval

namespace Builtins

/-! ### Searching numbered rows and columns -/

/-- Searching numbered elements finds the first element with the property, at its index. -/
theorem find?_zipIdx_eq_some {α : Type} {q : α × Nat → Bool} {l : List α} {a : α} {i : Nat}
    (h : (l.zipIdx 0).find? q = some (a, i)) :
    l[i]? = some a ∧ q (a, i) = true ∧
      ∀ i' < i, ∀ a', l[i']? = some a' → q (a', i') = false := by
  obtain ⟨hq, j, hj, hget, hbefore⟩ := List.find?_eq_some_iff_getElem.mp h
  rw [List.getElem_zipIdx] at hget
  simp only [Nat.zero_add, Prod.mk.injEq] at hget
  obtain ⟨hja, rfl⟩ := hget
  refine ⟨?_, hq, fun i' hi' a' ha' => ?_⟩
  · rw [List.getElem?_eq_getElem (by simpa using hj), hja]
  · obtain ⟨hlt, rfl⟩ := List.getElem?_eq_some_iff.mp ha'
    simpa using hbefore i' hi'

theorem find?_zipIdx_eq_none {α : Type} {q : α × Nat → Bool} {l : List α}
    (h : (l.zipIdx 0).find? q = none) : ∀ i a, l[i]? = some a → q (a, i) = false := by
  intro i a ha
  have hmem : (a, i) ∈ l.zipIdx 0 := List.mem_zipIdx_iff_getElem?.mpr ha
  simpa using List.find?_eq_none.mp h _ hmem

/-- Searching numbered elements for a result finds the result of the first element that has
one. -/
theorem findSome?_zipIdx_eq_some {α β : Type} {g : α × Nat → Option β} :
    ∀ {l : List α} {k : Nat} {b : β}, (l.zipIdx k).findSome? g = some b →
      ∃ i a, l[i]? = some a ∧ g (a, k + i) = some b ∧
        ∀ i' < i, ∀ a', l[i']? = some a' → g (a', k + i') = none
  | [], _, _, h => by simp at h
  | x :: xs, k, b, h => by
    rw [List.zipIdx_cons, List.findSome?_cons] at h
    split at h
    next b' hx =>
      cases h
      exact ⟨0, x, rfl, hx, fun i' hi' => absurd hi' (Nat.not_lt_zero i')⟩
    next hx =>
      obtain ⟨i, a, ha, hg, hbefore⟩ := findSome?_zipIdx_eq_some h
      have hshift : ∀ j, k + 1 + j = k + (j + 1) := fun j => by omega
      refine ⟨i + 1, a, ha, hshift i ▸ hg, fun i' hi' a' ha' => ?_⟩
      cases i' with
      | zero =>
        cases ha'
        exact hx
      | succ i' => exact hshift i' ▸ hbefore i' (by omega) a' ha'

theorem findSome?_zipIdx_eq_none {α β : Type} {g : α × Nat → Option β} {l : List α}
    (h : (l.zipIdx 0).findSome? g = none) : ∀ i a, l[i]? = some a → g (a, i) = none := by
  intro i a ha
  exact List.findSome?_eq_none_iff.mp h _ (List.mem_zipIdx_iff_getElem?.mpr ha)

/-! ### Rows that fit -/

/-- A row fits a schema: a tuple with one field per column, the type of each field conforming
to its column's type. -/
def RowFits (cs : List (String × Ty)) (r : Value) : Prop :=
  ∃ vs t, r = .tuple vs t ∧ List.Forall₂ (fun v c => v.type.conformsTo c.2 = true) vs cs

/-- `rowProblem` finds a problem with exactly the rows that do not fit. -/
theorem rowProblem_eq_none_iff {cs : List (String × Ty)} {r : Value} :
    rowProblem cs r = none ↔ RowFits cs r := by
  unfold rowProblem
  split
  next vs t =>
    split
    next hlen =>
      -- a tuple of another width: its fields cannot pair off with the columns
      simp only [reduceCtorEq, false_iff]
      rintro ⟨vs', t', heq, hfit⟩
      cases heq
      simp [hfit.length_eq] at hlen
    next hlen =>
      have hlen' : vs.length = cs.length := by simpa using hlen
      rw [List.findSome?_eq_none_iff]
      constructor
      · intro h
        refine ⟨vs, t, rfl, List.forall₂_iff_zip.mpr ⟨hlen', fun {v c} hvc => ?_⟩⟩
        obtain ⟨n, ty⟩ := c
        have hv : (if v.type.conformsTo ty = true then none else some _) = none := h (v, n, ty) hvc
        by_contra hne
        rw [if_neg hne] at hv
        cases hv
      · rintro ⟨vs', t', heq, hfit⟩ ⟨v, n, ty⟩ hvc
        cases heq
        have hconf : v.type.conformsTo ty = true := List.forall₂_iff_zip.mp hfit |>.2 hvc
        show (if v.type.conformsTo ty = true then none else some _) = none
        rw [if_pos hconf]
  next hnot =>
    simp only [reduceCtorEq, false_iff]
    rintro ⟨vs, t, rfl, -⟩
    exact hnot vs t rfl

/-- A field read in a column's type has a type that conforms to the column's. -/
theorem fieldValue_conforms {text : String} {t : Ty} {v : Value}
    (h : fieldValue text t = .ok (some v)) : v.type.conformsTo t = true := by
  unfold fieldValue at h
  repeat' split at h
  all_goals simp only [pure, Except.pure, throw, throwThe, MonadExceptOf.throw, Except.ok.injEq,
    reduceCtorEq] at h
  repeat' split at h
  all_goals cases h
  -- what is left compares the type of a scalar with its column's
  all_goals simp only [Value.type]
  all_goals decide +kernel

/-- The rows `readCSV` builds fit their schema. -/
theorem ReadRow.fits {cs : List (String × Ty)} {r : Value} (h : ReadRow cs r) : RowFits cs r := by
  obtain ⟨vs, rfl, hvs⟩ := h
  exact ⟨vs, _, rfl, hvs.imp fun _ _ ⟨_, hv⟩ => fieldValue_conforms hv⟩

end Builtins

open Builtins

/-! ### The invariant -/

/-- Tables whose rows fit their schema: the invariant asks nothing of integers, schemas and
lengths. -/
def tableInv : Inv where
  int _ := true
  schema _ := true
  table cs rs := ∀ r ∈ rs, RowFits cs r
  seq _ := True

theorem tableInv_kept : tableInv.Kept where
  fits _ _ := rfl
  range _ _ _ _ _ _ := rfl
  length _ _ := rfl
  small _ _ := trivial
  created _ _ _ h _ r hr := rowProblem_eq_none_iff.mp (h r hr)
  read _ _ _ h r hr := (h r hr).fits

/-- The rows of a table that satisfies the invariant fit its schema. -/
theorem Value.Holds.rowsFit {cs : List (String × Ty)} {rs : List Value} {t : Ty}
    (h : (Value.table cs rs t).Holds tableInv) : ∀ r ∈ rs, RowFits cs r := by
  cases h with
  | table _ hrows _ => exact hrows

theorem Expr.litsOk_tableInv (e : Expr) : e.litsOk tableInv = true :=
  Expr.litsOk_of_forall (fun l => by cases l <;> rfl) (fun _ => rfl) e

theorem Eval.engine_keeps_tableInv (cfg : RunConfig) (n : Nat) :
    Engine.Keeps tableInv ⟨eval n cfg, call n cfg⟩ :=
  engine_keeps tableInv_kept (fun _ => trivial) cfg n

/-! ### The builtins on tables -/

namespace Builtins

variable (k : Engine) (pos : Position)

/-- The field at a column's index of rows that fit the schema: the mapping never fails. -/
theorem mapM_cell {cs : List (String × Ty)} {j : Nat} (hj : j < cs.length) :
    ∀ {rs : List Value}, (∀ r ∈ rs, RowFits cs r) →
      ∃ cells, List.Forall₂ (fun r v => ∃ vs u, r = .tuple vs u ∧ vs[j]? = some v) rs cells ∧
        rs.mapM (cell j) = pure cells
  | [], _ => ⟨[], .nil, rfl⟩
  | r :: rs, hrs => by
    obtain ⟨vs, u, rfl, hfit⟩ := hrs r List.mem_cons_self
    have hvj : j < vs.length := hfit.length_eq ▸ hj
    obtain ⟨cells, hcells, hmap⟩ := mapM_cell hj fun r' hr' => hrs r' (List.mem_cons_of_mem _ hr')
    refine ⟨vs[j] :: cells, .cons ⟨vs, u, rfl, List.getElem?_eq_getElem hvj⟩ hcells, ?_⟩
    simp only [List.mapM_cons, cell, List.getElem?_eq_getElem hvj, hmap, pure_bind]

/-- `column` on a table whose rows fit gives the field of the column from every row, in row
order, as a list of the column's type. -/
theorem column_of_rowsFit {cs : List (String × Ty)} {rs : List Value} {t : Ty} {j : Nat}
    {name : String} {ct : Ty} (hrows : ∀ r ∈ rs, RowFits cs r) (hj : cs[j]? = some (name, ct))
    (hfirst : ∀ i < j, ∀ c, cs[i]? = some c → c.1 ≠ name) :
    ∃ cells, List.Forall₂ (fun r v => ∃ vs u, r = .tuple vs u ∧ vs[j]? = some v) rs cells ∧
      run k .column [.table cs rs t, .string name] pos = pure (Value.listOf cells ct) := by
  have hjlt : j < cs.length := (List.getElem?_eq_some_iff.mp hj).1
  obtain ⟨cells, hcells, hmap⟩ := mapM_cell hjlt hrows
  refine ⟨cells, hcells, ?_⟩
  unfold run
  dsimp only
  split
  next n ct' i hfind =>
    obtain ⟨hi, hname, hbefore⟩ := find?_zipIdx_eq_some hfind
    simp only [beq_iff_eq] at hname
    -- the search stops at the first column of that name, which is the `j`-th
    have hij : i = j := by
      rcases Nat.lt_trichotomy i j with hlt | heq | hgt
      · exact absurd hname (hfirst i hlt _ hi)
      · exact heq
      · have := hbefore j hgt _ hj
        simp at this
    subst hij
    rw [hj, Option.some.injEq, Prod.mk.injEq] at hi
    obtain ⟨-, rfl⟩ := hi
    rw [hmap, pure_bind]
  next hnone =>
    have := find?_zipIdx_eq_none hnone j _ hj
    simp at this

/-- `column` with a name that no column has gives an error. -/
theorem column_unknown {cs : List (String × Ty)} {rs : List Value} {t : Ty} {name : String}
    (hname : ∀ c ∈ cs, c.1 ≠ name) :
    run k .column [.table cs rs t, .string name] pos = fail ("Unknown column: " ++ name) pos := by
  unfold run
  dsimp only
  split
  next n ct i hfind =>
    obtain ⟨hi, hn, -⟩ := find?_zipIdx_eq_some hfind
    simp only [beq_iff_eq] at hn
    exact absurd hn (hname _ (List.mem_of_getElem? hi))
  next => rfl

/-- `createTable` on rows that all fit gives the table of them. -/
theorem createTable_of_rowsFit {cs : List (String × Ty)} {rows : Value} {items : List Value}
    {t : Ty} (hl : rows.asList? = some (items, t)) (hfit : ∀ r ∈ items, RowFits cs r) :
    run k .createTable [.schema cs, rows] pos = pure (Value.tableOf cs items) := by
  unfold run
  simp only [hl]
  split
  next i problem hfind =>
    obtain ⟨i', r, hr, hg, -⟩ := findSome?_zipIdx_eq_some hfind
    have hnone := rowProblem_eq_none_iff.mpr (hfit r (List.mem_of_getElem? hr))
    simp [hnone] at hg
  next => rfl

/-- `createTable` on rows one of which does not fit gives an error naming the first such row
and its problem. -/
theorem createTable_of_not_rowFits {cs : List (String × Ty)} {rows : Value}
    {items : List Value} {t : Ty} (hl : rows.asList? = some (items, t)) {i : Nat} {r : Value}
    (hr : items[i]? = some r) (hbad : ¬ RowFits cs r)
    (hbefore : ∀ i' < i, ∀ r', items[i']? = some r' → RowFits cs r') :
    ∃ problem, rowProblem cs r = some problem ∧
      run k .createTable [.schema cs, rows] pos =
        fail ("createTable: row " ++ toString i ++ ": " ++ problem) pos := by
  obtain ⟨problem, hproblem⟩ := Option.ne_none_iff_exists'.mp
    fun h => hbad (rowProblem_eq_none_iff.mp h)
  refine ⟨problem, hproblem, ?_⟩
  unfold run
  simp only [hl]
  split
  next i' problem' hfind =>
    obtain ⟨j, r', hr', hg, hfirst⟩ := findSome?_zipIdx_eq_some hfind
    simp only [Nat.zero_add, Option.map_eq_some_iff, Prod.mk.injEq] at hg
    obtain ⟨p, hp, rfl, rfl⟩ := hg
    -- the first row with a problem is the first that does not fit
    have hji : j = i := by
      rcases Nat.lt_trichotomy j i with hlt | heq | hgt
      · have := rowProblem_eq_none_iff.mpr (hbefore j hlt r' hr')
        simp [this] at hp
      · exact heq
      · have := hfirst i hgt r hr
        simp [hproblem] at this
    subst hji
    rw [hr, Option.some.injEq] at hr'
    subst hr'
    rw [hproblem, Option.some.injEq] at hp
    subst hp
    rfl
  next hnone =>
    have := findSome?_zipIdx_eq_none hnone i r hr
    simp [hproblem] at this

end Builtins

/-- Every table a run holds keeps its schema. The root scope meets the invariant that the rows
of every table fit its schema, and evaluating any expression at any depth in a scope that
meets it, calling a function that meets it on arguments that do, running a program from the
root scope and running a session line all keep it. On a table, `count` gives the number of
rows and `collect` the rows in order; on a table whose rows fit, `column` gives the field of
the named column from every row, in row order, typed as a list of the column's type, and an
error for a name that is no column's. `createTable` gives the table of its rows when every
row fits, and otherwise an error that names the first row that does not fit and its
problem. -/
theorem tables_keep_their_schema (cfg : RunConfig) :
    Env.root.Meets tableInv ∧
    (∀ n env E e, env.Meets tableInv → Returns (eval n cfg env E e) (Value.Meets tableInv)) ∧
    (∀ n f args pos, f.Meets tableInv → (∀ a ∈ args, a.Meets tableInv) →
      Returns (call n cfg f args pos) (Value.Meets tableInv)) ∧
    (∀ e, Returns (runProgram cfg Env.root e) (Value.Meets tableInv)) ∧
    (∀ env e, env.Meets tableInv →
      Returns (runTopLevel cfg env e) fun r => r.1.Meets tableInv ∧ r.2.Meets tableInv) ∧
    (∀ (k : Engine) (cs : List (String × Ty)) (rs : List Value) (t : Ty) (pos : Position),
      Builtins.run k .count [.table cs rs t] pos = pure (.int rs.length)) ∧
    (∀ (k : Engine) (cs : List (String × Ty)) (rs : List Value) (t : Ty) (pos : Position),
      Builtins.run k .collect [.table cs rs t] pos = pure (Value.listOf rs t.elementType)) ∧
    (∀ (k : Engine) (cs : List (String × Ty)) (rs : List Value) (t : Ty) (j : Nat)
      (name : String) (ct : Ty) (pos : Position), (∀ r ∈ rs, RowFits cs r) →
      cs[j]? = some (name, ct) → (∀ i < j, ∀ c, cs[i]? = some c → c.1 ≠ name) →
      ∃ cells, List.Forall₂ (fun r v => ∃ vs u, r = .tuple vs u ∧ vs[j]? = some v) rs cells ∧
        Builtins.run k .column [.table cs rs t, .string name] pos =
          pure (Value.listOf cells ct)) ∧
    (∀ (k : Engine) (cs : List (String × Ty)) (rs : List Value) (t : Ty) (name : String)
      (pos : Position), (∀ c ∈ cs, c.1 ≠ name) →
      Builtins.run k .column [.table cs rs t, .string name] pos =
        fail ("Unknown column: " ++ name) pos) ∧
    (∀ (k : Engine) (cs : List (String × Ty)) (rows : Value) (items : List Value) (t : Ty)
      (pos : Position), rows.asList? = some (items, t) →
      (∀ r ∈ items, RowFits cs r) →
      Builtins.run k .createTable [.schema cs, rows] pos = pure (Value.tableOf cs items)) ∧
    (∀ (k : Engine) (cs : List (String × Ty)) (rows : Value) (items : List Value) (t : Ty)
      (pos : Position) (i : Nat) (r : Value), rows.asList? = some (items, t) →
      items[i]? = some r → ¬ RowFits cs r →
      (∀ i' < i, ∀ r', items[i']? = some r' → RowFits cs r') →
      ∃ problem, rowProblem cs r = some problem ∧
        Builtins.run k .createTable [.schema cs, rows] pos =
          fail ("createTable: row " ++ toString i ++ ": " ++ problem) pos) :=
  have hk := Eval.engine_keeps_tableInv cfg
  ⟨Env.root_meets,
    fun n _ _ e henv => (hk n).eval henv (Expr.litsOk_tableInv e),
    fun n _ _ _ hf hargs => (hk n).call hf hargs,
    fun e => runProgram_meets (hk cfg.depth) Env.root_meets (Expr.litsOk_tableInv e),
    fun _ e henv => runTopLevel_meets (hk cfg.depth) henv (Expr.litsOk_tableInv e),
    fun _ _ _ _ _ => by simp only [Builtins.run],
    fun _ _ _ _ _ => by simp only [Builtins.run],
    fun k _ _ _ _ _ _ pos hrows hj hfirst => column_of_rowsFit k pos hrows hj hfirst,
    fun k _ _ _ _ pos hname => column_unknown k pos hname,
    fun k _ _ _ _ pos hl hfit => createTable_of_rowsFit k pos hl hfit,
    fun k _ _ _ _ pos _ _ hl hr hbad hbefore =>
      createTable_of_not_rowFits k pos hl hr hbad hbefore⟩

end Retl
