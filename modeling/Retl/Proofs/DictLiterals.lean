import Retl.Proofs.AnalysisSteps
import Retl.Proofs.Conformance
import Retl.Proofs.ElementTyping
import Retl.Proofs.QuietAnalysis
import Retl.Proofs.StepRuns
/-!
# Dictionary literals keep one pair per key, the last value wins

Analysis reads a dictionary literal's entries in order, analysing every value, overwritten
ones too, and keeping what each reports; then it keeps one entry per key literal
(`lastPerKey`): in the order of each key's first occurrence, the entry of its last
occurrence. Two key literals are the same key when they are of the same kind and hold the
same content; the values they denote are then equal (`Value.equal`), and only then
(`equal_literalValue_iff`).

Evaluation sees only the entries that were kept, so the value of an overwritten entry is
never evaluated. A run of the literal evaluates the kept entries in order, each its key and
then its value (`Eval.EntriesRun`). When it gives a dictionary, its keys are the values of
the kept key literals, pairwise unequal, one pair per distinct key, and looking a key up
finds the value this run gave for the entry where that key was written last.
-/

namespace Retl

open Retl.Tree (LitNode)

/-- Each element of a list once, in the order of first occurrence, has no repeats. -/
theorem nodup_eraseDups {α : Type} [BEq α] [LawfulBEq α] :
    ∀ l : List α, l.eraseDups.Nodup
  | [] => List.nodup_nil
  | a :: as => by
    rw [List.eraseDups_cons, List.nodup_cons]
    refine ⟨?_, nodup_eraseDups _⟩
    simp [List.mem_eraseDups, List.mem_filter]
termination_by l => l.length
decreasing_by exact Nat.lt_succ_of_le (List.length_filter_le _ _)

open Analysis

section Keys

variable {es : List (LitNode × Expr)}

/-- The key literal of an entry. -/
abbrev entryKey (e : LitNode × Expr) : Literal := e.1.literal

/-- Every key of the entries has an entry kept for it: the last one with that key. -/
theorem find?_reverse_of_mem {l : Literal} (hl : l ∈ es.map entryKey) :
    ∃ x, es.reverse.find? (fun e => e.1.literal == l) = some x ∧ entryKey x = l := by
  obtain ⟨y, hy, rfl⟩ := List.mem_map.mp hl
  have hsome : (es.reverse.find? fun e => e.1.literal == entryKey y).isSome :=
    List.find?_isSome.mpr ⟨y, List.mem_reverse.mpr hy, beq_self_eq_true _⟩
  obtain ⟨x, hx⟩ := Option.isSome_iff_exists.mp hsome
  exact ⟨x, hx, by simpa using List.find?_some hx⟩

/-- The keys of the kept entries are the keys of all entries, each once, in the order of
first occurrence. -/
theorem keys_lastPerKey : (lastPerKey es).map entryKey = (es.map entryKey).eraseDups := by
  have hkept : ∀ l ∈ (es.map entryKey).eraseDups,
      ∃ x, es.reverse.find? (fun e => e.1.literal == l) = some x ∧ entryKey x = l :=
    fun l hl => find?_reverse_of_mem (List.mem_eraseDups.mp hl)
  unfold lastPerKey
  generalize (es.map entryKey).eraseDups = keys at hkept
  induction keys with
  | nil => rfl
  | cons l ls ih =>
    obtain ⟨x, hx, hkey⟩ := hkept l List.mem_cons_self
    rw [List.filterMap_cons, hx, List.map_cons, hkey,
      ih fun l' hl' => hkept l' (List.mem_cons_of_mem l hl')]

/-- The kept entries have pairwise different keys. -/
theorem nodup_keys_lastPerKey : ((lastPerKey es).map entryKey).Nodup := by
  rw [keys_lastPerKey]
  exact nodup_eraseDups _

/-- A kept entry is the last one with its key. -/
theorem last_of_mem_lastPerKey {x : LitNode × Expr} (hx : x ∈ lastPerKey es) :
    ∃ pre post, es = pre ++ x :: post ∧ ∀ y ∈ post, entryKey y ≠ entryKey x := by
  obtain ⟨l, -, hfind⟩ := List.mem_filterMap.mp hx
  obtain ⟨hxl, as, bs, hsplit, has⟩ := List.find?_eq_some_iff_append.mp hfind
  have hkey : entryKey x = l := by simpa using hxl
  refine ⟨bs.reverse, as.reverse, ?_, fun y hy => ?_⟩
  · rw [← List.reverse_reverse es, hsplit]
    simp
  · have hne := has y (List.mem_reverse.mp hy)
    rw [hkey]
    simpa using hne

/-- The last entry with a key is kept. -/
theorem mem_lastPerKey_of_last {pre post : List (LitNode × Expr)} {x : LitNode × Expr}
    (hsplit : es = pre ++ x :: post) (hlast : ∀ y ∈ post, entryKey y ≠ entryKey x) :
    x ∈ lastPerKey es := by
  have hmem : entryKey x ∈ (es.map entryKey).eraseDups := by
    rw [List.mem_eraseDups, hsplit]
    simp
  have hfind : es.reverse.find? (fun e => e.1.literal == entryKey x) = some x := by
    rw [hsplit, List.reverse_append, List.reverse_cons, List.append_assoc, List.find?_append,
      List.find?_eq_none.mpr fun y hy => by simpa using hlast y (List.mem_reverse.mp hy)]
    simp
  exact List.mem_filterMap.mpr ⟨entryKey x, hmem, hfind⟩

end Keys

/-- Analysing the entries of a dictionary literal analyses every value in turn, keeping each
key: each value's analysis gives the value its entry holds, appends what it reports to the log
it starts from, and the rest of the analysis keeps that log. -/
theorem analyzeEntries_analyses (sc : AnalysisScope) (b : Nat) :
    ∀ (written : List (LitNode × Tree.Node)) (L : AnalysisLog) (es : List (LitNode × Expr))
      (L' : AnalysisLog), (analyzeEntries sc b written).exec L = (.ok es, L') →
      List.Forall₂ (fun w x => x.1 = w.1 ∧ ∃ L₁ L₂, (analyzeExpr sc b w.2).exec L₁ = (.ok x.2, L₂) ∧
        L₁.diagnostics.toList <+: L₂.diagnostics.toList ∧
        L₂.diagnostics.toList <+: L'.diagnostics.toList) written es
  | [], L, es, L', h => by
    rw [analyzeEntries] at h
    obtain ⟨rfl, -⟩ := exec_pure_ok h
    exact .nil
  | (kn, v) :: rest, L, es, L', h => by
    rw [analyzeEntries] at h
    obtain ⟨_, L₀, -, h⟩ := exec_bind_ok h
    obtain ⟨e, L₁, he, h⟩ := exec_bind_ok h
    obtain ⟨others, L₂, hrest, h⟩ := exec_bind_ok h
    obtain ⟨rfl, rfl⟩ := exec_pure_ok h
    -- analysis only appends: the value's own reports, then those of the entries after it
    have hvalue := (analyzerQuiet Inv.anything_analysisChecks b sc v L₀ e L₁ he).1
    have hafter := (analyzeEntries_quiet Inv.anything_analysisChecks
      (analyzerQuiet Inv.anything_analysisChecks b) sc rest L₁ others L₂ hrest).1
    exact .cons ⟨rfl, L₀, L₁, he, hvalue, hafter⟩ (analyzeEntries_analyses sc b rest L₁ others L₂ hrest)

/-- Analysing a dictionary literal analyses every entry's value, overwritten ones too, keeping
what each reports, and gives a dictionary node holding the last entry per key of the analysed
entries, whose keys are the written ones. -/
theorem analyzeExpr_dict (sc : AnalysisScope) (b : Nat) (written : List (LitNode × Tree.Node))
    (p : Position) {L : AnalysisLog} {e : Expr} {L' : AnalysisLog}
    (h : (analyzeExpr sc (b + 1) (.dict written p)).exec L = (.ok e, L')) :
    ∃ es, e = .dict (lastPerKey es) p ∧ es.map Prod.fst = written.map Prod.fst ∧
      List.Forall₂ (fun w x => x.1 = w.1 ∧ ∃ L₁ L₂, (analyzeExpr sc b w.2).exec L₁ = (.ok x.2, L₂) ∧
        L₁.diagnostics.toList <+: L₂.diagnostics.toList ∧
        L₂.diagnostics.toList <+: L'.diagnostics.toList) written es := by
  rw [analyzeExpr] at h
  simp only [Nat.add_one_ne_zero, ↓reduceIte, Nat.add_sub_cancel] at h
  obtain ⟨_, L₀, -, hentries⟩ := exec_bind_ok h
  obtain ⟨es, L₁, hes, hpure⟩ := exec_bind_ok hentries
  obtain ⟨rfl, rfl⟩ := exec_pure_ok hpure
  have hall := analyzeEntries_analyses sc b written L₀ es L₁ hes
  have hkeys : written.map Prod.fst = es.map Prod.fst := by
    rw [← List.forall₂_eq_eq_eq, List.forall₂_map_left_iff, List.forall₂_map_right_iff]
    exact hall.imp fun _ _ hx => hx.1.symm
  exact ⟨es, rfl, hkeys.symm, hall⟩

namespace Eval

/-- Two key literals denote equal values exactly when they are the same literal: the same
kind and the same content. -/
theorem equal_literalValue_iff {a b : Literal} :
    Value.equal (literalValue a) (literalValue b) = true ↔ a = b := by
  cases a <;> cases b <;> simp [Value.equal, literalValue]

/-- A literal's value is a scalar, which conforming leaves as it is. -/
@[simp] theorem retype_literalValue (l : Literal) (t : Ty) :
    (literalValue l).retype t = literalValue l := by
  cases l <;> rfl

/-- A literal evaluates to an error or to its own value. -/
theorem eval_lit (cfg : RunConfig) (n : Nat) (env : Env) (T : Ty) (l : Literal) (p : Position) :
    Returns (eval n cfg env T (.lit l p)) fun v => v.isError = true ∨ v = literalValue l := by
  cases n with
  | zero => exact Returns.throw
  | succ n =>
    simp only [eval]
    unfold step
    refine Returns.bind Returns.trivial fun _ _ => ?_
    refine (conformValue_retype _ T p).mono fun w hw => ?_
    rcases hw with herr | rfl
    · exact Or.inl herr
    · exact Or.inr (retype_literalValue l _)

/-- The entries of a dictionary literal run in order from `m`: each its key literal and then
its value expression, under the key and value types the literal fixed, each from the machine
the one before it left. They give the pairs `ps` and leave `m'`. -/
inductive EntriesRun (k : Engine) (env : Env) :
    List (LitNode × Expr) → Machine → List (Value × Value) → Machine → Prop
  | nil (m : Machine) : EntriesRun k env [] m [] m
  | cons {x : LitNode × Expr} {xs : List (LitNode × Expr)} {kt vt : Ty} {m m₁ m₂ m' : Machine}
      {key val : Value} {ps : List (Value × Value)} :
      (k.eval env kt (.lit x.1.literal x.1.pos)).exec m = (.ok key, m₁) →
      (k.eval env vt x.2).exec m₁ = (.ok val, m₂) →
      EntriesRun k env xs m₂ ps m' → EntriesRun k env (x :: xs) m ((key, val) :: ps) m'

section Engine

variable {k : Engine} {env : Env}

/-- The entries after the first, evaluated under the types the first fixed, run in order. -/
theorem entriesRun_mapM {kt vt : Ty} :
    ∀ {rest : List (LitNode × Expr)} {m : Machine} {qs : List (Value × Value)} {m' : Machine},
      (rest.mapM fun (x : LitNode × Expr) => do
          let key ← k.eval env kt (.lit x.1.literal x.1.pos)
          let val ← k.eval env vt x.2
          pure (key, val)).exec m = (.ok qs, m') →
      EntriesRun k env rest m qs m'
  | [], m, qs, m', h => by
    rw [List.mapM_nil] at h
    obtain ⟨rfl, rfl⟩ := exec_pure_eq_ok h
    exact .nil _
  | x :: rest, m, qs, m', h => by
    rw [List.mapM_cons] at h
    obtain ⟨q, m₂, hq, h⟩ := exec_bind_eq_ok h
    obtain ⟨others, m₃, hothers, h⟩ := exec_bind_eq_ok h
    obtain ⟨rfl, rfl⟩ := exec_pure_eq_ok h
    -- the entry's key, then its value
    obtain ⟨key, m₁, hkey, hq⟩ := exec_bind_eq_ok hq
    obtain ⟨val, m₂', hval, hq⟩ := exec_bind_eq_ok hq
    obtain ⟨rfl, rfl⟩ := exec_pure_eq_ok hq
    exact .cons hkey hval (entriesRun_mapM hothers)

/-- A run of a dictionary literal's pairs that gives them is a run of its entries, in order. -/
theorem dictPairs_runs {kt vt : Ty} {pairs : List (LitNode × Expr)} {m : Machine}
    {r : List (Value × Value) × Ty × Ty} {m' : Machine}
    (h : (dictPairs k env kt vt pairs).exec m = (.ok r, m')) : EntriesRun k env pairs m r.1 m' := by
  cases pairs with
  | nil =>
    simp only [dictPairs] at h
    obtain ⟨rfl, rfl⟩ := exec_pure_eq_ok h
    exact .nil _
  | cons entry rest =>
    obtain ⟨kn, ve⟩ := entry
    simp only [dictPairs] at h
    obtain ⟨key, m₁, hkey, h⟩ := exec_bind_eq_ok h
    obtain ⟨val, m₂, hval, h⟩ := exec_bind_eq_ok h
    obtain ⟨others, m₃, hothers, h⟩ := exec_bind_eq_ok h
    obtain ⟨rfl, rfl⟩ := exec_pure_eq_ok h
    -- the rest of the entries run under the types the first pair fixed
    exact .cons hkey hval (entriesRun_mapM hothers)

/-- A run of a dictionary literal that gives a value gives an error, or a dictionary of the
pairs its entries gave when they ran in order from the machine the literal started on, with
no error among the keys. -/
theorem exec_step_dict_entries {cfg : RunConfig} {E : Ty} {pairs : List (LitNode × Expr)}
    {pos : Position} {m : Machine} {d : Value} {m' : Machine}
    (h : (step k cfg env E (.dict pairs pos)).exec m = (.ok d, m')) :
    d.isError = true ∨ ∃ ps t m₁, d = .dict ps t ∧
      EntriesRun k env pairs (m.entering cfg (.dict pairs pos)) ps m₁ ∧
      ∀ q ∈ ps, q.1.isError = false := by
  unfold step at h
  rw [exec_trace_bind] at h
  dsimp only at h
  split at h
  · -- an empty literal is conformed as it is
    rcases conformValue_retype _ _ pos _ _ _ h with herr | rfl
    · exact Or.inl herr
    · exact Or.inr ⟨[], _, _, rfl, .nil _, fun _ hq => by cases hq⟩
  · obtain ⟨r, m₁, hpairs, h⟩ := exec_bind_eq_ok h
    split at h
    next bad hbad =>
      exact Or.inl ((exec_pure_eq_ok h).1 ▸ firstError_eq_some hbad)
    next hnone =>
      have hok := firstError_pairs_eq_none hnone
      rcases conformValue_retype _ _ pos _ _ _ h with herr | rfl
      · exact Or.inl herr
      · exact Or.inr ⟨r.1, _, m₁, rfl, dictPairs_runs hpairs, fun q hq => (hok q hq).1⟩

/-- The keys that ran without an error are the values of their literals. -/
theorem EntriesRun.keys
    (hk : ∀ T l p, Returns (k.eval env T (.lit l p)) fun v => v.isError = true ∨ v = literalValue l)
    {pairs : List (LitNode × Expr)} {m : Machine} {ps : List (Value × Value)} {m' : Machine}
    (h : EntriesRun k env pairs m ps m') (hok : ∀ q ∈ ps, q.1.isError = false) :
    List.Forall₂ (fun x q => q.1 = literalValue x.1.literal) pairs ps := by
  induction h with
  | nil => exact .nil
  | cons hkey _ _ ih =>
    refine .cons ?_ (ih fun q hq => hok q (List.mem_cons_of_mem _ hq))
    exact (hk _ _ _ _ _ _ hkey).resolve_left (by rw [hok _ List.mem_cons_self]; decide)

end Engine

/-- Pairs that match distinct key literals one for one: looking up the value of a kept key
finds the pair made for it. -/
theorem find?_of_forall₂ {kept : List (LitNode × Expr)} {ps : List (Value × Value)}
    (h : List.Forall₂ (fun x q => q.1 = literalValue x.1.literal) kept ps)
    (hnd : (kept.map entryKey).Nodup) {x : LitNode × Expr} (hx : x ∈ kept) :
    ∃ v, ps.find? (fun q => Value.equal q.1 (literalValue x.1.literal)) =
      some (literalValue x.1.literal, v) ∧ (x, (literalValue x.1.literal, v)) ∈ kept.zip ps := by
  induction h with
  | nil => cases hx
  | @cons y q kept ps hyq _ ih =>
    rw [List.map_cons, List.nodup_cons] at hnd
    obtain ⟨q₁, q₂⟩ := q
    obtain rfl : q₁ = literalValue y.1.literal := hyq
    rcases List.mem_cons.mp hx with rfl | hx
    · exact ⟨q₂, by simp [equal_literalValue_iff], by simp⟩
    · -- an earlier key differs from the one looked up, so the search passes it
      have hne : entryKey y ≠ entryKey x := fun he =>
        hnd.1 (he ▸ List.mem_map_of_mem hx)
      have hskip : Value.equal (literalValue y.1.literal) (literalValue x.1.literal) = false :=
        Bool.eq_false_iff.mpr fun h => hne (equal_literalValue_iff.mp h)
      obtain ⟨v, hfind, hmem⟩ := ih hnd.2 hx
      rw [List.find?_cons, hskip]
      exact ⟨v, hfind, List.mem_cons_of_mem _ hmem⟩

/-- Pairs for distinct key literals have pairwise unequal keys. -/
theorem pairwise_keys_of_forall₂ {kept : List (LitNode × Expr)} {ps : List (Value × Value)}
    (h : List.Forall₂ (fun x q => q.1 = literalValue x.1.literal) kept ps)
    (hnd : (kept.map entryKey).Nodup) :
    ps.Pairwise fun a b => Value.equal a.1 b.1 = false := by
  have hkeys : (kept.map fun x => literalValue x.1.literal) = ps.map Prod.fst := by
    rw [← List.forall₂_eq_eq_eq, List.forall₂_map_left_iff, List.forall₂_map_right_iff]
    exact h.imp fun _ _ hyq => hyq.symm
  have hvalues : (ps.map Prod.fst).Pairwise fun a b => Value.equal a b = false := by
    rw [← hkeys, List.pairwise_map]
    exact (List.pairwise_map.mp hnd).imp fun hne =>
      Bool.eq_false_iff.mpr fun he => hne (equal_literalValue_iff.mp he)
  exact List.pairwise_map.mp hvalues

/-- Dictionary literals keep one pair per key, and the last value wins. Analysing a literal
analyses every entry's value, overwritten ones too, keeping what each reports, and gives a
dictionary node holding `lastPerKey` of its analysed entries, which keep its keys.
`lastPerKey` keeps the keys each once, in the order of first occurrence, and for each the
entry of its last occurrence. A run of the node evaluates only the kept entries, in order;
when it gives a dictionary, the pairs are those the entries gave in this run, the keys are
pairwise unequal, there is one pair per distinct key, and looking up the key of the last
entry written with it finds the pair this run made for that entry. -/
theorem dict_literals_keep_last_value (cfg : RunConfig) (n : Nat) (env : Env) (E : Ty)
    (entries : List (LitNode × Expr)) (pos : Position) :
    (∀ sc b (written : List (LitNode × Tree.Node)) p L e L',
      (analyzeExpr sc (b + 1) (.dict written p)).exec L = (.ok e, L') →
      ∃ es, e = .dict (lastPerKey es) p ∧ es.map Prod.fst = written.map Prod.fst ∧
        List.Forall₂ (fun w x => x.1 = w.1 ∧ ∃ L₁ L₂,
          (analyzeExpr sc b w.2).exec L₁ = (.ok x.2, L₂) ∧
          L₁.diagnostics.toList <+: L₂.diagnostics.toList ∧
          L₂.diagnostics.toList <+: L'.diagnostics.toList) written es) ∧
    ((lastPerKey entries).map entryKey = (entries.map entryKey).eraseDups ∧
      ∀ x ∈ lastPerKey entries, ∃ pre post, entries = pre ++ x :: post ∧
        ∀ y ∈ post, entryKey y ≠ entryKey x) ∧
    (∀ m d m', (eval (n + 1) cfg env E (.dict (lastPerKey entries) pos)).exec m = (.ok d, m') →
      d.isError = true ∨ ∃ ps t m₁, d = .dict ps t ∧
        EntriesRun ⟨eval n cfg, call n cfg⟩ env (lastPerKey entries)
          (m.entering cfg (.dict (lastPerKey entries) pos)) ps m₁ ∧
        ps.Pairwise (fun a b => Value.equal a.1 b.1 = false) ∧
        ps.length = (entries.map entryKey).eraseDups.length ∧
        ∀ pre x post, entries = pre ++ x :: post → (∀ y ∈ post, entryKey y ≠ entryKey x) →
          ∃ v, ps.find? (fun q => Value.equal q.1 (literalValue x.1.literal)) =
            some (literalValue x.1.literal, v) ∧
            (x, (literalValue x.1.literal, v)) ∈ (lastPerKey entries).zip ps) := by
  refine ⟨fun sc b written p _ _ _ h => analyzeExpr_dict sc b written p h,
    ⟨keys_lastPerKey, fun x hx => last_of_mem_lastPerKey hx⟩, fun m d m' h => ?_⟩
  simp only [eval] at h
  rcases exec_step_dict_entries h with herr | ⟨ps, t, m₁, rfl, hrun, hok⟩
  · exact Or.inl herr
  -- the keys ran to their literals' values, so they are the kept keys, each once
  have hkeys := hrun.keys (fun T l p => eval_lit cfg n env T l p) hok
  refine Or.inr ⟨ps, t, m₁, rfl, hrun, pairwise_keys_of_forall₂ hkeys nodup_keys_lastPerKey, ?_,
    fun pre x post hsplit hlast => find?_of_forall₂ hkeys nodup_keys_lastPerKey
      (mem_lastPerKey_of_last hsplit hlast)⟩
  rw [← hkeys.length_eq, ← keys_lastPerKey, List.length_map]

end Eval

end Retl
