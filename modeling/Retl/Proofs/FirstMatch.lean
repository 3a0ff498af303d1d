import Retl.Proofs.EvalLogic
/-!
# A `match` selects the first case that matches

A `match` tries its cases in order against the value of its subject. What a pattern asks
of the subject is said here on its own, apart from the evaluator (`Case.Admits`): a
literal pattern admits exactly the value of its literal, so the kind counts as well as the
content (`1` is not `true`, `'a'` is not `"a"`); a pattern of several literals admits the
value of any one of them; a range admits the integers between its bounds, both included,
and so nothing when its low bound is above its high one; a typed pattern admits the values
whose type conforms to its type. Only a typed pattern can carry a guard.

`MatchRun` gives the search as rules, from a machine to the result and the machine left.
A case that does not admit the subject is passed over, and its guard is not run. The
first case that admits the subject and has no guard runs its body under the expected type
in the case's scope, where a typed pattern binds the subject to its name. A guard runs in
that scope under `bool`: `true` selects its case, `false` passes on to the next case with
the machine the guard left, and any other result (an error, where the scope is well typed)
ends the match as it is. When no case is left, the match fails and reports the subject.

`first_matching_case_wins` shows that this is exactly what `matchCases` does, from every
machine and with every engine.
-/

namespace Retl

namespace Case

/-- What a pattern asks of the subject, its guard apart. -/
def Admits (s : Value) : Case → Prop
  | .any _ => True
  | .typed _ t _ _ => s.type.conformsTo t = true
  | .literal ln _ => s = Eval.literalValue ln.literal
  | .multi lits _ => ∃ ln ∈ lits, s = Eval.literalValue ln.literal
  | .range lo hi _ => ∃ n, s = .int n ∧ lo ≤ n ∧ n ≤ hi

/-- A range whose low bound is above its high one admits nothing. -/
theorem not_admits_range_of_lt {lo hi : Int} (h : hi < lo) (pos : Position) (s : Value) :
    ¬(Case.range lo hi pos).Admits s := by
  rintro ⟨n, -, hlo, hhi⟩
  omega

/-- The scope a case's guard and body run in: a typed pattern binds the subject. -/
def scope (env : Env) (s : Value) : Case → Env
  | .typed name _ _ _ => env.bind name s
  | _ => env

/-- The guard of a case; only a typed pattern has one. -/
def guard : Case → Option Expr
  | .typed _ _ p _ => p
  | _ => none

end Case

/-- A value is `true`, `false`, or no boolean at all. -/
theorem Value.bool_trichotomy (g : Value) :
    g = .bool true ∨ g = .bool false ∨ ∀ x, g ≠ .bool x := by
  cases g with
  | bool x => cases x <;> simp
  | _ => exact Or.inr (Or.inr fun x h => by cases h)

namespace Eval

/-- A literal matches exactly the value it denotes. -/
theorem literalMatches_iff {v : Value} {l : Literal} :
    literalMatches v l = true ↔ v = literalValue l := by
  cases l <;> cases v <;> simp [literalMatches, literalValue]
  -- the literal's content stands on the left of its comparison
  all_goals exact eq_comm

/-- The first-match rules of a `match` over the cases that remain, from a machine to the
result and the machine left. -/
inductive MatchRun (k : Engine) (env : Env) (E : Ty) (s : Value) (pos : Position) :
    List (Case × Expr) → Machine → Except Halt Value × Machine → Prop
  /-- No case is left: the match fails and reports the subject. -/
  | exhausted (m : Machine) :
      MatchRun k env E s pos [] m ((fail ("No case matched value " ++ s.render) pos).exec m)
  /-- A case whose pattern does not admit the subject is passed over, its guard unrun. -/
  | pass {c b rest m r} (hc : ¬c.Admits s) (hr : MatchRun k env E s pos rest m r) :
      MatchRun k env E s pos ((c, b) :: rest) m r
  /-- A case that admits the subject and has no guard runs its body. -/
  | select {c b rest m} (hc : c.Admits s) (hg : c.guard = none) :
      MatchRun k env E s pos ((c, b) :: rest) m ((k.eval (c.scope env s) E b).exec m)
  /-- A guard that gives `true` selects its case. -/
  | guardTrue {c b rest m m' p} (hc : c.Admits s) (hg : c.guard = some p)
      (hp : (k.eval (c.scope env s) .bool p).exec m = (.ok (.bool true), m')) :
      MatchRun k env E s pos ((c, b) :: rest) m ((k.eval (c.scope env s) E b).exec m')
  /-- A guard that gives `false` passes on to the next case. -/
  | guardFalse {c b rest m m' p r} (hc : c.Admits s) (hg : c.guard = some p)
      (hp : (k.eval (c.scope env s) .bool p).exec m = (.ok (.bool false), m'))
      (hr : MatchRun k env E s pos rest m' r) :
      MatchRun k env E s pos ((c, b) :: rest) m r
  /-- A guard that gives anything else ends the match with it. -/
  | guardOther {c b rest m m' p g} (hc : c.Admits s) (hg : c.guard = some p)
      (hp : (k.eval (c.scope env s) .bool p).exec m = (.ok g, m')) (hb : ∀ x, g ≠ .bool x) :
      MatchRun k env E s pos ((c, b) :: rest) m (.ok g, m')
  /-- A guard that halts halts the match. -/
  | guardHalt {c b rest m m' p h} (hc : c.Admits s) (hg : c.guard = some p)
      (hp : (k.eval (c.scope env s) .bool p).exec m = (.error h, m')) :
      MatchRun k env E s pos ((c, b) :: rest) m (.error h, m')

section Engine

variable {k : Engine} {env : Env} {s : Value} {c : Case} {m m' : Machine}

/-- A pattern that does not admit the subject skips its case and runs nothing. -/
theorem tryCase_of_not_admits (hc : ¬c.Admits s) : tryCase k env s c = pure .skipped := by
  cases c with
  | any => exact absurd trivial hc
  | typed name t p pos =>
    have hno : s.type.conformsTo t = false := Bool.eq_false_iff.mpr hc
    simp [tryCase, hno]
  | literal ln pos =>
    have hno : literalMatches s ln.literal = false :=
      Bool.eq_false_iff.mpr fun h => hc (literalMatches_iff.mp h)
    simp [tryCase, hno]
  | multi lits pos =>
    have hno : (lits.any fun ln => literalMatches s ln.literal) = false := by
      rw [Bool.eq_false_iff]
      intro h
      obtain ⟨ln, hln, hmatch⟩ := List.any_eq_true.mp h
      exact hc ⟨ln, hln, literalMatches_iff.mp hmatch⟩
    simp [tryCase, hno]
  | range lo hi pos =>
    simp only [tryCase]
    cases s with
    | int n =>
      have hout : ¬(lo ≤ n ∧ n ≤ hi) := fun h => hc ⟨n, rfl, h⟩
      simp [hout]
    | _ => rfl

/-- A pattern that admits the subject and has no guard selects its case. -/
theorem tryCase_of_admits (hc : c.Admits s) (hg : c.guard = none) :
    tryCase k env s c = pure (.matched (c.scope env s)) := by
  cases c with
  | any => rfl
  | typed name t p pos =>
    simp only [Case.guard] at hg
    simp only [Case.Admits] at hc
    simp [tryCase, hc, hg, Case.scope]
  | literal ln pos =>
    simp [tryCase, literalMatches_iff.mpr hc, Case.scope]
  | multi lits pos =>
    obtain ⟨ln, hln, rfl⟩ := hc
    have hyes : (lits.any fun l => literalMatches (literalValue ln.literal) l.literal) = true :=
      List.any_eq_true.mpr ⟨ln, hln, literalMatches_iff.mpr rfl⟩
    simp [tryCase, hyes, Case.scope]
  | range lo hi pos =>
    obtain ⟨n, rfl, hn⟩ := hc
    simp [tryCase, hn, Case.scope]

/-- Only a typed pattern has a guard, and once it admits the subject, trying the case runs
the guard in the case's scope under `bool` and reads the case's outcome off its value:
`true` selects the case, `false` skips it, and any other value fails it. -/
theorem tryCase_of_guard {p : Expr} (hc : c.Admits s) (hg : c.guard = some p) :
    ∃ f : Value → Eval CaseOutcome, tryCase k env s c = k.eval (c.scope env s) .bool p >>= f ∧
      f (.bool true) = pure (.matched (c.scope env s)) ∧ f (.bool false) = pure .skipped ∧
      ∀ g, (∀ x, g ≠ .bool x) → f g = pure (.failed g) := by
  cases c with
  | typed name t q pos =>
    simp only [Case.guard] at hg
    simp only [Case.Admits] at hc
    subst hg
    simp only [tryCase, hc, Case.scope, Bool.not_true, Bool.false_eq_true, if_false]
    refine ⟨_, rfl, rfl, rfl, fun g hb => ?_⟩
    cases g with
    | bool x => exact absurd rfl (hb x)
    | _ => rfl
  | _ => simp [Case.guard] at hg

/-- A guard that gives `true` selects its case. -/
theorem exec_tryCase_of_true {p : Expr} (hc : c.Admits s) (hg : c.guard = some p)
    (hp : (k.eval (c.scope env s) .bool p).exec m = (.ok (.bool true), m')) :
    (tryCase k env s c).exec m = (.ok (.matched (c.scope env s)), m') := by
  obtain ⟨f, hf, htrue, -, -⟩ := tryCase_of_guard (k := k) hc hg
  rw [hf, exec_bind, hp]
  simp only [htrue, exec_pure]

/-- A guard that gives `false` skips its case. -/
theorem exec_tryCase_of_false {p : Expr} (hc : c.Admits s) (hg : c.guard = some p)
    (hp : (k.eval (c.scope env s) .bool p).exec m = (.ok (.bool false), m')) :
    (tryCase k env s c).exec m = (.ok .skipped, m') := by
  obtain ⟨f, hf, -, hfalse, -⟩ := tryCase_of_guard (k := k) hc hg
  rw [hf, exec_bind, hp]
  simp only [hfalse, exec_pure]

/-- A guard that gives a value other than a boolean fails its case with that value. -/
theorem exec_tryCase_of_other {p : Expr} {g : Value} (hc : c.Admits s) (hg : c.guard = some p)
    (hp : (k.eval (c.scope env s) .bool p).exec m = (.ok g, m')) (hb : ∀ x, g ≠ .bool x) :
    (tryCase k env s c).exec m = (.ok (.failed g), m') := by
  obtain ⟨f, hf, -, -, hother⟩ := tryCase_of_guard (k := k) hc hg
  rw [hf, exec_bind, hp]
  simp only [hother g hb, exec_pure]

/-- Trying a case whose guard halted halts. -/
theorem exec_tryCase_of_halt {p : Expr} {h : Halt} (hc : c.Admits s) (hg : c.guard = some p)
    (hp : (k.eval (c.scope env s) .bool p).exec m = (.error h, m')) :
    (tryCase k env s c).exec m = (.error h, m') := by
  obtain ⟨f, hf, -⟩ := tryCase_of_guard (k := k) hc hg
  rw [hf, exec_bind, hp]

/-- One case of a `match`: the search goes on, stops or runs a body by what trying the
case gave. -/
theorem exec_matchCases_cons (E : Ty) (pos : Position) (b : Expr) (rest : List (Case × Expr)) :
    (matchCases k env E s pos ((c, b) :: rest)).exec m = match (tryCase k env s c).exec m with
      | (.ok (.matched env'), m') => (k.eval env' E b).exec m'
      | (.ok (.failed g), m') => (.ok g, m')
      | (.ok .skipped, m') => (matchCases k env E s pos rest).exec m'
      | (.error h, m') => (.error h, m') := by
  rw [matchCases, exec_bind]
  rcases (tryCase k env s c).exec m with ⟨_ | (_ | _ | _), m'⟩ <;> rfl

/-- Every rule derives what the search over the cases does. -/
theorem MatchRun.exec_eq {E : Ty} {pos : Position} {cases : List (Case × Expr)}
    {r : Except Halt Value × Machine} (hr : MatchRun k env E s pos cases m r) :
    (matchCases k env E s pos cases).exec m = r := by
  -- every rule is one way the search can go
  induction hr with
  | exhausted m => rfl
  | pass hc _ ih =>
    rw [exec_matchCases_cons, tryCase_of_not_admits hc, exec_pure]
    exact ih
  | select hc hg => rw [exec_matchCases_cons, tryCase_of_admits hc hg, exec_pure]
  | guardTrue hc hg hp => rw [exec_matchCases_cons, exec_tryCase_of_true hc hg hp]
  | guardFalse hc hg hp _ ih =>
    rw [exec_matchCases_cons, exec_tryCase_of_false hc hg hp]
    exact ih
  | guardOther hc hg hp hb => rw [exec_matchCases_cons, exec_tryCase_of_other hc hg hp hb]
  | guardHalt hc hg hp => rw [exec_matchCases_cons, exec_tryCase_of_halt hc hg hp]

/-- What the search over the cases does, the rules derive. -/
theorem MatchRun.of_exec (E : Ty) (pos : Position) (cases : List (Case × Expr)) (m : Machine) :
    MatchRun k env E s pos cases m ((matchCases k env E s pos cases).exec m) := by
  -- each case of the list is one rule, picked by what its pattern and guard do
  induction cases generalizing m with
  | nil => exact .exhausted m
  | cons cb rest ih =>
    obtain ⟨c, b⟩ := cb
    rw [exec_matchCases_cons]
    by_cases hc : c.Admits s
    · cases hg : c.guard with
      | none =>
        rw [tryCase_of_admits hc hg, exec_pure]
        exact .select hc hg
      | some p =>
        rcases hp : (k.eval (c.scope env s) .bool p).exec m with ⟨h | g, m'⟩
        · rw [exec_tryCase_of_halt hc hg hp]
          exact .guardHalt hc hg hp
        · -- the guard's value: `true`, `false`, or anything else
          rcases Value.bool_trichotomy g with rfl | rfl | hb
          · rw [exec_tryCase_of_true hc hg hp]
            exact .guardTrue hc hg hp
          · rw [exec_tryCase_of_false hc hg hp]
            exact .guardFalse hc hg hp (ih m')
          · rw [exec_tryCase_of_other hc hg hp hb]
            exact .guardOther hc hg hp hb
    · rw [tryCase_of_not_admits hc, exec_pure]
      exact .pass hc (ih m)

end Engine

/-- A `match` runs exactly by the first-match rules: from every machine and with every
engine, the search over its cases gives a result and a machine if and only if `MatchRun`
derives them. So the case selected is the first one whose pattern admits the subject and
whose guard, if it has one, gives `true`; guards run only for typed cases whose type the
subject conforms to, in case order, up to the selected case; a guard error ends the
match with that error; and with no such case the match reports the subject. -/
theorem first_matching_case_wins (k : Engine) (env : Env) (E : Ty) (s : Value)
    (pos : Position) (cases : List (Case × Expr)) (m : Machine)
    (r : Except Halt Value × Machine) :
    (matchCases k env E s pos cases).exec m = r ↔ MatchRun k env E s pos cases m r := by
  constructor
  · rintro rfl
    exact MatchRun.of_exec E pos cases m
  · exact MatchRun.exec_eq

end Eval

end Retl
