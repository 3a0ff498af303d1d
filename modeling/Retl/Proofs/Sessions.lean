import Retl.Proofs.ErrorReporting
import Retl.Session
/-!
# What a session binds

A session keeps the bindings of a line only when the line recorded no diagnostic, and it
runs the line on a machine whose diagnostics it has just emptied. A line that gives an
unclean binding records a diagnostic on the way, so the bindings it would commit are
dropped with it; the session's scope, clean at the start, stays clean line after line.

A line walks the links of its statement chain (`Eval.walkBindings`); `Eval.walkLinks` is the
same walk by recursion on the chain itself, so that a run of a line can be computed outright.
-/

namespace Retl

namespace Eval

/-- The links of a statement chain, walked one by one: `walkBindings` on a chain that is
there. -/
def walkLinks (k : Engine) : Env → Expr → Eval (Option Expr × Env)
  | env, .bind name t value next _ => do
    let v ← k.eval env t value
    match next with
    | none => pure (none, env.bind name v)
    | some n => walkLinks k (env.bind name v) n
  | env, .aliasType _ _ next _ =>
    match next with
    | none => pure (none, env)
    | some n => walkLinks k env n
  | env, e => pure (some e, env)

theorem walkBindings_none (k : Engine) (env : Env) : walkBindings k env none = pure (none, env) :=
  walkBindings.eq_3 k env none (fun _ _ _ _ _ h => by cases h) (fun _ _ _ _ h => by cases h)

theorem walkBindings_some (k : Engine) (env : Env) (e : Expr) :
    walkBindings k env (some e) = walkLinks k env e := by
  fun_induction walkLinks k env e with
  | case1 env name t value next pos ih =>
    rw [walkBindings.eq_1]
    congr 1
    funext v
    cases next with
    | none => exact walkBindings_none k _
    | some n => exact ih v
  | case2 env name t pos => rw [walkBindings.eq_2, walkBindings_none]
  | case3 env name t pos n ih => rw [walkBindings.eq_2, ih]
  | case4 env e hbind halias =>
    exact walkBindings.eq_3 k env (some e)
      (fun _ _ _ _ _ h => hbind _ _ _ _ _ (Option.some.inj h))
      (fun _ _ _ _ h => halias _ _ _ _ (Option.some.inj h))

end Eval


namespace Session

theorem runCode_clean (s : Session) (cmd : Command) (code : String) (h : s.env.Clean) :
    (s.runCode cmd code).next.env.Clean := by
  unfold runCode
  split
  · exact h
  split
  · exact h
  dsimp only
  split
  · exact h
  split
  · exact h
  split
  · exact h
  split
  next v env m hexec =>
    split
    · exact h
    next hempty =>
      -- the line ran from no diagnostics and recorded none, so its scope is clean
      have hnone : m.diagnostics.size = 0 := by simpa using hempty
      by_contra hno
      rcases (Eval.runTopLevel_blames _ _ _).2 _ _ _ hexec (fun hc => hno hc.2) with hB | hlt
      · exact hB h
      · simp [hnone] at hlt
  next => exact h

theorem turn_clean {s : Session} {line : String} {t : Turn} (h : s.env.Clean)
    (ht : s.turn line = some t) : t.next.env.Clean := by
  unfold turn at ht
  split at ht <;> cases ht
  all_goals first | exact h | exact runCode_clean s _ _ h

theorem handle_clean {s s' : Session} {line out : String} (h : s.env.Clean)
    (hr : s.handle line = .reply out s') : s'.env.Clean := by
  unfold handle at hr
  split at hr
  · cases hr
  next t ht =>
    obtain ⟨-, rfl⟩ := Reply.reply.inj hr
    exact turn_clean h ht

theorem feed_clean (lines : List String) : ∀ s : Session, s.env.Clean → (s.feed lines).2.2.env.Clean := by
  induction lines with
  | nil =>
    intro s h
    exact h
  | cons line rest ih =>
    intro s h
    unfold feed
    split
    · exact h
    next out s' hr => exact ih s' (handle_clean h hr)

theorem nextLine_env {s s' : Session} {line : String} (h : s.nextLine = some (line, s')) :
    s'.env = s.env := by
  unfold nextLine at h
  split at h
  · cases h
  · cases h
    rfl

theorem loop_clean (prompt : String) (fuel : Nat) : ∀ s : Session, s.env.Clean →
    (s.loop prompt fuel).2.env.Clean := by
  induction fuel with
  | zero =>
    intro s h
    exact h
  | succ fuel ih =>
    intro s h
    unfold loop
    split
    · exact h
    next line s' hnext =>
      have h' : s'.env.Clean := by
        rw [nextLine_env hnext]
        exact h
      split
      · exact h'
      next out s'' hr => exact ih s'' (handle_clean h' hr)

end Session

/-- No silent failure. Evaluated in a scope from which no error can be reached, an
expression only appends diagnostics, and it gives a value from which an error can be reached
(an error value first of all) only after appending at least one. A program run from the root
scope gives such a value only with a diagnostic, and a session, from its start and after any
lines, binds no error. -/
theorem errors_come_with_diagnostics (cfg : RunConfig) :
    (∀ n env E e, Env.Clean env → ∀ m v m', (Eval.eval n cfg env E e).exec m = (.ok v, m') →
      m.diagnostics.toList <+: m'.diagnostics.toList ∧
        (¬v.Clean → m.diagnostics.size < m'.diagnostics.size)) ∧
    (∀ lim file text debug m v m', runSource lim file text debug m = (some v, m') → ¬v.Clean →
      m'.diagnostics ≠ #[]) ∧
    (∀ lim debug input files prompt fuel,
      ((Session.start lim debug input files).loop prompt fuel).2.env.Clean) ∧
    (∀ lim debug input files lines,
      ((Session.start lim debug input files).feed lines).2.2.env.Clean) := by
  refine ⟨fun n env E e henv m v m' hexec => ?_, fun lim file text debug m v m' h hv => ?_,
    fun lim debug input files prompt fuel => ?_, fun lim debug input files lines => ?_⟩
  · have hk := Eval.engine_honest cfg n
    refine ⟨(hk.eval env E e).grows hexec, fun hv => ?_⟩
    rcases (hk.eval env E e).2 m v m' hexec hv with hB | hlt
    · exact absurd henv hB
    · exact hlt
  · have hpos := runSource_reports h hv
    intro hempty
    rw [hempty] at hpos
    exact Nat.lt_irrefl 0 hpos
  · exact Session.loop_clean prompt fuel _ Env.clean_root
  · exact Session.feed_clean lines _ Env.clean_root

end Retl
