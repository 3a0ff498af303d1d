import Retl.Proofs.CsvRoundTrip
/-!
# Runs of one evaluation step, machine by machine

The lemmas here describe runs exactly: from a given machine to the one a step leaves,
with the value it gives. Every step of evaluation first prints its trace line when
tracing is on (`Machine.entering`); a failing step records one evaluation diagnostic
(`Machine.report`); a node evaluates its operands one after another, each from the
machine the one before it left (`RunsInOrder`); and a node whose operands include an
error gives the first of them, after all of them have run (`poisonOr`).
-/

namespace Retl

namespace Machine

/-- The machine after a trace line: printed, with a line feed, when tracing is on. -/
def afterTrace (cfg : RunConfig) (line : String) (m : Machine) : Machine :=
  if cfg.trace then m.say (line ++ "\n") else m

/-- The machine a step on `e` starts from once it has printed its trace line. -/
def entering (cfg : RunConfig) (e : Expr) (m : Machine) : Machine :=
  m.afterTrace cfg ("Evaluating: " ++ e.kind)

/-- The machine with one more evaluation diagnostic: `message` at `pos`. -/
def report (m : Machine) (message : String) (pos : Position) : Machine :=
  { m with diagnostics := m.diagnostics.push ⟨.evaluation, message, some pos⟩ }

end Machine

namespace Eval

theorem exec_trace (cfg : RunConfig) (line : String) (m : Machine) :
    (trace cfg line).exec m = (.ok (), m.afterTrace cfg line) := by
  unfold trace Machine.afterTrace
  cases cfg.trace <;> rfl

theorem exec_fail_report (message : String) (pos : Position) (m : Machine) :
    (fail message pos).exec m = (.ok (.error message), m.report message pos) :=
  exec_fail message pos m

/-- A step's run begins with its trace line; what follows runs from the machine that
leaves. -/
theorem exec_trace_bind {β : Type} (cfg : RunConfig) (e : Expr) (f : Unit → Eval β) (m : Machine) :
    (trace cfg ("Evaluating: " ++ e.kind) >>= f).exec m = (f ()).exec (m.entering cfg e) := by
  rw [exec_bind, exec_trace]
  rfl

/-- Running the steps `xs` one after another from `m` gives the values `vs`, one each and
in order, and leaves `m'`: each step runs from the machine the one before it left, and
none of them halts. -/
inductive RunsInOrder {α : Type} : List (Eval α) → Machine → List α → Machine → Prop
  | nil (m : Machine) : RunsInOrder [] m [] m
  | cons {x : Eval α} {xs : List (Eval α)} {m m₁ m' : Machine} {v : α} {vs : List α} :
      x.exec m = (.ok v, m₁) → RunsInOrder xs m₁ vs m' → RunsInOrder (x :: xs) m (v :: vs) m'

namespace RunsInOrder

variable {α β : Type}

/-- `mapM` runs its steps in order; `g` is the step function written as the caller has
it, equal at every point to the one `mapM` is given. -/
theorem exec_mapM {f g : β → Eval α} (hf : ∀ b, f b = g b) :
    ∀ {bs : List β} {m : Machine} {vs : List α} {m' : Machine},
      RunsInOrder (bs.map g) m vs m' → (bs.mapM f).exec m = (.ok vs, m')
  | [], _, _, _, .nil _ => rfl
  | _ :: _, _, _, _, .cons hx hxs => by
    rw [List.mapM_cons, exec_bind, hf, hx]
    dsimp only
    rw [exec_bind, exec_mapM hf hxs]
    rfl

/-- `forM` runs its steps in order and keeps nothing of what they give. -/
theorem exec_forM {f : β → Eval α} :
    ∀ {bs : List β} {m : Machine} {vs : List α} {m' : Machine},
      RunsInOrder (bs.map f) m vs m' → (bs.forM fun b => discard (f b)).exec m = (.ok (), m')
  | [], _, _, _, .nil _ => rfl
  | _ :: bs, _, _, _, .cons hx hxs => by
    -- `discard` is a bind that drops the value
    show ((f _ >>= fun _ => pure ()) >>= fun _ => bs.forM fun b => discard (f b)).exec _ = _
    rw [exec_bind, exec_bind, hx]
    exact exec_forM hxs

/-- Steps that each run two steps and pair what they give: running the pairs' halves one
after another, interleaved, gives the pairs. -/
theorem pairs {f : β → Eval (α × α)} {x y : β → Eval α}
    (hf : ∀ b m, (f b).exec m = (x b >>= fun u => y b >>= fun w => pure (u, w)).exec m) :
    ∀ {bs : List β} {m : Machine} {qs : List (α × α)} {m' : Machine},
      RunsInOrder (bs.flatMap fun b => [x b, y b]) m (qs.flatMap fun q => [q.1, q.2]) m' →
      RunsInOrder (bs.map f) m qs m'
  | [], _, qs, _, h => by
    cases qs with
    | nil => cases h; exact .nil _
    | cons q qs => cases h
  | b :: bs, _, qs, _, h => by
    cases qs with
    | nil => cases h
    | cons q qs =>
      obtain ⟨u, w⟩ := q
      rcases h with _ | ⟨hu, _ | ⟨hw, hrest⟩⟩
      refine .cons ?_ (pairs hf hrest)
      rw [hf, exec_bind, hu]
      dsimp only
      rw [exec_bind, hw]
      rfl

end RunsInOrder

/-- What a node whose operands gave `vs`, leaving `m`, goes on with: the first error among
them, as it is, or else what `next` gives from `m`. -/
def poisonOr (vs : List Value) (next : Eval Value) (m : Machine) : Except Halt Value × Machine :=
  (firstError vs).elim (next.exec m) fun bad => (.ok bad, m)

theorem poisonOr_of_some {vs : List Value} {bad : Value} (h : firstError vs = some bad)
    (next : Eval Value) (m : Machine) : poisonOr vs next m = (.ok bad, m) := by
  rw [poisonOr, h]
  rfl

theorem poisonOr_of_none {vs : List Value} (h : firstError vs = none) (next : Eval Value)
    (m : Machine) : poisonOr vs next m = next.exec m := by
  rw [poisonOr, h]
  rfl

end Eval

end Retl
