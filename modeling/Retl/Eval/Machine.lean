import Retl.Value.Basic
import Retl.Types.Conformance
import Retl.FileStore
import Retl.Diagnostic
/-!
# The evaluation machine

Evaluation runs in a machine that keeps what a run can show: the diagnostics in the
order they were recorded, everything printed, the input still unread, the scratch files,
and how many function literals have been evaluated (which names each new function).

A step of evaluation may also halt the whole run: when it nests too deeply, or when a
fault outside the language stops it (a file that is not UTF-8). What the machine kept
up to the halt stays.

The central rule of evaluation is `conformValue`: a value reaching a context that
expects a type is retyped to the type the two agree on, or, when they do not agree,
replaced by an error value while a type diagnostic records the mismatch.
-/

namespace Retl

/-- The state a run keeps. -/
structure Machine where
  diagnostics : Array Diagnostic
  output : String
  input : List Char
  files : FileStore
  lambdas : Nat

/-- Why a run stopped before finishing. -/
inductive Halt where
  | tooDeep
  | fault (message : String)
  deriving DecidableEq, Repr

/-- The message of a halt, as the internal diagnostic that reports it. -/
def Halt.message : Halt → String
  | .tooDeep => "Maximum nesting depth exceeded during evaluation"
  | .fault m => "Internal interpreter error: " ++ m

/-- A step of evaluation. -/
abbrev Eval := ExceptT Halt (StateM Machine)

/-- Settings of a run: whether it traces the nodes it evaluates, and how many levels of
evaluation may nest before it halts as nested too deeply. -/
structure RunConfig where
  trace : Bool
  depth : Nat

namespace Eval

/-- Record a diagnostic. -/
def record (severity : Severity) (message : String) (pos : Option Position) : Eval Unit :=
  modify fun m => { m with diagnostics := m.diagnostics.push { severity, message, position := pos } }

/-- Record an evaluation diagnostic at a position and give the error value it describes. -/
def fail (message : String) (pos : Position) : Eval Value := do
  record .evaluation message (some pos)
  pure (.error message)

/-- Print text. -/
def emit (text : String) : Eval Unit :=
  modify fun m => { m with output := m.output ++ text }

/-- Print a trace line when tracing is on. -/
def trace (cfg : RunConfig) (line : String) : Eval Unit :=
  if cfg.trace then emit (line ++ "\n") else pure ()

/-- A name for the next function literal evaluated. -/
def freshLambda : Eval FuncId :=
  modifyGet fun m => (.lambda m.lambdas, { m with lambdas := m.lambdas + 1 })

/-- Read one line of input without its line feed; nothing is left after the last one. -/
def readLine : Eval String :=
  modifyGet fun m =>
    let line := m.input.takeWhile (· != '\n')
    let rest := (m.input.dropWhile (· != '\n')).drop 1
    (String.ofList line, { m with input := rest })

/-- Conform a value to the type its context expects: errors pass unchanged; otherwise
the value takes the agreed type, or becomes an error with a type diagnostic at `pos`. -/
def conformValue (v : Value) (expected : Ty) (pos : Position) : Eval Value :=
  if v.isError then pure v
  else
    match v.type.conform? expected with
    | some t => pure (if t = v.type then v else v.retype t)
    | none => do
      let message := Ty.mismatchMessage v.type expected
      record .type message (some pos)
      pure (.error message)

end Eval

end Retl
