import Retl.Eval.Interpret
import Retl.Tree.Parse
import Retl.Expr.Analyze
import Retl.Text.Utf8
/-!
# Running a program

A program text goes through three phases: reading it into a tree, analysing the tree
into a typed expression, and evaluating that expression in the root scope. A phase runs
only when the phases before it reported nothing, so a program with a syntax error or a
semantic diagnostic has no value. With tracing on, a banner announces each phase, and
analysis and evaluation name every node they visit.

Each phase nests one level per construct it enters and gives up on a program that
nests deeper than its budget allows (`Limits`). The budgets stand for the stack the host
gives the program, so nothing here fixes them: they are the program's parameters.

A script file is read as UTF-8, strictly, and its line ends are unified: `\r\n` and a
lone `\r` both become `\n`.
-/

namespace Retl

namespace Machine

/-- A machine that has printed and recorded nothing yet. -/
def start (input : List Char) (files : FileStore) : Machine := ⟨#[], "", input, files, 0⟩

/-- Print text on a machine's output. -/
def say (m : Machine) (text : String) : Machine := { m with output := m.output ++ text }

/-- Record diagnostics. -/
def recordAll (m : Machine) (ds : Array Diagnostic) : Machine :=
  { m with diagnostics := m.diagnostics ++ ds }

end Machine

/-- How many levels each phase may nest: reading, analysis and evaluation. -/
structure Limits where
  reading : Nat
  analysis : Nat
  evaluation : Nat

/-- Run an evaluation step on a machine. -/
def Eval.exec {α : Type} (x : Eval α) (m : Machine) : Except Halt α × Machine :=
  (x.run.run m).run

/-- The banner that announces a phase. -/
def phaseBanner (phase file : String) : String := "=== " ++ phase ++ " " ++ file ++ " ==="

/-- Run a program text, read under the name `file` within the limits `lim`: the value,
when evaluation ran, and the machine after the run. -/
def runSource (lim : Limits) (file text : String) (debug : Bool) (m : Machine) :
    Option Value × Machine :=
  let banner (phase : String) (m : Machine) :=
    if debug then m.say (phaseBanner phase file ++ "\n") else m
  let m := banner "Parsing" m
  match Tree.parse lim.reading file text with
  | .error e => (none, m.recordAll #[e.diagnostic])
  | .ok n =>
    let m := banner "Analyzing" m
    let a := analyzeProgram lim.analysis [] debug n
    let m := (m.say a.trace).recordAll a.diagnostics
    match a.result with
    | some (e, _) =>
      if a.diagnostics.isEmpty then
        let m := banner "Evaluating" m
        match (Eval.runProgram ⟨debug, lim.evaluation⟩ Env.root e).exec m with
        | (.ok v, m) => (some v, m)
        | (.error h, m) => (some (.error h.message), m)
      else (none, m)
    | none => (none, m)

/-- Unify line ends: `\r\n` and a lone `\r` become `\n`. -/
def unifyLineEnds : List Char → List Char
  | '\r' :: '\n' :: rest => '\n' :: unifyLineEnds rest
  | '\r' :: rest => '\n' :: unifyLineEnds rest
  | c :: rest => c :: unifyLineEnds rest
  | [] => []

/-- The text of a script file: its bytes read as UTF-8, with line ends unified. -/
def scriptText (bytes : List UInt8) : Except Utf8.DecodeError String :=
  (Utf8.decode bytes).map fun s => String.ofList (unifyLineEnds s.toList)

example : unifyLineEnds "a\r\nb\rc\n".toList = "a\nb\nc\n".toList := by decide

end Retl
