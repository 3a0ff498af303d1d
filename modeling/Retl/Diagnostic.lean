/-!
# Diagnostics

Every phase of the pipeline reports problems as diagnostics instead of stopping:
a severity, a message and, where the problem has a place in the source, the
position of that place. A diagnostic prints as `"<Severity> error: <message>"`,
followed, when it has a position, by the line and column, the text of the line and
a caret under the column.
-/

namespace Retl

/-- Where a node of a program starts: the file name the program was read under,
the 1-based line and column (columns count code points) and the text of that line. -/
structure Position where
  file : String
  line : Nat
  column : Nat
  lineText : String
  deriving DecidableEq, Repr

namespace Position

/-- `file:line:column`, the short form used when listing nodes. -/
def render (p : Position) : String :=
  p.file ++ ":" ++ toString p.line ++ ":" ++ toString p.column

/-- The line and column, the line's text, and a caret drawn with dashes under the column. -/
def excerpt (p : Position) : String :=
  "Line: " ++ toString p.line ++ ", column: " ++ toString p.column ++ "\n" ++
    p.lineText ++ "\n" ++ String.ofList (List.replicate (p.column - 1) '-') ++ "^"

end Position

/-- The phase or rule that produced a diagnostic. -/
inductive Severity where
  | syntactic
  | semantic
  | type
  | evaluation
  | internal
  deriving DecidableEq, Repr

namespace Severity

/-- The lower-case name of a severity. -/
def name : Severity → String
  | .syntactic => "syntax"
  | .semantic => "semantic"
  | .type => "type"
  | .evaluation => "evaluation"
  | .internal => "internal"

/-- The capitalised name that starts a printed diagnostic. -/
def title : Severity → String
  | .syntactic => "Syntax"
  | .semantic => "Semantic"
  | .type => "Type"
  | .evaluation => "Evaluation"
  | .internal => "Internal"

end Severity

/-- One reported problem. -/
structure Diagnostic where
  severity : Severity
  message : String
  position : Option Position := none
  deriving DecidableEq, Repr

namespace Diagnostic

/-- The printed form of a diagnostic. -/
def format (d : Diagnostic) : String :=
  let head := d.severity.title ++ " error: " ++ d.message
  match d.position with
  | some p => head ++ "\n" ++ p.excerpt
  | none => head

example : format ⟨.type, "Type mismatch, int vs. bool", some ⟨"<input>", 2, 3, "x = y"⟩⟩ =
    "Type error: Type mismatch, int vs. bool\nLine: 2, column: 3\nx = y\n--^" := by decide

end Diagnostic

end Retl
