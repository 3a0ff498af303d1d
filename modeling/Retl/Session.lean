import Retl.Pipeline
import Retl.Tree.Outline
import Retl.Expr.Dump
import Retl.Text.Blank
/-!
# Interactive sessions

A session reads a program per line and keeps what the lines before it bound: their
`let` bindings and their aliases. A line changes the session's scope and aliases only
when it reported no diagnostic at all; what a line did outside the program (printing,
reading input, writing files) stays in any case, while the functions a dropped line made
are forgotten with it.

Each line is trimmed first. `exit` ends the session; an empty line does nothing;
`:help` prints the commands, `:env` the user's bindings; `:parse code` prints the tree
of `code` and `:analyze code` its typed expression and diagnostics. Any other line is
run, and its value is printed with its type unless it is `null`. Diagnostics print in
red, one after another.
-/

namespace Retl

/-- A session's state between lines, with the limits every line runs within. -/
structure Session where
  env : Env
  aliases : Aliases
  machine : Machine
  debug : Bool
  limits : Limits

namespace Session

/-- The version a session and the command line announce. -/
def version : String := "RETL v0.3.0"

/-- A new session with the builtins in scope. -/
def start (lim : Limits) (debug : Bool) (input : List Char) (files : FileStore) : Session :=
  ⟨Env.root, [], Machine.start input files, debug, lim⟩

/-- What a session prints before its first prompt. -/
def banner (lineEditing debug : Bool) : String :=
  version ++ " - Interactive Mode\nType 'exit' to quit, ':help' for commands\n" ++
    (if lineEditing then "Readline enabled: Use ↑/↓ for history, Tab for completion\n" else "") ++
    (if debug then "Debug mode enabled\n" else "") ++ "\n"

/-- What a session prints when its input ends. -/
def farewell : String := "\nGoodbye!\n"

/-- The text of `:help`. -/
def helpText : String :=
  "REPL Commands:\n" ++
  "  :parse <code>     - Show parsed CST\n" ++
  "  :analyze <code>   - Show analyzed AST\n" ++
  "  :env              - Show current bindings\n" ++
  "  :help             - Show this help\n" ++
  "  exit              - Exit REPL\n" ++
  "\n" ++
  "Language features:\n" ++
  "  let x = 5; x + 3                    - Binding with continuation\n" ++
  "  let f = \\x: int -> int \x7b x * 2 \x7d    - Lambda\n" ++
  "  map(f, [1, 2, 3])                   - Builtin call\n" ++
  "  [1, 2, 3] |> map(f)                 - Pipeline\n" ++
  "  match x \x7b case 1..5 => \"small\", case _ => \"big\" \x7d\n"

/-- A diagnostic as a session prints it: in red, on lines of its own. -/
def diagnosticText (d : Diagnostic) : String := "\x1b[31m" ++ d.format ++ "\x1b[0m\n"

/-- Diagnostics as a session prints them. -/
def diagnosticsText (ds : Array Diagnostic) : String :=
  ds.foldl (fun acc d => acc ++ diagnosticText d) ""

/-- A value's text cut to 60 characters: longer texts keep 57 and end in `...`. -/
def clip (s : String) : String :=
  if s.length > 60 then String.ofList (s.toList.take 57) ++ "..." else s

/-- The user's bindings in a scope, innermost first: builtins and the names of
statements are left out. -/
def bindingsText (env : Env) : String :=
  let names := env.names.filter fun n =>
    !(Builtin.all.any fun b => b.name == n) && !n.startsWith "dummy$"
  if names.isEmpty then "  (no user-defined bindings)\n"
  else
    String.join <| names.map fun n =>
      match env.lookup n with
      | some v => "  " ++ n ++ " = " ++ clip v.render ++ " : " ++ v.type.render ++ "\n"
      | none => ""

/-- What is done with a line's code: run it, or show its tree or its typed expression. -/
inductive Command where
  | run
  | showTree
  | showExpr

/-- The command of a trimmed line and the code it applies to. -/
def command (line : String) : Command × String :=
  if line.startsWith ":parse " then (.showTree, String.ofList (line.toList.drop 7))
  else if line.startsWith ":analyze " then (.showExpr, String.ofList (line.toList.drop 9))
  else (.run, line)

/-- What a line asks for once trimmed: the end of the session, a blank line, help, the
bindings, or code to show or to run. -/
inductive Request where
  | exit
  | blank
  | help
  | showEnv
  | code (cmd : Command) (code : String)

/-- What a line asks for. -/
def request (line : String) : Request :=
  let line := Text.trimBlank line
  if line == "exit" then .exit
  else if line.isEmpty then .blank
  else if line == ":help" then .help
  else if line == ":env" then .showEnv
  else
    let (cmd, code) := command line
    .code cmd code

/-- What handling a line did: the text it printed ahead of its diagnostics, the
diagnostics it reported, which are printed last and in red, and the session after it. -/
structure Turn where
  printed : String
  diagnostics : Array Diagnostic
  next : Session

/-- Everything a turn printed. -/
def Turn.output (t : Turn) : String := t.printed ++ diagnosticsText t.diagnostics

/-- What handling a line leads to: the end of the session, or the text printed and the
session after it. -/
inductive Reply where
  | stop
  | reply (output : String) (next : Session)

/-- The machine after a line that is dropped: what the line read and wrote stays, its
diagnostics and text are printed and cleared, and the count of functions made goes back
to where the session had it. -/
def drop (s : Session) (m : Machine) : Machine :=
  { m with diagnostics := #[], output := "", lambdas := s.machine.lambdas }

/-- Run code as a line of the session. A line whose evaluation reports a diagnostic is
dropped whole: the session keeps its scope and aliases, and the functions the line made,
which nothing can reach any more, are forgotten with it, so the count that names new
functions goes back. -/
def runCode (s : Session) (cmd : Command) (code : String) : Turn :=
  match Tree.parse s.limits.reading "<repl>" code with
  | .error e => ⟨"", #[e.diagnostic], s⟩
  | .ok n =>
    match cmd with
    | .showTree => ⟨n.dump ++ "\n", #[], s⟩
    | _ =>
      let a := analyzeProgram s.limits.analysis s.aliases s.debug n
      match a.result with
      | none => ⟨a.trace, a.diagnostics, s⟩
      | some (e, aliases) =>
        let shown := match cmd with
          | .showExpr => a.trace ++ e.listing 0 ++ "\n"
          | _ => a.trace
        if !a.diagnostics.isEmpty then ⟨shown, a.diagnostics, s⟩
        else match cmd with
          | .showExpr => ⟨shown, #[], s⟩
          | _ =>
            let m := { s.machine with diagnostics := #[], output := shown }
            match (Eval.runTopLevel ⟨s.debug, s.limits.evaluation⟩ s.env e).exec m with
            | (.ok (v, env), m) =>
              if !m.diagnostics.isEmpty then
                ⟨m.output, m.diagnostics, { s with machine := s.drop m }⟩
              else
                let echo := match v with
                  | .null => ""
                  | v => "=> " ++ v.render ++ " : " ++ v.type.render ++ "\n"
                ⟨m.output ++ echo, #[],
                  { s with env, aliases, machine := { m with diagnostics := #[], output := "" } }⟩
            | (.error _, m) => ⟨m.output, m.diagnostics, { s with machine := s.drop m }⟩

/-- The turn a line makes; `exit` makes none, and ends the session. -/
def turn (s : Session) (line : String) : Option Turn :=
  match request line with
  | .exit => none
  | .blank => some ⟨"", #[], s⟩
  | .help => some ⟨helpText, #[], s⟩
  | .showEnv => some ⟨"Current environment:\n" ++ bindingsText s.env, #[], s⟩
  | .code cmd code => some (s.runCode cmd code)

/-- Handle one line of input. -/
def handle (s : Session) (line : String) : Reply :=
  match s.turn line with
  | none => .stop
  | some t => .reply t.output t.next

/-- A session fed the given lines: what each line printed, up to an `exit`, and what
was printed at the end (the farewell when the lines ran out). -/
def feed (s : Session) : List String → List String × String × Session
  | [] => ([], farewell, s)
  | line :: rest =>
    match s.handle line with
    | .stop => ([], "", s)
    | .reply out s' =>
      let (outs, ending, s'') := feed s' rest
      (out :: outs, ending, s'')

/-- Take the next line from a session's input, without its line feed; nothing when the
input has ended. -/
def nextLine (s : Session) : Option (String × Session) :=
  match s.machine.input with
  | [] => none
  | input =>
    let line := input.takeWhile (· != '\n')
    let rest := (input.dropWhile (· != '\n')).drop 1
    some (String.ofList line, { s with machine := { s.machine with input := rest } })

/-- A session reading its lines from its own input, printing `prompt` before each
read: everything printed. Every line read shortens the input, so `fuel` at the input's
length plus one lets it reach the end. -/
def loop (prompt : String) : Nat → Session → String × Session
  | 0, s => ("", s)
  | fuel + 1, s =>
    match s.nextLine with
    | none => (prompt ++ farewell, s)
    | some (line, s') =>
      match s'.handle line with
      | .stop => (prompt, s')
      | .reply out s'' =>
        let (rest, s''') := loop prompt fuel s''
        (prompt ++ out ++ rest, s''')

/-- Run a session on its own input to the end. -/
def runInput (prompt : String) (s : Session) : String × Session :=
  loop prompt (s.machine.input.length + 1) s

end Session

end Retl
