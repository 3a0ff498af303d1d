import Retl.Session
/-!
# The command line

`retl [-h] [-i] [--parse] [--analyze] [-d] [--version] [script]` runs a script, shows
its tree (`--parse`) or its typed expression (`--analyze`), or starts an interactive
session (`-i`) on standard input. `-d` traces every phase.

Arguments are read the conventional way. A long switch may be shortened to any prefix
that names it alone; a prefix that names several ends the run at once. Short switches
may be bundled (`-di`, also written `-d=i`); a bundle that runs into a letter naming no
switch ends the run at once. The first `--` ends the switches, and a
word that looks like a negative number (in the digits of any script) or holds a space
is a plain word.

Switches and words are then taken in turn: before each switch the words in front of
it may fill the one place for the script, together with a `--` around it, and any other
word is stray. `-h` and `--version` act as soon as they are taken. A value given to a
switch that takes none ends the run at once; a stray word or unknown switch ends it
with status 2 and no output once everything has been taken.

An empty script name counts as none. A script must end in `.retl` and exist; a name too
long to look up, or a script that is a directory, raises an error out of the run. Its
text is read as UTF-8; a script that is not UTF-8 is refused with the decoder's message.
A run that reports any diagnostic prints them in red and ends with status 1.
-/

namespace Retl

namespace CommandLine

/-- The switches of the command line. -/
inductive Switch where
  | help
  | interactive
  | parse
  | analyze
  | debug
  | version
  deriving DecidableEq, Repr

/-- Every spelling of every switch, in the order they are declared. -/
def spellings : List (String × Switch) :=
  [("-h", .help), ("--help", .help), ("-i", .interactive), ("--interactive", .interactive),
   ("--parse", .parse), ("--analyze", .analyze), ("-d", .debug), ("--debug", .debug),
   ("--version", .version)]

/-- The switch a spelling names exactly. -/
def switchNamed? (s : String) : Option Switch := (spellings.find? (·.1 == s)).map Prod.snd

/-- A value attached to a switch in the same argument, after an `=` or, for a short
switch, right after its letter. -/
abbrev Attached := Option String

/-- One argument as the first pass reads it: a plain word; a word that reads as a
switch, with the switch it names (none when it names no switch), the spelling that
named it and a value attached to it; or the `--` that ends the switches. -/
inductive Arg where
  | word (s : String)
  | option (sw : Option Switch) (spelled : String) (attached : Attached)
  | separator

/-- Whether a word reads as a negative number, such as `-5`, `-.5` or `-١٢`: a minus
sign, decimal digits of any script with at most one point among them, and digits after
the point, with one line feed allowed at the very end. -/
def isNegativeNumber (s : String) : Bool :=
  let cs := s.toList
  let body := if cs.getLast? == some '\n' then cs.dropLast else cs
  match body with
  | '-' :: rest =>
    let whole := rest.takeWhile Text.isDecimal
    let frac := rest.dropWhile Text.isDecimal
    (!whole.isEmpty && frac.isEmpty) ||
      (match frac with
        | '.' :: ds => !ds.isEmpty && ds.all Text.isDecimal
        | _ => false)
  | _ => false

/-- The switches a word may abbreviate, with the value it attaches: a long word names
every switch its part before any `=` begins, and a short word names the switch of its
first letter, with the rest of the word attached. -/
def candidates (s : String) : List (Switch × String × Attached) :=
  match s.toList with
  | '-' :: '-' :: _ =>
    let (pre, attached) := match s.splitOn "=" with
      | p :: v :: more => (p, some ("=".intercalate (v :: more)))
      | _ => (s, none)
    spellings.filterMap fun (sp, sw) => if sp.startsWith pre then some (sw, sp, attached) else none
  | '-' :: c :: rest =>
    spellings.filterMap fun (sp, sw) =>
      if sp == String.ofList ['-', c] then some (sw, sp, some (String.ofList rest))
      else if sp.startsWith s then some (sw, sp, none)
      else none
  | _ => []

/-- Read one argument that stands before any `--`; nothing when it abbreviates more than
one switch, which ends the reading at once. -/
def classify (s : String) : Option Arg :=
  if s.isEmpty || !s.startsWith "-" then some (.word s)
  else match switchNamed? s with
  | some sw => some (.option (some sw) s none)
  | none =>
    if s.length == 1 then some (.word s)
    else
      let split := match s.splitOn "=" with
        | p :: v :: more =>
          (switchNamed? p).map fun sw => Arg.option (some sw) p (some ("=".intercalate (v :: more)))
        | _ => none
      match split with
      | some a => some a
      | none =>
        match candidates s with
        | [(sw, sp, attached)] => some (.option (some sw) sp attached)
        | _ :: _ :: _ => none
        | [] =>
          if isNegativeNumber s || s.contains ' ' then some (.word s)
          else some (.option none s none)

/-- Read all arguments: after the first `--` every argument is a word. -/
def classifyAll : List String → Option (List Arg)
  | [] => some []
  | "--" :: rest => some (.separator :: rest.map Arg.word)
  | s :: rest => do
    let a ← classify s
    let as ← classifyAll rest
    pure (a :: as)

/-- The switches a switch with a value attached stands for, when the value bundles more
short switches (`-di`, or `-d=i`): each letter of the value names the next switch.
Nothing when the value is refused: it follows a long switch, is empty, or holds a
letter that names no switch. -/
def bundle (sw : Switch) (spelled : String) : Attached → Nat → Option (List Switch)
  | none, _ => some [sw]
  | some _, 0 => none
  | some v, fuel + 1 =>
    match spelled.toList, v.toList with
    | [_, c], d :: more =>
      if c == '-' then none
      else match switchNamed? (String.ofList ['-', d]) with
        | some sw' =>
          (bundle sw' (String.ofList ['-', d]) (if more.isEmpty then none else some (String.ofList more))
            fuel).map (sw :: ·)
        | none => none
    | _, _ => none

/-- The settings the arguments ask for. `scriptRead` records that the place of the
script has been filled, by a word or by nothing. -/
structure Options where
  script : Option String := none
  scriptRead : Bool := false
  interactive : Bool := false
  parse : Bool := false
  analyze : Bool := false
  debug : Bool := false

/-- What reading the arguments ends in: settings to run with, help, the version, or a
usage error. -/
inductive Reading where
  | run (o : Options)
  | help
  | version
  | usageError

/-- Apply one switch to the settings, unless it acts at once. -/
def Options.apply (o : Options) : Switch → Reading ⊕ Options
  | .help => .inl .help
  | .version => .inl .version
  | .interactive => .inr { o with interactive := true }
  | .parse => .inr { o with parse := true }
  | .analyze => .inr { o with analyze := true }
  | .debug => .inr { o with debug := true }

/-- Apply switches in order until one acts. -/
def Options.applyAll (o : Options) : List Switch → Reading ⊕ Options
  | [] => .inr o
  | sw :: rest =>
    match o.apply sw with
    | .inl r => .inl r
    | .inr o' => o'.applyAll rest

/-- Whether an argument reads as a switch. -/
def Arg.isOption : Arg → Bool
  | .option _ _ _ => true
  | _ => false

/-- Fill the place of the script from offset `start`, if it is still open: the `--`
standing there, a word, and a `--` after it are taken. The place is filled even when no
word stands there. Gives the settings and the offset after what was taken. -/
def takeScript (args : Array Arg) (start : Nat) (o : Options) : Options × Nat :=
  if o.scriptRead then (o, start)
  else
    let skip := fun (i : Nat) => match args[i]? with
      | some .separator => i + 1
      | _ => i
    let i := skip start
    let (word, i) := match args[i]? with
      | some (.word s) => (some s, i + 1)
      | _ => (none, i)
    ({ o with script := word, scriptRead := true }, skip i)

/-- Read the switch at offset `start`: a word that names no switch is stray; a switch
acts at once (help, the version) or changes the settings; a value attached to a switch
must bundle more short switches, and the switches it bundles are applied in order.
Gives the settings, the offset after it and whether it was stray, or what the reading
ends in. -/
def takeOption (args : Array Arg) (start : Nat) (o : Options) : Reading ⊕ (Options × Nat × Bool) :=
  match args[start]? with
  | some (.option (some sw) spelled attached) =>
    match bundle sw spelled attached (spelled.length + (attached.map String.length).getD 0) with
    | none => .inl .usageError
    | some sws =>
      match o.applyAll sws with
      | .inl r => .inl r
      | .inr o' => .inr (o', start + 1, false)
  | _ => .inr (o, start + 1, true)

/-- Read the arguments from offset `start`, switches and the script in turn: before each
switch, the words before it may fill the place of the script, and words left over are
stray. After the last switch the script's place is filled from what follows, and
anything still left is stray. A stray word ends the reading with a usage error, once
every switch has been read. -/
def readFrom (args : Array Arg) (lastOption : Nat) : Nat → Nat → Options → Bool → Reading
  | 0, _, _, _ => .usageError
  | fuel + 1, start, o, stray =>
    if start > lastOption then
      let (o, stop) := takeScript args start o
      if stray || stop < args.size then .usageError else .run o
    else
      let nextOption := ((List.range' start (args.size - start)).find? fun i =>
        (args[i]?.map Arg.isOption).getD false).getD args.size
      let (o, start, moved) :=
        if start != nextOption then
          let (o', stop) := takeScript args start o
          (o', stop, stop > start)
        else (o, start, false)
      if moved then readFrom args lastOption fuel start o stray
      else
        let stray := stray || start < nextOption
        match takeOption args nextOption o with
        | .inl r => r
        | .inr (o, next, strayOption) =>
          readFrom args lastOption fuel next o (stray || strayOption)

/-- Read the command line. -/
def read (args : List String) : Reading :=
  match classifyAll args with
  | none => .usageError
  | some parsed =>
    let arr := parsed.toArray
    let options := (List.range arr.size).filter fun i => (arr[i]?.map Arg.isOption).getD false
    match options.getLast? with
    | none =>
      let (o, stop) := takeScript arr 0 {}
      if stop < arr.size then .usageError else .run o
    | some last => readFrom arr last (arr.size + 1) 0 {} false

/-- The help text. -/
def helpText : String :=
  "usage: retl [-h] [-i] [--parse] [--analyze] [-d] [--version] [script]\n\n" ++
  "RETL Programming Language - functional scripting for ETL-style data work\n\n" ++
  "positional arguments:\n" ++
  "  script             RETL script file to execute\n\n" ++
  "options:\n" ++
  "  -h, --help         show this help message and exit\n" ++
  "  -i, --interactive  Start interactive mode\n" ++
  "  --parse            Parse file and show CST (for debugging)\n" ++
  "  --analyze          Parse and analyze file, show AST (for debugging)\n" ++
  "  -d, --debug        Enable debug output for all stages\n" ++
  "  --version          show program's version number and exit\n\n" ++
  "Examples:\n" ++
  "  retl script.retl            # Run a RETL script\n" ++
  "  retl -i                     # Interactive mode\n" ++
  "  retl --parse script.retl    # Parse and show CST\n" ++
  "  retl --analyze script.retl  # Parse, analyze and show AST\n" ++
  "  retl --debug script.retl    # Run with debug output\n" ++
  "        \n"

/-- An error that escapes the command line instead of ending it with a message: the
class of the exception and its text. -/
structure Raised where
  name : String
  text : String

/-- The end of a command-line run: its exit status, what it printed, the files, and
the error that escaped it, if one did. -/
structure Finish where
  status : Nat
  output : String
  files : FileStore
  raised : Option Raised := none

/-- The end of a run that a file error about `path` escapes. -/
def Finish.ofFileError (e : FileError) (path : String) (files : FileStore) : Finish :=
  { status := 1, output := "", files, raised := some ⟨e.exceptionName, e.exceptionText path⟩ }

/-- Show a script's tree. -/
def showTree (lim : Limits) (path text : String) (files : FileStore) : Finish :=
  match Tree.parse lim.reading path text with
  | .error e => ⟨1, Session.diagnosticText e.diagnostic, files, none⟩
  | .ok n => ⟨0, n.dump ++ "\n", files, none⟩

/-- Show a script's typed expression and the aliases it declares. -/
def showExpr (lim : Limits) (path text : String) (debug : Bool) (files : FileStore) : Finish :=
  match Tree.parse lim.reading path text with
  | .error e => ⟨1, Session.diagnosticText e.diagnostic, files, none⟩
  | .ok n =>
    let a := analyzeProgram lim.analysis [] debug n
    match a.result with
    | none => ⟨1, a.trace ++ Session.diagnosticsText a.diagnostics, files, none⟩
    | some (e, aliases) =>
      let shown := a.trace ++ e.listing 0 ++ "\n" ++
        String.join (aliases.map fun (name, t) => "alias " ++ name ++ " = " ++ t.render ++ "\n")
      if a.diagnostics.isEmpty then ⟨0, shown, files, none⟩
      else ⟨1, shown ++ Session.diagnosticsText a.diagnostics, files, none⟩

/-- Run a script. -/
def runScript (lim : Limits) (path text : String) (debug : Bool) (input : List Char)
    (files : FileStore) : Finish :=
  let (value, m) := runSource lim path text debug (Machine.start input files)
  if !m.diagnostics.isEmpty then ⟨1, m.output ++ Session.diagnosticsText m.diagnostics, m.files, none⟩
  else
    let result := match debug, value with
      | true, some v => "Result: " ++ v.render ++ " : " ++ v.type.render ++ "\n"
      | _, _ => ""
    ⟨0, m.output ++ result, m.files, none⟩

/-- Run the command line on arguments, standard input and files, within the limits `lim`. -/
def run (lim : Limits) (args : List String) (input : List Char) (files : FileStore) : Finish :=
  match read args with
  | .usageError => ⟨2, "", files, none⟩
  | .help => ⟨0, helpText, files, none⟩
  | .version => ⟨0, Session.version ++ "\n", files, none⟩
  | .run o =>
    match o.script.filter (!·.isEmpty) with
    | some path =>
      if !path.endsWith ".retl" then
        ⟨1, "Error: RETL scripts must have the .retl extension: '" ++ path ++ "'\n", files, none⟩
      else
        match files.exists? path with
        | .error e => Finish.ofFileError e path files
        | .ok false => ⟨1, "Error: Script file '" ++ path ++ "' does not exist\n", files, none⟩
        | .ok true =>
          match files.read path with
          | .error e => Finish.ofFileError e path files
          | .ok bytes =>
            match scriptText bytes with
            | .error e =>
              ⟨1, "Error: Cannot decode file '" ++ path ++ "': " ++ e.message ++
                "\n  Hint: Make sure the file is a text file with UTF-8 encoding\n", files, none⟩
            | .ok text =>
              if o.parse then showTree lim path text files
              else if o.analyze then showExpr lim path text o.debug files
              else runScript lim path text o.debug input files
    | none =>
      if o.interactive then
        let s := Session.start lim o.debug input files
        let (out, s') := s.runInput "retl> "
        ⟨0, Session.banner true o.debug ++ out, s'.machine.files, none⟩
      else ⟨0, helpText, files, none⟩

example : (match read ["-di", "x.retl"] with
    | .run o => o.script == some "x.retl" && o.interactive && o.debug && !o.parse
    | _ => false) = true := by cbv

end CommandLine

end Retl
