import Retl.CommandLine
/-!
# The `retl` program

The command line as a program. It gives `CommandLine.run` its arguments, its standard
input and the files under the working directory, prints what the run printed, writes
back the files the run created or changed, and exits with the run's status.

An interactive session whose input is a terminal runs line by line instead, so that
each reply is printed as soon as its line is read; there, `readln` finds no input.
-/

namespace Retl

namespace Program

/-- How many directory levels below the working directory are loaded. -/
def loadDepth : Nat := 4

/-- How deeply the program's phases may nest: a thousand levels each. -/
def limits : Limits := ⟨1000, 1000, 1000⟩

/-- The files below a directory entry, by path relative to the working directory. -/
partial def loadEntry (prefixPath : String) (depth : Nat) (entry : IO.FS.DirEntry) :
    IO (List (String × List UInt8)) := do
  let rel := if prefixPath.isEmpty then entry.fileName else prefixPath ++ "/" ++ entry.fileName
  if ← entry.path.isDir then
    if depth == 0 then return []
    let mut acc := []
    for e in ← entry.path.readDir do
      acc := acc ++ (← loadEntry rel (depth - 1) e)
    return acc
  else
    try
      return [(rel, (← IO.FS.readBinFile entry.path).toList)]
    catch _ =>
      return []

/-- The files under the working directory. -/
def loadFiles : IO FileStore := do
  let mut acc := []
  for e in ← (← IO.currentDir).readDir do
    acc := acc ++ (← loadEntry "" loadDepth e)
  return FileStore.ofList acc

/-- Write the files that a run created or changed. -/
def writeBack (before after : FileStore) : IO Unit := do
  for (path, bytes) in after.files do
    if before.files.find? (·.1 == path) != some (path, bytes) then
      IO.FS.writeBinFile path ⟨bytes.toArray⟩

/-- All of standard input. -/
partial def readAll (stdin : IO.FS.Stream) (acc : String) : IO String := do
  let line ← stdin.getLine
  if line.isEmpty then return acc else readAll stdin (acc ++ line)

/-- An interactive session on a terminal, one line at a time. -/
partial def converse (stdin stdout : IO.FS.Stream) (s : Session) : IO Session := do
  stdout.putStr "retl> "
  stdout.flush
  let line ← stdin.getLine
  if line.isEmpty then
    stdout.putStr Session.farewell
    return s
  match s.handle (String.ofList (line.toList.filter (· != '\n'))) with
  | .stop => return s
  | .reply out s' =>
    stdout.putStr out
    writeBack s.machine.files s'.machine.files
    converse stdin stdout s'

end Program

end Retl

open Retl in
/-- Run the command line. -/
def main (args : List String) : IO UInt32 := do
  let stdin ← IO.getStdin
  let stdout ← IO.getStdout
  let files ← Program.loadFiles
  let terminalSession := match CommandLine.read args with
    | .run o => (o.script.filter (!·.isEmpty)).isNone && o.interactive
    | _ => false
  if terminalSession && (← stdin.isTty) then
    let debug := match CommandLine.read args with
      | .run o => o.debug
      | _ => false
    stdout.putStr (Session.banner false debug)
    let _ ← Program.converse stdin stdout (Session.start Program.limits debug [] files)
    return 0
  else
    let input ← Program.readAll stdin ""
    let finish := CommandLine.run Program.limits args input.toList files
    stdout.putStr finish.output
    Program.writeBack files finish.files
    if let some r := finish.raised then
      (← IO.getStderr).putStrLn (r.name ++ ": " ++ r.text)
    return finish.status.toUInt32
