import Retl.Text.Utf8
import Retl.Text.Quoted
/-!
# The scratch file store

The files a run can read and write: a directory of files, each a relative path and
its bytes. Directories are implied by the paths of the files under them; the store's
own root is a directory too, and so is every directory above it, which holds nothing
the store knows of.

A path is looked up the way the system looks it up, one component at a time, from the
root for a relative path. Empty components (from doubled slashes) are skipped, `.`
stays where it is and `..` goes one level up. Every component but the last must name a
directory: a missing one fails with "No such file or directory", a file with "Not a
directory". A component longer than 255 bytes fails with "File name too long" when it
is looked up, and so does a path of 4096 bytes or more, before anything is looked up.
A path holding a null character is refused before it reaches the system at all.

The last component is looked up by what is done with it:

* reading: a directory fails with "Is a directory"; a path that ends with a slash
  must name a directory, so a file there fails with "Not a directory";
* writing, which creates the file when it is missing: a path that ends with a slash,
  or whose last component is `.` or `..`, or that names a directory, fails with "Is a
  directory". A file written outside the store's root is written, but is not one of the
  store's files;
* asking whether something is there: a missing entry or a file on the way is a plain
  no, while a name that is too long is an error.
-/

namespace Retl

/-- A store of files by relative path, in the order they were first written. -/
structure FileStore where
  files : List (String × List UInt8)

/-- Why a path could not be opened. -/
inductive FileError where
  | notFound
  | notDirectory
  | isDirectory
  | nameTooLong
  | nullCharacter
  deriving DecidableEq, Repr

namespace FileError

/-- The system's words for a file error. -/
def reason : FileError → String
  | .notFound => "No such file or directory"
  | .notDirectory => "Not a directory"
  | .isDirectory => "Is a directory"
  | .nameTooLong => "File name too long"
  | .nullCharacter => "embedded null byte"

/-- The system's number for a file error; a null character is refused before the
system is asked, and has none. -/
def number? : FileError → Option Nat
  | .notFound => some 2
  | .notDirectory => some 20
  | .isDirectory => some 21
  | .nameTooLong => some 36
  | .nullCharacter => none

/-- The class of the exception that carries a file error. -/
def exceptionName : FileError → String
  | .notFound => "FileNotFoundError"
  | .notDirectory => "NotADirectoryError"
  | .isDirectory => "IsADirectoryError"
  | .nameTooLong => "OSError"
  | .nullCharacter => "ValueError"

/-- The text of the exception that carries a file error about `path`: the number, the
words and the quoted path for a system error. -/
def exceptionText (e : FileError) (path : String) : String :=
  match e.number? with
  | some n => "[Errno " ++ toString n ++ "] " ++ e.reason ++ ": " ++ Text.quote path
  | none => e.reason

end FileError

/-- A directory a path lookup stands in: one of the store, by its components from the
root, or one above the root. -/
inductive Place where
  | inside (dir : List String)
  | outside
  deriving DecidableEq, Repr

/-- The last component of a path, once the components before it are looked up: the
directory it is in, the component, and whether slashes follow it. A path of slashes
alone has no last component. -/
structure LastStep where
  dir : Place
  name : Option String
  slash : Bool

/-- What a path names when it is opened for reading or asked about. -/
inductive Target where
  | directory
  | file (path : String)
  | missing

namespace FileStore

/-- An empty store. -/
def empty : FileStore := ⟨[]⟩

/-- The most bytes a path may have; longer paths are refused whole. -/
def maxPathBytes : Nat := 4095

/-- The most bytes a component may have. -/
def maxNameBytes : Nat := 255

/-- The relative path of components. -/
def joinPath (segs : List String) : String := "/".intercalate segs

/-- Whether a path is a file of the store. -/
def isFile (st : FileStore) (p : String) : Bool := st.files.any fun f => f.1 == p

/-- Whether a path is a directory of the store: the root, or a prefix of a file's path. -/
def isDir (st : FileStore) (p : String) : Bool :=
  p.isEmpty || st.files.any fun f => f.1.startsWith (p ++ "/")

/-- What the component `name` names in the directory `here`. -/
def lookup (st : FileStore) (here : Place) (name : String) : Except FileError Target :=
  if name.utf8ByteSize > maxNameBytes then .error .nameTooLong
  else
    match here with
    | .outside => pure .missing
    | .inside dir =>
      let p := joinPath (dir ++ [name])
      if st.isFile p then pure (.file p)
      else if st.isDir p then pure .directory
      else pure .missing

/-- Go from the directory `here` through one component that must name a directory. -/
def enter (st : FileStore) (here : Place) (name : String) : Except FileError Place :=
  if name == "." then pure here
  else if name == ".." then
    match here with
    | .inside [] => pure .outside
    | .inside dir => pure (.inside dir.dropLast)
    | .outside => pure .outside
  else do
    match ← st.lookup here name with
    | .directory =>
      match here with
      | .inside dir => pure (.inside (dir ++ [name]))
      | .outside => pure .outside
    | .file _ => throw .notDirectory
    | .missing => throw .notFound

/-- Look up every component of a path but the last. -/
def walk (st : FileStore) (path : String) : Except FileError LastStep := do
  if path.contains '\x00' then throw .nullCharacter
  if path.utf8ByteSize > maxPathBytes then throw .nameTooLong
  if path.isEmpty then throw .notFound
  let start := if path.startsWith "/" then Place.outside else .inside []
  let parts := (path.splitOn "/").filter fun s => !s.isEmpty
  match parts.getLast? with
  | none => pure ⟨start, none, true⟩
  | some last =>
    let dir ← parts.dropLast.foldlM st.enter start
    pure ⟨dir, some last, path.endsWith "/"⟩

/-- What a path names: a directory, a file of the store, or nothing. A path that ends
with a slash names a file only as an error. -/
def resolve (st : FileStore) (path : String) : Except FileError Target := do
  let s ← st.walk path
  match s.name with
  | none => pure .directory
  | some name =>
    if name == "." || name == ".." then pure .directory
    else
      match ← st.lookup s.dir name with
      | .file p => if s.slash then throw .notDirectory else pure (.file p)
      | t => pure t

/-- The bytes of the file at a path. -/
def read (st : FileStore) (path : String) : Except FileError (List UInt8) := do
  match ← st.resolve path with
  | .file p =>
    match st.files.find? fun f => f.1 == p with
    | some (_, bytes) => pure bytes
    | none => throw .notFound
  | .directory => throw .isDirectory
  | .missing => throw .notFound

/-- Replace or add the file at a path of the store. -/
def store (st : FileStore) (p : String) (bytes : List UInt8) : FileStore :=
  if st.isFile p then ⟨st.files.map fun f => if f.1 == p then (p, bytes) else f⟩
  else ⟨st.files ++ [(p, bytes)]⟩

/-- Write the bytes of the file at a path, creating it or replacing what it held. -/
def write (st : FileStore) (path : String) (bytes : List UInt8) : Except FileError FileStore := do
  let s ← st.walk path
  match s.name with
  | none => throw .isDirectory
  | some name =>
    if name == "." || name == ".." || s.slash then throw .isDirectory
    match ← st.lookup s.dir name with
    | .directory => throw .isDirectory
    | .file p => pure (st.store p bytes)
    | .missing =>
      match s.dir with
      | .inside dir => pure (st.store (joinPath (dir ++ [name])) bytes)
      | .outside => pure st

/-- Whether something, a file or a directory, is at a path: a missing component or a file
on the way is a plain no, as is a path with a null character, while a name that is too
long is an error. -/
def exists? (st : FileStore) (path : String) : Except FileError Bool :=
  match st.resolve path with
  | .ok .missing => pure false
  | .ok _ => pure true
  | .error .nameTooLong => throw .nameTooLong
  | .error _ => pure false

/-- Put a file at a path with no check on its directories; an existing file there is
replaced. Empty components and `.` are skipped; a path that climbs with `..` or is
absolute names no file of the store and is ignored. -/
def put (st : FileStore) (path : String) (bytes : List UInt8) : FileStore :=
  let parts := (path.splitOn "/").filter fun s => !s.isEmpty && s != "."
  if path.startsWith "/" || parts.isEmpty || parts.contains ".." then st
  else st.store (joinPath parts) bytes

/-- A store of the given files, put in order. -/
def ofList (entries : List (String × List UInt8)) : FileStore :=
  entries.foldl (fun st e => st.put e.1 e.2) empty

/-- The files of the store sorted by path. -/
def listing (st : FileStore) : List (String × List UInt8) :=
  st.files.mergeSort fun a b => decide (a.1 ≤ b.1)

end FileStore

end Retl
