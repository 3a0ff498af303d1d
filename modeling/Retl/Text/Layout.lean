import Retl.Diagnostic
/-!
# Source layout

A program is read after its tabs are expanded: each tab becomes the spaces that
reach the next multiple of eight columns, counted from the last line feed or
carriage return. Positions are then taken in the expanded text: the line is one
more than the number of line feeds before the offset, the column counts code points
from the last line feed, and the text of the line runs between the line feeds around
the offset (a carriage return stays part of the line).
-/

namespace Retl

namespace Text

/-- Expand tabs to the next multiple of eight columns. -/
def expandTabs (s : String) : List Char :=
  go s.toList 0
where
  go : List Char → Nat → List Char
    | [], _ => []
    | c :: cs, col =>
      if c == '\t' then
        let width := 8 - col % 8
        List.replicate width ' ' ++ go cs (col + width)
      else if c == '\n' || c == '\r' then c :: go cs 0
      else c :: go cs (col + 1)

example : String.ofList (expandTabs "a\tb\n\tc") = "a       b\n        c" := by decide

end Text

/-- A program text prepared for reading: its file name, its characters after tab
expansion, and the offsets of its line feeds in increasing order. -/
structure Source where
  file : String
  chars : Array Char
  lineFeeds : Array Nat

namespace Source

/-- Prepare a program text read under the name `file`. -/
def ofText (file text : String) : Source :=
  let chars := (Text.expandTabs text).toArray
  let feeds := (List.range chars.size).filter fun i => chars[i]? == some '\n'
  { file, chars, lineFeeds := feeds.toArray }

/-- The number of line feeds strictly before `offset`, found by bisection among
`lineFeeds[lo:hi]`, all before it below `lo` and none at or after `hi`. -/
def feedsBefore (src : Source) (offset : Nat) (lo hi : Nat) : Nat :=
  if h : lo < hi then
    let mid := (lo + hi) / 2
    if src.lineFeeds[mid]?.getD 0 < offset then feedsBefore src offset (mid + 1) hi
    else feedsBefore src offset lo mid
  else lo
termination_by hi - lo

/-- The position of an offset: line, column and the text of its line. -/
def positionAt (src : Source) (offset : Nat) : Position :=
  let k := src.feedsBefore offset 0 src.lineFeeds.size
  let start := if k = 0 then 0 else src.lineFeeds[k - 1]?.getD 0 + 1
  let stop := src.lineFeeds[k]?.getD src.chars.size
  { file := src.file, line := k + 1, column := offset - start + 1,
    lineText := String.ofList (src.chars.extract start stop).toList }

/-- The character at an offset, if the source has one there. -/
def at? (src : Source) (i : Nat) : Option Char := src.chars[i]?

/-- Whether the characters of `s` stand in the source from offset `i` on. -/
def hasAt (src : Source) (s : String) (i : Nat) : Bool :=
  (s.toList.zipIdx).all fun (c, k) => src.at? (i + k) == some c

/-- The offset past the characters from `i` on that satisfy `p`. -/
def scanWhile (src : Source) (p : Char → Bool) (i : Nat) : Nat :=
  if h : i < src.chars.size then
    if p src.chars[i] then src.scanWhile p (i + 1) else i
  else i
termination_by src.chars.size - i

/-- The text between two offsets. -/
def slice (src : Source) (i j : Nat) : String :=
  String.ofList (src.chars.extract i j).toList

end Source

end Retl
