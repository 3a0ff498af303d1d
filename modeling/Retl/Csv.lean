/-!
# Comma-separated values

Reading and writing records of text fields, comma-separated, with double quotes.

Reading splits the text into lines at `\n`, `\r\n` or a lone `\r`. A record is the fields
of one line, or of several when a quoted field spans line breaks; a blank line is a record
with no fields. A field that starts with a double quote runs to the next quote that is not
doubled, a doubled quote standing for one quote, and text after its closing quote up to the
next comma joins the field. A quote inside an unquoted field is an ordinary character. At
the end of the text an open quoted field ends its record. A field may hold at most
`fieldLimit` characters; reading stops at the first character past it.

Writing ends every record with `\r\n`. A field is quoted when it holds a comma, a double
quote, a carriage return or a line feed, with its double quotes doubled; a record whose
only field is empty is written as `""`.
-/

namespace Retl

namespace Csv

/-- Where the reader stands inside a record. -/
inductive ReadState where
  | startRecord
  | startField
  | inField
  | inQuoted
  | quoteInQuoted
  | eatLineEnd
  | overflow
  deriving DecidableEq, Repr

/-- The most characters a field may hold. -/
def fieldLimit : Nat := 131072

/-- The reader's progress: its state, the fields of the record so far, the current
field's characters (reversed) and how many they are, and the finished records
(reversed). -/
structure Reader where
  state : ReadState
  fields : List String
  field : List Char
  size : Nat
  records : List (List String)

namespace Reader

/-- Finish the current field. -/
def saveField (r : Reader) : Reader :=
  { r with fields := r.fields ++ [String.ofList r.field.reverse], field := [], size := 0 }

/-- Finish the current record. -/
def saveRecord (r : Reader) : Reader :=
  { r with records := r.fields :: r.records, fields := [] }

/-- Add a character to the current field, unless the field is full. -/
def add (r : Reader) (c : Char) : Reader :=
  if r.size ≥ fieldLimit then { r with state := .overflow }
  else { r with field := c :: r.field, size := r.size + 1 }

/-- Go to state `s`, unless the field has overflowed. -/
def moveTo (r : Reader) (s : ReadState) : Reader :=
  if r.state == .overflow then r else { r with state := s }

/-- Feed one character of a line. -/
def feed (r : Reader) (c : Char) : Reader :=
  let lineEnd := c == '\n' || c == '\r'
  match r.state with
  | .startRecord | .startField =>
    if lineEnd then
      if r.state == .startRecord then { r with state := .eatLineEnd }
      else { r.saveField with state := .eatLineEnd }
    else if c == '"' then { r with state := .inQuoted }
    else if c == ',' then { r.saveField with state := .startField }
    else (r.add c).moveTo .inField
  | .inField =>
    if lineEnd then { r.saveField with state := .eatLineEnd }
    else if c == ',' then { r.saveField with state := .startField }
    else r.add c
  | .inQuoted => if c == '"' then { r with state := .quoteInQuoted } else r.add c
  | .quoteInQuoted =>
    if c == '"' then (r.add c).moveTo .inQuoted
    else if c == ',' then { r.saveField with state := .startField }
    else if lineEnd then { r.saveField with state := .eatLineEnd }
    else (r.add c).moveTo .inField
  | .eatLineEnd | .overflow => r

/-- The end of a line. A record ends here unless a quoted field is open. -/
def endLine (r : Reader) : Reader :=
  match r.state with
  | .startRecord | .eatLineEnd => { r.saveRecord with state := .startRecord }
  | .startField | .inField | .quoteInQuoted => { r.saveField.saveRecord with state := .startRecord }
  | .inQuoted | .overflow => r

/-- The end of the text: an open quoted field, or a started field, ends its record. -/
def finish (r : Reader) : List (List String) :=
  let r := if r.state == .inQuoted || !r.field.isEmpty then r.saveField.saveRecord else r
  r.records.reverse

end Reader

/-- The lines of a text, each with its line break: a line ends after `\n`, after `\r\n`,
or after a `\r` not followed by `\n`. -/
def lines (s : String) : List (List Char) :=
  go s.toList [] []
where
  go : List Char → List Char → List (List Char) → List (List Char)
    | [], [], acc => acc.reverse
    | [], cur, acc => (cur.reverse :: acc).reverse
    | '\r' :: '\n' :: rest, cur, acc => go rest [] (('\n' :: '\r' :: cur).reverse :: acc)
    | '\r' :: rest, cur, acc => go rest [] (('\r' :: cur).reverse :: acc)
    | '\n' :: rest, cur, acc => go rest [] (('\n' :: cur).reverse :: acc)
    | c :: rest, cur, acc => go rest (c :: cur) acc

/-- The records of a text, or nothing when a field holds more than `fieldLimit`
characters. -/
def read (s : String) : Option (List (List String)) :=
  let start : Reader := ⟨.startRecord, [], [], 0, []⟩
  let r := (lines s).foldl (fun r line => (line.foldl Reader.feed r).endLine) start
  if r.state == .overflow then none else some r.finish

/-- The complaint about a field longer than `fieldLimit`. -/
def fieldLimitMessage : String :=
  "field larger than field limit (" ++ toString fieldLimit ++ ")"

/-- Whether a field must be written in quotes. -/
def needsQuotes (field : String) : Bool :=
  field.toList.any fun c => c == ',' || c == '"' || c == '\r' || c == '\n'

/-- The written form of one field. -/
def writeField (field : String) : String :=
  if needsQuotes field then
    "\"" ++ String.join (field.toList.map fun c => if c == '"' then "\"\"" else c.toString) ++ "\""
  else field

/-- The written form of one record, with its line break. -/
def writeRecord (fields : List String) : String :=
  (if fields == [""] then "\"\"" else ",".intercalate (fields.map writeField)) ++ "\r\n"

/-- The written form of records. -/
def write (records : List (List String)) : String :=
  String.join (records.map writeRecord)

example : read "a,\"b,c\"\r\n\n\"x\"\"y\"z" = [["a", "b,c"], [], ["x\"yz"]] := by decide
example : write [["a,b", "q\"t"], [""]] = "\"a,b\",\"q\"\"t\"\r\n\"\"\r\n" := by decide

end Csv

end Retl
