import Retl.Tree.Basic
import Retl.Text.Layout
import Retl.Text.Blank
import Retl.Text.Decimal
/-!
# Reading tokens

The token level of the grammar. A reader looks at a prepared `Source` from an offset
and either reads a value and the offset after it, misses, or stops: the program nests
too deeply, or an integer literal is too long to convert. Readers combine in order:
`r <|> s` tries `s` only where `r` missed, and a repetition takes as many items as
read, one after another. A stop ends all reading at once, wherever it happens.

An integer literal is converted to its number as soon as it is read, and a decimal
text of more than `Text.maxDigits` digits is refused then, even where the reading
around it would later be given up for another alternative.

A string literal's escapes are read as the grammar's quoted-string reader reads them:
`\t`, `\n`, `\f` and `\r` are the control characters; a backslash, one octal digit and
a `3` stand for the digit and the `3`; `\0` is the null character; `\x`, one
hexadecimal digit and a `2` is the character with code `16 * h + 2`; `\u`, one
hexadecimal digit and a `4` the character with code `16 * h + 4`; and any other
escaped character stands for itself.

Before every token the reader passes over blanks and comments. The blanks are space,
tab, line feed and carriage return; a comment runs from `//` to the end of its line,
and a backslash right before the line feed carries it on to the next line.

A keyword is read only where no letter, digit, `_` or `$` stands right before or
right after it, and an identifier is never a keyword.
-/

namespace Retl

namespace Tree

/-- Why reading stopped without reading the program, as opposed to missing. -/
inductive Stop where
  /-- The program nests more deeply than reading follows. -/
  | tooDeep
  /-- An integer literal has `count` digits, more than a decimal text converted to a
  number may have (`Text.maxDigits`). -/
  | tooManyDigits (count : Nat)
  deriving DecidableEq, Repr

/-- The outcome of reading at an offset. -/
inductive Reading (α : Type) where
  | read (value : α) (next : Nat)
  | miss
  | stop (why : Stop)

/-- A reader of values of type `α` from an offset of a source. -/
def Reader (α : Type) : Type := Source → Nat → Reading α

namespace Reader

instance : Monad Reader where
  pure a := fun _ i => .read a i
  bind r f := fun src i =>
    match r src i with
    | .read a j => f a src j
    | .miss => .miss
    | .stop w => .stop w

/-- Read with `r`, and where it misses, with `s` from the same offset. -/
def orElse (r : Reader α) (s : Unit → Reader α) : Reader α := fun src i =>
  match r src i with
  | .miss => s () src i
  | x => x

instance : OrElse (Reader α) := ⟨orElse⟩

/-- A reader that always misses. -/
def fail : Reader α := fun _ _ => .miss

/-- A reader that gives up: the program nests too deeply. -/
def tooDeep : Reader α := fun _ _ => .stop .tooDeep

/-- Read with `r` if it reads; otherwise read nothing. -/
def optional (r : Reader α) : Reader (Option α) :=
  (some <$> r) <|> pure none

/-- Read with `r` as often as it reads, each time where the last left off. Every
reader this is used with consumes input when it reads, so the offset bounds the
number of rounds. -/
def many (r : Reader α) : Reader (List α) := fun src i =>
  go src (src.chars.size + 1 - i) i []
where
  go (src : Source) : Nat → Nat → List α → Reading (List α)
    | 0, i, acc => .read acc.reverse i
    | fuel + 1, i, acc =>
      match r src i with
      | .read a j => if i < j then go src fuel j (a :: acc) else .read (a :: acc).reverse j
      | .miss => .read acc.reverse i
      | .stop w => .stop w

/-- Read with `r` once, then as often as it reads. -/
def many1 (r : Reader α) : Reader (List α) := do
  let a ← r
  let as ← many r
  pure (a :: as)

/-- Read `r`, then any number of further `r`, each after the separator `sep`. -/
def sepBy1 (r : Reader α) (sep : Reader Unit) : Reader (List α) := do
  let a ← r
  let as ← many (do sep; r)
  pure (a :: as)

end Reader

/-- Characters that continue a word: ASCII letters and digits, `_` and `$`. -/
def isWordChar (c : Char) : Bool :=
  c.isAlphanum || c == '_' || c == '$'

/-- The offset past the blanks and comments that start at `i`; `inComment` says
whether `i` lies inside a comment. -/
def skipBlankFrom (src : Source) (i : Nat) (inComment : Bool) : Nat :=
  if h : i < src.chars.size then
    let c := src.chars[i]
    if inComment then
      if c == '\\' && src.at? (i + 1) == some '\n' then skipBlankFrom src (i + 2) true
      else if c == '\n' then skipBlankFrom src (i + 1) false
      else skipBlankFrom src (i + 1) true
    else if c == ' ' || c == '\t' || c == '\n' || c == '\r' then skipBlankFrom src (i + 1) false
    else if c == '/' && src.at? (i + 1) == some '/' then skipBlankFrom src (i + 2) true
    else i
  else i
termination_by src.chars.size - i

/-- The offset past the blanks and comments that start at `i`. -/
def skipBlank (src : Source) (i : Nat) : Nat := skipBlankFrom src i false

/-- The offset where the next token starts. -/
def tokenStart : Reader Nat := fun src i => let j := skipBlank src i; .read j j

/-- The position of the next token. -/
def tokenPosition : Reader Position := fun src i =>
  let j := skipBlank src i
  .read (src.positionAt j) j

/-- Read the exact text `s` as the next token. -/
def symbol (s : String) : Reader Unit := fun src i =>
  let j := skipBlank src i
  if src.hasAt s j then .read () (j + s.length) else .miss

/-- Whether the keyword `k` stands at offset `j`, with no word character right
before or right after it. -/
def keywordAt (src : Source) (k : String) (j : Nat) : Bool :=
  src.hasAt k j &&
    (j == 0 || !((src.at? (j - 1)).map isWordChar).getD false) &&
    !((src.at? (j + k.length)).map isWordChar).getD false

/-- Read the keyword `k` as the next token. -/
def keyword (k : String) : Reader Unit := fun src i =>
  let j := skipBlank src i
  if keywordAt src k j then .read () (j + k.length) else .miss

/-- The reserved words of the language. -/
def keywords : List String :=
  ["let", "alias", "if", "else", "match", "case", "foreach", "in", "schema",
   "true", "false", "null", "int", "bool", "char", "string", "list", "dict",
   "tuple", "union", "lambda", "any"]

/-- Read the first of `ks` whose spelling stands as a keyword at the next token. -/
def oneKeyword {α : Type} (spell : α → String) (ks : List α) : Reader α := fun src i =>
  let j := skipBlank src i
  match ks.find? fun k => keywordAt src (spell k) j with
  | some k => .read k (j + (spell k).length)
  | none => .miss

/-- Read an identifier: a letter followed by letters, digits and `_`, or `_` followed
by at least one of them; never a keyword. -/
def identifier : Reader String := fun src i =>
  let j := skipBlank src i
  if keywords.any fun k => keywordAt src k j then .miss
  else
    let isTail := fun c : Char => c.isAlphanum || c == '_'
    match src.at? j with
    | some c =>
      if c.isAlpha then
        let k := src.scanWhile isTail (j + 1)
        .read (src.slice j k) k
      else if c == '_' then
        let k := src.scanWhile isTail (j + 1)
        if k > j + 1 then .read (src.slice j k) k else .miss
      else .miss
    | none => .miss

/-- The value of a run of decimal digits, of any script. -/
def digitsValue (ds : List Char) : Nat :=
  ds.foldl (fun n d => 10 * n + (Text.digitValue? d).getD 0) 0

/-- A run of decimal digits read from a source: how many digits it has, the number
they write (with a minus sign, where one was read) and the offset after them. -/
structure Numeral (α : Type) where
  count : Nat
  value : α
  next : Nat

/-- The outcome of converting a numeral: its number, unless it has more digits than a
decimal text converted to a number may have. -/
def Numeral.reading (n : Numeral α) : Reading α :=
  if n.count > Text.maxDigits then .stop (.tooManyDigits n.count) else .read n.value n.next

/-- Read a run of decimal digits, of any script, starting exactly at `j` (no blanks
first). -/
def digitsAt (src : Source) (j : Nat) : Option (Numeral Nat) :=
  let k := src.scanWhile Text.isDecimal j
  if k > j then some ⟨k - j, digitsValue (src.chars.extract j k).toList, k⟩ else none

/-- Read an unsigned integer literal. -/
def natural : Reader Nat := fun src i =>
  match digitsAt src (skipBlank src i) with
  | some n => n.reading
  | none => .miss

/-- Read an integer with an optional minus sign written right before its digits, starting
exactly at `j`; the sign is not one of the digits counted. -/
def signedAt (src : Source) (j : Nat) : Option (Numeral Int) :=
  if src.at? j == some '-' then
    (digitsAt src (j + 1)).map fun n => ⟨n.count, -(n.value : Int), n.next⟩
  else
    (digitsAt src j).map fun n => ⟨n.count, (n.value : Int), n.next⟩

/-- Read a signed integer literal, as patterns write it. -/
def signed : Reader Int := fun src i =>
  match signedAt src (skipBlank src i) with
  | some n => n.reading
  | none => .miss

/-- The character a backslash escape in a character literal stands for. -/
def charEscape (c : Char) : Char :=
  match c with
  | 'n' => '\n'
  | 't' => '\t'
  | 'r' => '\r'
  | '0' => '\x00'
  | c => c

/-- Read a character literal: one character other than a quote or backslash, or a
backslash and any character but a line feed, between single quotes. -/
def charLiteral : Reader Char := fun src i =>
  let j := skipBlank src i
  if src.at? j != some '\'' then .miss
  else
    match src.at? (j + 1) with
    | some '\\' =>
      match src.at? (j + 2) with
      | some c => if c != '\n' && src.at? (j + 3) == some '\'' then .read (charEscape c) (j + 4)
                  else .miss
      | none => .miss
    | some '\'' => .miss
    | some c => if src.at? (j + 2) == some '\'' then .read c (j + 3) else .miss
    | none => .miss

/-- The value of an ASCII hexadecimal digit. -/
def hexValue? (c : Char) : Option Nat :=
  if '0' ≤ c && c ≤ '9' then some (c.toNat - '0'.toNat)
  else if 'a' ≤ c && c ≤ 'f' then some (c.toNat - 'a'.toNat + 10)
  else if 'A' ≤ c && c ≤ 'F' then some (c.toNat - 'A'.toNat + 10)
  else none

/-- The character of code `16 * h + low` for the hexadecimal digit `d` standing at
offset `j`, when the character after it is `last`. -/
def hexPair (src : Source) (j : Nat) (last : Char) (low : Nat) : Option Char :=
  match src.at? j >>= hexValue? with
  | some h => if src.at? (j + 1) == some last then some (Char.ofNat (16 * h + low)) else none
  | none => none

/-- The escape that starts with the backslash at offset `j` of a string literal: the
characters it stands for and how many characters it takes after the backslash; nothing
for a backslash before a line feed or at the end of the text. -/
def stringEscape (src : Source) (j : Nat) : Option (List Char × Nat) :=
  match src.at? (j + 1) with
  | none => none
  | some '\n' => none
  | some 't' => some (['\t'], 1)
  | some 'n' => some (['\n'], 1)
  | some 'f' => some (['\x0c'], 1)
  | some 'r' => some (['\r'], 1)
  | some e =>
    if '0' ≤ e && e ≤ '7' && src.at? (j + 2) == some '3' then some ([e, '3'], 2)
    else if e == '0' then some (['\x00'], 1)
    else if e == 'x' then
      match hexPair src (j + 2) '2' 2 with
      | some c => some ([c], 3)
      | none => some ([e], 1)
    else if e == 'u' then
      match hexPair src (j + 2) '4' 4 with
      | some c => some ([c], 3)
      | none => some ([e], 1)
    else some ([e], 1)

/-- The body of a string literal from offset `j` to its closing quote: the characters
it stands for and the offset past the quote. A raw line feed or carriage return, or
a backslash before a line feed, ends the reading without a literal. -/
def stringBody (src : Source) (j : Nat) (acc : List Char) : Option (List Char × Nat) :=
  if h : j < src.chars.size then
    let c := src.chars[j]
    if c == '"' then some (acc.reverse, j + 1)
    else if c == '\n' || c == '\r' then none
    else if c == '\\' then
      match stringEscape src j with
      | some (cs, w) => stringBody src (j + 1 + w) (cs.reverse ++ acc)
      | none => none
    else stringBody src (j + 1) (c :: acc)
  else none
termination_by src.chars.size - j

/-- Read a string literal between double quotes. -/
def stringLiteral : Reader String := fun src i =>
  let j := skipBlank src i
  if src.at? j != some '"' then .miss
  else
    match stringBody src (j + 1) [] with
    | some (cs, k) => .read (String.ofList cs) k
    | none => .miss

/-- Read an inclusive range `low..high` of signed integers, with blanks allowed around
the two dots. -/
def rangeBounds : Reader (Int × Int) := fun src i =>
  let j := skipBlank src i
  match signedAt src j with
  | none => .miss
  | some lo =>
    let k := src.scanWhile Text.isBlank lo.next
    if src.hasAt ".." k then
      match signedAt src (src.scanWhile Text.isBlank (k + 2)) with
      | some hi =>
        if lo.count > Text.maxDigits then .stop (.tooManyDigits lo.count)
        else ({ hi with value := (lo.value, hi.value) } : Numeral (Int × Int)).reading
      | none => .miss
    else .miss

/-- Read a tuple field access `.n`. -/
def fieldIndex : Reader Nat := fun src i =>
  let j := skipBlank src i
  if src.at? j == some '.' then
    match digitsAt src (j + 1) with
    | some n => n.reading
    | none => .miss
  else .miss

/-- Read `=` standing alone, not as the start of `==` or `=>`. -/
def equalsSign : Reader Unit := fun src i =>
  let j := skipBlank src i
  if src.at? j == some '=' && src.at? (j + 1) != some '=' && src.at? (j + 1) != some '>' then
    .read () (j + 1)
  else .miss

/-- Read the first of the given operator symbols that stands at the next token. -/
def operator (ops : List (String × PrimOp)) : Reader PrimOp := fun src i =>
  let j := skipBlank src i
  match ops.find? fun (s, _) => src.hasAt s j with
  | some (s, op) => .read op (j + s.length)
  | none => .miss

end Tree

end Retl
