import Retl.Text.Printable
/-!
# Quoted text

The quoted form in which tree listings show a text or a character: the text between
single quotes, or between double quotes when it holds a single quote and no double
quote. Inside, a backslash and the chosen quote are escaped with a backslash; tab,
line feed and carriage return are written `\t`, `\n`, `\r`; every other character
that does not print is written by its code, as `\xhh` below `U+0100`, `\uhhhh` below
`U+10000` and `\Uhhhhhhhh` above, with lower-case hex digits.
The characters that print are those of `Retl.Text.isPrintable`.
-/

namespace Retl

namespace Text

/-- The lower-case hexadecimal digits of `n`, padded with zeros to `width`. -/
def hexDigits (width n : Nat) : String :=
  let ds := Nat.toDigits 16 n
  String.ofList (List.replicate (width - ds.length) '0' ++ ds)

/-- The escaped form of one character inside quotes delimited by `quote`. -/
def escapeChar (quote c : Char) : String :=
  if c == '\\' then "\\\\"
  else if c == quote then "\\" ++ c.toString
  else if c == '\t' then "\\t"
  else if c == '\n' then "\\n"
  else if c == '\r' then "\\r"
  else if isPrintable c then c.toString
  else if c.toNat < 0x100 then "\\x" ++ hexDigits 2 c.toNat
  else if c.toNat < 0x10000 then "\\u" ++ hexDigits 4 c.toNat
  else "\\U" ++ hexDigits 8 c.toNat

/-- The quoted form of a text. -/
def quote (s : String) : String :=
  let cs := s.toList
  let q := if cs.contains '\'' && !cs.contains '"' then '"' else '\''
  q.toString ++ String.join (cs.map (escapeChar q)) ++ q.toString

example : quote "a\nb" = "'a\\nb'" := by decide
example : quote "it's" = "\"it's\"" := by decide
example : quote "\x01é" = "'\\x01é'" := by decide +kernel

end Text

end Retl
