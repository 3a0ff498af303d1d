/-!
# Blank characters

The characters that count as blank when text is trimmed or when a range pattern
allows space around its `..`: the ASCII tab, line feed, vertical tab, form feed and
carriage return, the four ASCII separators `U+001C`–`U+001F`, the space, and the
Unicode space and line separators (`U+0085`, `U+00A0`, `U+1680`, `U+2000`–`U+200A`,
`U+2028`, `U+2029`, `U+202F`, `U+205F`, `U+3000`): twenty-nine characters in all.
-/

namespace Retl

namespace Text

/-- Whether a character is blank in the sense of this module. -/
def isBlank (c : Char) : Bool :=
  let n := c.toNat
  (0x09 ≤ n && n ≤ 0x0D) || (0x1C ≤ n && n ≤ 0x20) || n == 0x85 || n == 0xA0 ||
    n == 0x1680 || (0x2000 ≤ n && n ≤ 0x200A) || n == 0x2028 || n == 0x2029 ||
    n == 0x202F || n == 0x205F || n == 0x3000

/-- A text with its blank characters removed from both ends. -/
def trimBlank (s : String) : String :=
  String.ofList ((s.toList.dropWhile isBlank).reverse.dropWhile isBlank).reverse

example : trimBlank "  9\t\n" = "9" := by decide
example : trimBlank "\uFEFF1 " = "\uFEFF1" := by decide

end Text

end Retl
