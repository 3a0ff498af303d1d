/-!
# UTF-8

Decoding bytes as UTF-8, strictly or with replacement. A malformed stretch is found the
way the strict decoder reports it: a byte that cannot start a character is an invalid
start byte (one byte); a lead byte whose next byte does not continue it — counting the
narrower second-byte ranges after `E0`, `ED`, `F0` and `F4` — is an invalid continuation
byte, covering the lead and the valid continuation bytes before the bad one; a character
cut off by the end of the input is unexpected end of data, covering the rest of the input.

Decoding with replacement puts one `U+FFFD` in place of each such stretch.

A file is decoded in pieces as it is read. A stretch cut off by the end of a piece is
carried over to the next piece, and an error reports its position within the piece that
holds it, the carried bytes included.
-/

namespace Retl

namespace Utf8

/-- Why a stretch of bytes is not UTF-8. -/
inductive Fault where
  | invalidStart
  | invalidContinuation
  | unexpectedEnd
  deriving DecidableEq, Repr

/-- The words a decoding error uses for its fault. -/
def Fault.text : Fault → String
  | .invalidStart => "invalid start byte"
  | .invalidContinuation => "invalid continuation byte"
  | .unexpectedEnd => "unexpected end of data"

/-- A malformed stretch: its first byte, where it starts and ends (exclusive), and why. -/
structure DecodeError where
  byte : UInt8
  start : Nat
  stop : Nat
  fault : Fault
  deriving DecidableEq, Repr

/-- Two lower-case hex digits. -/
def hexByte (b : UInt8) : String :=
  let ds := Nat.toDigits 16 b.toNat
  String.ofList (List.replicate (2 - ds.length) '0' ++ ds)

/-- The message of a decoding error: one byte is named with its value, a longer stretch
by its first and last positions. -/
def DecodeError.message (e : DecodeError) : String :=
  if e.stop = e.start + 1 then
    "'utf-8' codec can't decode byte 0x" ++ hexByte e.byte ++ " in position " ++
      toString e.start ++ ": " ++ e.fault.text
  else
    "'utf-8' codec can't decode bytes in position " ++ toString e.start ++ "-" ++
      toString (e.stop - 1) ++ ": " ++ e.fault.text

/-- Whether a byte continues a character. -/
def isCont (b : UInt8) : Bool := b &&& 0xC0 == 0x80

/-- The outcome of reading one character from the front of some bytes. -/
inductive Step where
  | char (c : Char) (width : Nat)
  | bad (fault : Fault) (width : Nat)

/-- The character of a two-, three- or four-byte sequence. -/
def combine (bs : List UInt8) : Char :=
  match bs with
  | [a, b] => Char.ofNat (((a.toNat &&& 0x1F) <<< 6) ||| (b.toNat &&& 0x3F))
  | [a, b, c] =>
    Char.ofNat (((a.toNat &&& 0x0F) <<< 12) ||| ((b.toNat &&& 0x3F) <<< 6) ||| (c.toNat &&& 0x3F))
  | [a, b, c, d] =>
    Char.ofNat (((a.toNat &&& 0x07) <<< 18) ||| ((b.toNat &&& 0x3F) <<< 12) |||
      ((c.toNat &&& 0x3F) <<< 6) ||| (d.toNat &&& 0x3F))
  | _ => '\x00'

/-- Whether `b` may follow the lead byte `lead` as its first continuation byte. -/
def secondOk (lead b : UInt8) : Bool :=
  isCont b &&
    (if lead == 0xE0 then 0xA0 ≤ b
     else if lead == 0xED then b < 0xA0
     else if lead == 0xF0 then 0x90 ≤ b
     else if lead == 0xF4 then b < 0x90
     else true)

/-- Read one character from the front of a nonempty list of bytes. -/
def step (a : UInt8) (rest : List UInt8) : Step :=
  if a < 0x80 then .char (Char.ofNat a.toNat) 1
  else if a < 0xC2 then .bad .invalidStart 1
  else
    let need := if a < 0xE0 then 1 else if a < 0xF0 then 2 else if a < 0xF5 then 3 else 0
    if need = 0 then .bad .invalidStart 1
    else
      -- the continuation bytes that are present and valid, in order
      let tail := rest.take need
      let valid := (tail.zipIdx.takeWhile fun (b, k) => if k = 0 then secondOk a b else isCont b).length
      if valid = need then .char (combine (a :: tail)) (need + 1)
      else if valid < tail.length then .bad .invalidContinuation (valid + 1)
      else .bad .unexpectedEnd (rest.length + 1)

/-- Decode bytes strictly from offset `pos`, stopping at the first malformed stretch. -/
def decodeFrom : List UInt8 → Nat → List Char → Except DecodeError String
  | [], _, acc => .ok (String.ofList acc.reverse)
  | a :: rest, pos, acc =>
    match step a rest with
    | .char c w => decodeFrom (rest.drop (w - 1)) (pos + w) (c :: acc)
    | .bad f w => .error ⟨a, pos, pos + w, f⟩
termination_by bs => bs.length

/-- Decode bytes as UTF-8, or report the first malformed stretch. -/
def decode (bs : List UInt8) : Except DecodeError String := decodeFrom bs 0 []

/-- Whether a malformed stretch at the end of a piece may still be the start of a
character that the next piece completes: a character cut off by the end, or `ED` and
one byte of `A0`-`BF`, the start of a surrogate, which is refused only once it is known
that nothing follows. -/
def unfinished (a : UInt8) (rest : List UInt8) : Fault → Bool
  | .unexpectedEnd => true
  | _ =>
    match rest with
    | [b] => a == 0xED && 0xA0 ≤ b && b ≤ 0xBF
    | _ => false

/-- Decode one piece of a longer input from offset `pos` of the piece: the characters
and the bytes left over for the next piece. The last piece (`last`) leaves nothing over:
a character cut off there is an error. -/
def decodePiece (last : Bool) : List UInt8 → Nat → List Char →
    Except DecodeError (List Char × List UInt8)
  | [], _, acc => .ok (acc.reverse, [])
  | a :: rest, pos, acc =>
    match step a rest with
    | .char c w => decodePiece last (rest.drop (w - 1)) (pos + w) (c :: acc)
    | .bad f w =>
      if !last && unfinished a rest f then .ok (acc.reverse, a :: rest)
      else .error ⟨a, pos, pos + w, f⟩
termination_by bs => bs.length

/-- How many bytes of a file are read and decoded at a time. -/
def pieceSize : Nat := 8192

/-- Decode a file's bytes the way they are read: in pieces of `pieceSize` bytes, each
decoded after the bytes the piece before left over, and then an empty last piece. The
position in an error counts from the start of the piece that holds it, left-over bytes
included. -/
def decodeStream (bs : List UInt8) : Except DecodeError String :=
  go bs [] #[]
where
  go : List UInt8 → List UInt8 → Array Char → Except DecodeError String
    | [], pending, acc =>
      match decodePiece true pending 0 [] with
      | .ok (cs, _) => .ok (String.ofList (acc.toList ++ cs))
      | .error e => .error e
    | b :: more, pending, acc =>
      match decodePiece false (pending ++ (b :: more).take pieceSize) 0 [] with
      | .ok (cs, left) => go ((b :: more).drop pieceSize) left (acc ++ cs.toArray)
      | .error e => .error e
  termination_by rest => rest.length
  decreasing_by
    simp only [List.length_drop, List.length_cons, pieceSize]
    omega

/-- Decode bytes, putting `U+FFFD` in place of each malformed stretch. -/
def decodeLossy (bs : List UInt8) : String :=
  String.ofList (go bs [])
where
  go : List UInt8 → List Char → List Char
    | [], acc => acc.reverse
    | a :: rest, acc =>
      match step a rest with
      | .char c w => go (rest.drop (w - 1)) (c :: acc)
      | .bad _ w => go (rest.drop (w - 1)) ('\uFFFD' :: acc)
  termination_by bs => bs.length

/-- The UTF-8 bytes of a text. -/
def encode (s : String) : List UInt8 := s.toUTF8.toList

end Utf8

end Retl
