import Mathlib
import Retl.Text.Utf8
/-!
# Decoding what was encoded

Decoding the UTF-8 bytes of a text gives the text back, also when the bytes are decoded in
pieces the way a file is read (`decodeStream_encode`).

One step of the decoder reads the bytes of one character back as that character, whatever
follows them (`step_utf8EncodeChar`); a piece that ends inside a character stops there with
the character cut off, which the decoder of a piece leaves over for the next piece
(`step_utf8EncodeChar_cut`). So every prefix of an encoded text decodes, as one piece, into
the characters it holds whole and leaves over the bytes of the one it cuts
(`decodePiece_take`), and the pieces of a stream join up (`decodeStream_go`).
-/

namespace Retl

namespace Utf8

/-- The bytes of characters, one after the other. -/
def encodeChars (cs : List Char) : List UInt8 := cs.flatMap String.utf8EncodeChar

@[simp] theorem encodeChars_nil : encodeChars [] = [] := rfl

@[simp] theorem encodeChars_cons (c : Char) (cs : List Char) :
    encodeChars (c :: cs) = String.utf8EncodeChar c ++ encodeChars cs := rfl

theorem toList_loop (b : ByteArray) (i : Nat) (r : List UInt8) :
    ByteArray.toList.loop b i r = r.reverse ++ b.data.toList.drop i := by
  induction i, r using ByteArray.toList.loop.induct b with
  | case1 i r hi ih =>
    have hlen : i < b.data.toList.length := by simpa using hi
    rw [ByteArray.toList.loop, if_pos hi, ih, List.drop_eq_getElem_cons hlen]
    simp [ByteArray.get!, hi]
  | case2 i r hi =>
    rw [ByteArray.toList.loop, if_neg hi, List.drop_eq_nil_of_le (by simpa using hi)]
    simp

/-- The bytes of a text are those of its characters. -/
theorem encode_eq (s : String) : encode s = encodeChars s.toList := by
  have hs : s.toByteArray = (encodeChars s.toList).toByteArray :=
    calc s.toByteArray = (String.ofList s.toList).toByteArray := by rw [String.ofList_toList]
      _ = (encodeChars s.toList).toByteArray := String.toByteArray_ofList
  rw [encode, String.toUTF8_eq_toByteArray, hs, ByteArray.toList, toList_loop,
    List.data_toByteArray]
  simp

/-! ## One character -/

/-- How many continuation bytes a lead byte asks for; none for a byte that leads nothing. -/
def need (a : UInt8) : Nat :=
  if a < 0xE0 then 1 else if a < 0xF0 then 2 else if a < 0xF5 then 3 else 0

/-- Bytes that a lead byte accepts after it: the first in the range the lead byte narrows
it to, the others continuation bytes. -/
def Continues (a : UInt8) : List UInt8 → Prop
  | [] => True
  | b :: bs => secondOk a b = true ∧ ∀ x ∈ bs, isCont x = true

theorem Continues.take {a : UInt8} {bs : List UInt8} (h : Continues a bs) (k : Nat) :
    Continues a (bs.take k) := by
  cases bs with
  | nil => simp [Continues]
  | cons b bs =>
    cases k with
    | zero => simp [Continues]
    | succ k => exact ⟨h.1, fun x hx => h.2 x (List.mem_of_mem_take hx)⟩

/-- Every byte that a lead byte accepts passes the decoder's test at its position. -/
theorem takeWhile_continues {a : UInt8} {bs : List UInt8} (h : Continues a bs) :
    (bs.zipIdx.takeWhile fun (b, k) => if k = 0 then secondOk a b else isCont b) = bs.zipIdx := by
  apply List.takeWhile_eq_self_iff.mpr
  cases bs with
  | nil => simp
  | cons b bs =>
    rintro ⟨x, k⟩ hp
    simp only [List.zipIdx_cons, List.mem_cons, Prod.mk.injEq] at hp
    rcases hp with ⟨rfl, rfl⟩ | hp
    · simpa using h.1
    · -- past the first position only continuation bytes are asked for
      obtain ⟨hk, -, hx⟩ := List.mem_zipIdx hp
      simp only [if_neg (show k ≠ 0 by omega), hx]
      exact h.2 _ (List.getElem_mem _)

/-- A lead byte followed by the bytes it asks for, all accepted, is one character. -/
theorem step_lead {a : UInt8} (h80 : ¬a < 0x80) (hC2 : ¬a < 0xC2) {bs : List UInt8}
    (hneed : need a = bs.length) (hbs : bs ≠ []) (hcont : Continues a bs) (rest : List UInt8) :
    step a (bs ++ rest) = .char (combine (a :: bs)) (bs.length + 1) := by
  have hpos : bs.length ≠ 0 := by simpa using hbs
  have htake : (bs ++ rest).take bs.length = bs := List.take_left' rfl
  unfold step
  simp only [need] at hneed
  simp only [h80, hC2, if_false, hneed, hpos, htake, takeWhile_continues hcont,
    List.length_zipIdx, if_true]

/-- A lead byte followed by fewer bytes than it asks for, all accepted, is a character cut off
by the end. -/
theorem step_lead_cut {a : UInt8} (h80 : ¬a < 0x80) (hC2 : ¬a < 0xC2) {bs : List UInt8}
    (hshort : bs.length < need a) (hcont : Continues a bs) :
    step a bs = .bad .unexpectedEnd (bs.length + 1) := by
  have htake : bs.take (need a) = bs := List.take_of_length_le (by omega)
  unfold step
  simp only [need] at hshort htake
  generalize (if a < 0xE0 then 1 else if a < 0xF0 then 2 else if a < 0xF5 then 3 else 0) = n at *
  simp only [h80, hC2, if_false, htake, takeWhile_continues hcont, List.length_zipIdx]
  rw [if_neg (by omega), if_neg (by omega), if_neg (by omega)]

/-! The lead bytes of two-, three- and four-byte characters and the second bytes they accept:
facts about a few hundred byte values, checked one by one. -/

theorem lead_two : ∀ t < 32, 2 ≤ t →
    ¬UInt8.ofNat (t + 192) < 0x80 ∧ ¬UInt8.ofNat (t + 192) < 0xC2 ∧
      need (UInt8.ofNat (t + 192)) = 1 ∧
      ∀ u < 64, secondOk (UInt8.ofNat (t + 192)) (UInt8.ofNat (u + 128)) = true := by
  decide

theorem lead_three : ∀ t < 16,
    ¬UInt8.ofNat (t + 224) < 0x80 ∧ ¬UInt8.ofNat (t + 224) < 0xC2 ∧
      need (UInt8.ofNat (t + 224)) = 2 ∧
      ∀ u < 64, (t = 0 → 32 ≤ u) → (t = 13 → u < 32) →
        secondOk (UInt8.ofNat (t + 224)) (UInt8.ofNat (u + 128)) = true := by
  decide

theorem lead_four : ∀ t < 5,
    ¬UInt8.ofNat (t + 240) < 0x80 ∧ ¬UInt8.ofNat (t + 240) < 0xC2 ∧
      need (UInt8.ofNat (t + 240)) = 3 ∧
      ∀ u < 64, (t = 0 → 16 ≤ u) → (t = 4 → u < 16) →
        secondOk (UInt8.ofNat (t + 240)) (UInt8.ofNat (u + 128)) = true := by
  decide

theorem isCont_ofNat : ∀ u < 64, isCont (UInt8.ofNat (u + 128)) = true := by
  decide

theorem and_mask {x m : Nat} (k : Nat) (hm : m + 1 = 2 ^ k) : x &&& m = x % (m + 1) := by
  rw [hm, ← Nat.and_two_pow_sub_one_eq_mod, ← hm, Nat.add_sub_cancel]

/-- Bits below `2 ^ k` join bits above it by addition. -/
theorem or_eq_add {x y : Nat} (k : Nat) (hx : x % 2 ^ k = 0) (hy : y < 2 ^ k) :
    x ||| y = x + y := by
  obtain ⟨q, rfl⟩ := Nat.dvd_of_mod_eq_zero hx
  exact (Nat.two_pow_add_eq_or_of_lt hy q).symm

theorem combine_two {t u : Nat} (ht : t < 32) (hu : u < 64) :
    combine [UInt8.ofNat (t + 192), UInt8.ofNat (u + 128)] = Char.ofNat (t * 64 + u) := by
  have ha : (t + 192) &&& 0x1F = t := by rw [and_mask 5 rfl]; omega
  have hb : (u + 128) &&& 0x3F = u := by rw [and_mask 6 rfl]; omega
  have hor : t <<< 6 ||| u = t * 64 + u := by
    rw [Nat.shiftLeft_eq, or_eq_add 6 (by simp) (by simpa using hu)]
  simp only [combine, UInt8.toNat_ofNat_of_lt' (show t + 192 < UInt8.size by simp [UInt8.size]; omega),
    UInt8.toNat_ofNat_of_lt' (show u + 128 < UInt8.size by simp [UInt8.size]; omega), ha, hb, hor]

theorem combine_three {t u w : Nat} (ht : t < 16) (hu : u < 64) (hw : w < 64) :
    combine [UInt8.ofNat (t + 224), UInt8.ofNat (u + 128), UInt8.ofNat (w + 128)] =
      Char.ofNat (t * 4096 + u * 64 + w) := by
  have ha : (t + 224) &&& 0x0F = t := by rw [and_mask 4 rfl]; omega
  have hb : (u + 128) &&& 0x3F = u := by rw [and_mask 6 rfl]; omega
  have hc : (w + 128) &&& 0x3F = w := by rw [and_mask 6 rfl]; omega
  have hor : t <<< 12 ||| u <<< 6 ||| w = t * 4096 + u * 64 + w := by
    rw [Nat.shiftLeft_eq, Nat.shiftLeft_eq, or_eq_add (x := t * 2 ^ 12) 12 (by simp) (by simp; omega),
      or_eq_add 6 (by simp; omega) (by simpa using hw)]
  simp only [combine, UInt8.toNat_ofNat_of_lt' (show t + 224 < UInt8.size by simp [UInt8.size]; omega),
    UInt8.toNat_ofNat_of_lt' (show u + 128 < UInt8.size by simp [UInt8.size]; omega),
    UInt8.toNat_ofNat_of_lt' (show w + 128 < UInt8.size by simp [UInt8.size]; omega), ha, hb, hc, hor]

theorem combine_four {t u w x : Nat} (ht : t < 8) (hu : u < 64) (hw : w < 64) (hx : x < 64) :
    combine [UInt8.ofNat (t + 240), UInt8.ofNat (u + 128), UInt8.ofNat (w + 128),
      UInt8.ofNat (x + 128)] = Char.ofNat (t * 262144 + u * 4096 + w * 64 + x) := by
  have ha : (t + 240) &&& 0x07 = t := by rw [and_mask 3 rfl]; omega
  have hb : (u + 128) &&& 0x3F = u := by rw [and_mask 6 rfl]; omega
  have hc : (w + 128) &&& 0x3F = w := by rw [and_mask 6 rfl]; omega
  have hd : (x + 128) &&& 0x3F = x := by rw [and_mask 6 rfl]; omega
  have hor : t <<< 18 ||| u <<< 12 ||| w <<< 6 ||| x = t * 262144 + u * 4096 + w * 64 + x := by
    rw [Nat.shiftLeft_eq, Nat.shiftLeft_eq, Nat.shiftLeft_eq,
      or_eq_add (x := t * 2 ^ 18) 18 (by simp) (by simp; omega),
      or_eq_add (y := w * 2 ^ 6) 12 (by simp; omega) (by simp; omega),
      or_eq_add 6 (by simp; omega) (by simpa using hx)]
  simp only [combine, UInt8.toNat_ofNat_of_lt' (show t + 240 < UInt8.size by simp [UInt8.size]; omega),
    UInt8.toNat_ofNat_of_lt' (show u + 128 < UInt8.size by simp [UInt8.size]; omega),
    UInt8.toNat_ofNat_of_lt' (show w + 128 < UInt8.size by simp [UInt8.size]; omega),
    UInt8.toNat_ofNat_of_lt' (show x + 128 < UInt8.size by simp [UInt8.size]; omega), ha, hb, hc, hd, hor]

/-- A character past ASCII is a lead byte and the continuation bytes it asks for, which
combine back into the character. -/
theorem utf8EncodeChar_lead (c : Char) (hc : 0x7f < c.toNat) :
    ∃ a bs, String.utf8EncodeChar c = a :: bs ∧ ¬a < 0x80 ∧ ¬a < 0xC2 ∧ need a = bs.length ∧
      bs ≠ [] ∧ Continues a bs ∧ combine (a :: bs) = c := by
  have hv : c.val.toNat = c.toNat := rfl
  have hvalid : c.toNat < 0xd800 ∨ (0xdfff < c.toNat ∧ c.toNat < 0x110000) := c.valid
  have hback : ∀ n, n = c.toNat → Char.ofNat n = c := fun n hn => hn ▸ Char.ofNat_toNat c
  simp only [String.utf8EncodeChar, hv]
  rw [if_neg (by omega)]
  split
  next h2 =>
    obtain ⟨h80, hC2, hneed, hsecond⟩ := lead_two (c.toNat / 64 % 32) (by omega) (by omega)
    refine ⟨_, _, rfl, h80, hC2, hneed, List.cons_ne_nil _ _,
      ⟨hsecond _ (by omega), by simp⟩, ?_⟩
    rw [combine_two (by omega) (by omega)]
    exact hback _ (by omega)
  split
  next h2 h3 =>
    -- the surrogates are no characters, so the lead byte `ED` is followed by less than `A0`
    obtain ⟨h80, hC2, hneed, hsecond⟩ := lead_three (c.toNat / 4096 % 16) (by omega)
    refine ⟨_, _, rfl, h80, hC2, hneed, List.cons_ne_nil _ _,
      ⟨hsecond _ (by omega) (by omega) (by omega), ?_⟩, ?_⟩
    · simpa using isCont_ofNat _ (by omega)
    rw [combine_three (by omega) (by omega) (by omega)]
    exact hback _ (by omega)
  next h2 h3 =>
    obtain ⟨h80, hC2, hneed, hsecond⟩ := lead_four (c.toNat / 262144 % 8) (by omega)
    refine ⟨_, _, rfl, h80, hC2, hneed, List.cons_ne_nil _ _,
      ⟨hsecond _ (by omega) (by omega) (by omega), ?_⟩, ?_⟩
    · simp only [List.mem_cons, List.not_mem_nil, or_false]
      rintro x (rfl | rfl) <;> exact isCont_ofNat _ (by omega)
    rw [combine_four (by omega) (by omega) (by omega) (by omega)]
    exact hback _ (by omega)

/-- The decoder reads the bytes of a character back as the character, whatever follows. -/
theorem step_utf8EncodeChar (c : Char) (rest : List UInt8) :
    ∃ a bs, String.utf8EncodeChar c = a :: bs ∧ step a (bs ++ rest) = .char c (bs.length + 1) := by
  by_cases hc : 0x7f < c.toNat
  · obtain ⟨a, bs, henc, h80, hC2, hneed, hbs, hcont, hcomb⟩ := utf8EncodeChar_lead c hc
    exact ⟨a, bs, henc, by rw [step_lead h80 hC2 hneed hbs hcont rest, hcomb]⟩
  · -- an ASCII character is its own byte
    have hv : c.val.toNat = c.toNat := rfl
    have hsmall : c.toNat < 256 := by omega
    refine ⟨UInt8.ofNat c.toNat, [], by simp [String.utf8EncodeChar, hv, hc], ?_⟩
    have h80 : UInt8.ofNat c.toNat < 0x80 := by
      rw [UInt8.lt_iff_toNat_lt, UInt8.toNat_ofNat_of_lt' hsmall]
      simp only [UInt8.reduceToNat]
      omega
    simp [step, h80, UInt8.toNat_ofNat_of_lt' hsmall]

/-- Bytes of a character cut off before its end start a character that the end cuts off. -/
theorem step_utf8EncodeChar_cut (c : Char) {k : Nat} (hk : 0 < k)
    (hlen : k < (String.utf8EncodeChar c).length) :
    ∃ a bs, (String.utf8EncodeChar c).take k = a :: bs ∧
      step a bs = .bad .unexpectedEnd (bs.length + 1) := by
  by_cases hc : 0x7f < c.toNat
  · obtain ⟨a, bs, henc, h80, hC2, hneed, -, hcont, -⟩ := utf8EncodeChar_lead c hc
    rw [henc] at hlen ⊢
    obtain ⟨j, rfl⟩ : ∃ j, k = j + 1 := ⟨k - 1, by omega⟩
    simp only [List.length_cons] at hlen
    refine ⟨a, bs.take j, rfl, step_lead_cut h80 hC2 ?_ (hcont.take j)⟩
    simp only [List.length_take]
    omega
  · -- an ASCII character has one byte, and nothing of it is cut off
    have hv : c.val.toNat = c.toNat := rfl
    have hascii : c.toNat ≤ 0x7f := by omega
    simp [String.utf8EncodeChar, hv, hascii] at hlen
    omega

/-! ## Pieces and streams -/

/-- Decoding the bytes of whole characters gives the characters, in any piece. -/
theorem decodePiece_encodeChars (last : Bool) (cs : List Char) :
    ∀ (pos : Nat) (acc : List Char),
      decodePiece last (encodeChars cs) pos acc = .ok (acc.reverse ++ cs, []) := by
  induction cs with
  | nil => intro pos acc; simp [decodePiece]
  | cons c cs ih =>
    intro pos acc
    obtain ⟨a, bs, henc, hstep⟩ := step_utf8EncodeChar c (encodeChars cs)
    rw [encodeChars_cons, henc, List.cons_append, decodePiece, hstep]
    simp [ih]

/-- A piece that ends inside the bytes of an encoded text decodes into the characters it
holds whole, and leaves over bytes that, with the rest of the text, encode the characters
after those. -/
theorem decodePiece_take (cs : List Char) :
    ∀ (n pos : Nat) (acc : List Char), ∃ j left,
      decodePiece false ((encodeChars cs).take n) pos acc = .ok (acc.reverse ++ cs.take j, left) ∧
        left ++ (encodeChars cs).drop n = encodeChars (cs.drop j) := by
  induction cs with
  | nil => intro n pos acc; exact ⟨0, [], by simp [decodePiece], by simp⟩
  | cons c cs ih =>
    intro n pos acc
    by_cases hwhole : (String.utf8EncodeChar c).length ≤ n
    · -- the character is whole in the piece
      obtain ⟨a, bs, henc, hstep⟩ := step_utf8EncodeChar c
        ((encodeChars cs).take (n - (String.utf8EncodeChar c).length))
      obtain ⟨j, left, hpiece, hleft⟩ :=
        ih (n - (String.utf8EncodeChar c).length) (pos + (bs.length + 1)) (c :: acc)
      refine ⟨j + 1, left, ?_, ?_⟩
      · rw [encodeChars_cons, List.take_append, List.take_of_length_le hwhole, henc,
          List.cons_append, decodePiece, ← henc, hstep]
        simp only [Nat.add_sub_cancel, List.drop_left, hpiece]
        simp
      · rw [encodeChars_cons, List.drop_append, List.drop_eq_nil_of_le hwhole, List.nil_append]
        simpa using hleft
    · -- the piece ends inside the character, or before it
      have hshort : n - (String.utf8EncodeChar c).length = 0 := by omega
      have hpart : (encodeChars (c :: cs)).take n = (String.utf8EncodeChar c).take n := by
        rw [encodeChars_cons, List.take_append, hshort, List.take_zero, List.append_nil]
      refine ⟨0, (String.utf8EncodeChar c).take n, ?_, ?_⟩
      · rw [hpart]
        rcases Nat.eq_zero_or_pos n with rfl | hn
        · simp [decodePiece]
        · obtain ⟨a, bs, hcut, hbad⟩ := step_utf8EncodeChar_cut c hn (by omega)
          rw [hcut, decodePiece, hbad]
          simp [unfinished]
      · rw [encodeChars_cons, List.drop_append, hshort, List.drop_zero, ← List.append_assoc,
          List.take_append_drop]
        simp

/-- Decoding a stream whose unread bytes, after those left over, encode `cs` gives the
characters decoded so far followed by `cs`. -/
theorem decodeStream_go (bs pending : List UInt8) (acc : Array Char) (cs : List Char)
    (h : pending ++ bs = encodeChars cs) :
    decodeStream.go bs pending acc = .ok (String.ofList (acc.toList ++ cs)) := by
  induction bs, pending, acc using decodeStream.go.induct generalizing cs with
  | case1 pending acc _ _ _ =>
    rw [List.append_nil] at h
    rw [decodeStream.go, h, decodePiece_encodeChars]
    simp
  | case2 pending acc e hpiece =>
    rw [List.append_nil] at h
    rw [h, decodePiece_encodeChars] at hpiece
    cases hpiece
  | case3 b more pending acc done left hpiece ih =>
    -- the piece is a prefix of the encoded text, and what it leaves over joins the rest
    have htake : pending ++ (b :: more).take pieceSize =
        (encodeChars cs).take (pending.length + pieceSize) := by
      rw [← h, List.take_append, List.take_of_length_le (Nat.le_add_right pending.length pieceSize),
        Nat.add_sub_cancel_left]
    have hdrop : (encodeChars cs).drop (pending.length + pieceSize) = (b :: more).drop pieceSize := by
      rw [← h, List.drop_append, List.drop_eq_nil_of_le (Nat.le_add_right pending.length pieceSize),
        Nat.add_sub_cancel_left, List.nil_append]
    obtain ⟨j, left', hdec, hleft⟩ := decodePiece_take cs (pending.length + pieceSize) 0 []
    rw [← htake, hpiece] at hdec
    simp only [List.reverse_nil, List.nil_append, Except.ok.injEq, Prod.mk.injEq] at hdec
    obtain ⟨rfl, rfl⟩ := hdec
    rw [decodeStream.go, hpiece]
    simp only
    rw [ih (cs.drop j) (by rw [← hdrop, hleft])]
    simp
  | case4 b more pending acc e hpiece =>
    have htake : pending ++ (b :: more).take pieceSize =
        (encodeChars cs).take (pending.length + pieceSize) := by
      rw [← h, List.take_append, List.take_of_length_le (Nat.le_add_right pending.length pieceSize),
        Nat.add_sub_cancel_left]
    obtain ⟨j, left', hdec, -⟩ := decodePiece_take cs (pending.length + pieceSize) 0 []
    rw [← htake, hpiece] at hdec
    cases hdec

/-- Decoding the UTF-8 bytes of a text, in pieces as a file is read, gives the text back. -/
theorem decodeStream_encode (s : String) : decodeStream (encode s) = .ok s := by
  rw [decodeStream, decodeStream_go (encode s) [] #[] s.toList (by rw [encode_eq]; rfl)]
  simp

end Utf8

end Retl
