import Retl.Proofs.IntBounds
import Retl.Proofs.StepRuns
import Mathlib.Data.List.Induction
/-!
# Integer text

`intToString` writes an integer in decimal, and `stringToInt` reads back the texts that,
once the blanks around them are dropped, are an optional minus sign followed by one or
more ASCII digits (`IsIntText`): no plus sign, no underscores, no digits of other
scripts. A text of at most `Text.maxDigits` digits converts to its number when that lies
within 32 bits, and writing the number gives the text back in canonical form: without
leading zeros and with no sign on zero (`canonicalText`). Every other text gives an error
value with one evaluation diagnostic at the call.

A text of more digits than `Text.maxDigits` is refused before it is read, leading zeros
counted, and the refusal halts the run: even a text whose number is `1` halts
(`leading_zeros_past_digit_limit_halt`).
-/

namespace Retl

namespace Builtins

open Eval

/-- A decimal integer text: an optional minus sign, then one or more ASCII digits `ds`. -/
structure IsIntText (t : String) (negative : Bool) (ds : List Char) : Prop where
  spells : t.toList = (if negative then ['-'] else []) ++ ds
  nonempty : ds ≠ []
  digits : ∀ c ∈ ds, c.isDigit = true

/-- The number a sign and a run of ASCII digits denote. -/
def signedValue (negative : Bool) (ds : List Char) : Int :=
  if negative then -(decimalValue ds : Int) else decimalValue ds

/-- Decimal digits without their leading zeros; `0` when nothing else is left. -/
def significantDigits (ds : List Char) : List Char :=
  if ds.dropWhile (· == '0') = [] then ['0'] else ds.dropWhile (· == '0')

/-- A decimal integer text in canonical form: the significant digits, after a minus sign
only when the number is not zero. -/
def canonicalText (negative : Bool) (ds : List Char) : String :=
  String.ofList
    ((if negative = true ∧ significantDigits ds ≠ ['0'] then ['-'] else []) ++ significantDigits ds)

/-! ### Reading digits -/

theorem decimalValue_eq_ofDigitChars (ds : List Char) : decimalValue ds = Nat.ofDigitChars 10 ds 0 :=
  Nat.ofDigitChars_eq_foldl.symm

/-- An ASCII digit is the digit character of its value. -/
theorem digitChar_of_isDigit {c : Char} (h : c.isDigit = true) : Nat.digitChar (c.toNat - 48) = c := by
  simp only [Char.isDigit, Bool.and_eq_true, decide_eq_true_eq] at h
  have hlow : 48 ≤ c.toNat := h.1
  have hhigh : c.toNat ≤ 57 := h.2
  apply Char.toNat_inj.mp
  rw [Nat.toNat_digitChar_of_lt_ten (by omega)]
  omega

/-- Leading zeros add nothing to a number. -/
theorem ofDigitChars_zeros_append {zs : List Char} (hz : ∀ c ∈ zs, c = '0') (ds : List Char) :
    Nat.ofDigitChars 10 (zs ++ ds) 0 = Nat.ofDigitChars 10 ds 0 := by
  rw [Nat.ofDigitChars_append]
  congr 1
  induction zs with
  | nil => rfl
  | cons z zs ih =>
    rw [hz z List.mem_cons_self, Nat.ofDigitChars_cons]
    exact ih fun c hc => hz c (List.mem_cons_of_mem z hc)

/-- Digits that do not start with a zero are the decimal digits of their number. -/
theorem toDigits_of_significant {ds : List Char} (hd : ∀ c ∈ ds, c.isDigit = true)
    (hne : ds ≠ []) (hhead : ds.head? ≠ some '0') :
    Nat.toDigits 10 (Nat.ofDigitChars 10 ds 0) = ds := by
  induction ds using List.reverseRecOn with
  | nil => exact absurd rfl hne
  | append_singleton xs d ih =>
    have hd' : d.isDigit = true := hd d (by simp)
    have hdig : d.toNat - 48 < 10 := by
      simp only [Char.isDigit, Bool.and_eq_true, decide_eq_true_eq] at hd'
      have : d.toNat ≤ 57 := hd'.2
      omega
    rw [Nat.ofDigitChars_append, Nat.ofDigitChars_cons, Nat.ofDigitChars_nil,
      show '0'.toNat = 48 from rfl]
    -- the last digit comes after the digits of the number the others denote
    have hlast : Nat.toDigits 10 (d.toNat - 48) = [d] := by
      rw [Nat.toDigits_of_lt_base hdig, digitChar_of_isDigit hd']
    rcases List.eq_nil_or_concat xs with rfl | ⟨ys, y, hxs⟩
    · simpa using hlast
    · rw [List.concat_eq_append] at hxs
      subst hxs
      have hxs : Nat.toDigits 10 (Nat.ofDigitChars 10 (ys ++ [y]) 0) = ys ++ [y] :=
        ih (fun c hc => hd c (List.mem_append_left _ hc)) (by simp)
          (by simpa [List.head?_append] using hhead)
      -- the others denote a positive number, as they do not read `0`
      have hpos : 0 < Nat.ofDigitChars 10 (ys ++ [y]) 0 := by
        refine Nat.pos_of_ne_zero fun h0 => ?_
        rw [h0, Nat.toDigits_zero] at hxs
        have hy : ys = [] ∧ y = '0' := by
          rcases ys with _ | ⟨_, _⟩
          · simpa [eq_comm] using hxs
          · simp at hxs
        obtain ⟨rfl, rfl⟩ := hy
        simp at hhead
      rw [← Nat.toDigits_append_toDigits (by decide) hpos hdig, hxs, hlast]

/-- The decimal digits of the number that a run of ASCII digits denotes are the run's
significant digits. -/
theorem toDigits_decimalValue {ds : List Char} (hd : ∀ c ∈ ds, c.isDigit = true) :
    Nat.toDigits 10 (decimalValue ds) = significantDigits ds := by
  have hsplit := (List.takeWhile_append_dropWhile (p := (· == '0')) (l := ds)).symm
  have hzeros : ∀ c ∈ ds.takeWhile (· == '0'), c = '0' := fun c hc => by
    simpa using List.mem_takeWhile_imp hc
  have hvalue : Nat.ofDigitChars 10 ds 0 = Nat.ofDigitChars 10 (ds.dropWhile (· == '0')) 0 := by
    conv_lhs => rw [hsplit]
    exact ofDigitChars_zeros_append hzeros _
  rw [decimalValue_eq_ofDigitChars, hvalue, significantDigits]
  split
  next hnil => rw [hnil, Nat.ofDigitChars_nil, Nat.toDigits_zero]
  next hne =>
    refine toDigits_of_significant (fun c hc => hd c ((List.dropWhile_suffix _).subset hc)) hne ?_
    -- what is left after the zeros does not start with one
    have hc := List.head_dropWhile_not (· == '0') hne
    rw [List.head?_eq_some_head hne]
    intro h
    rw [Option.some.inj h] at hc
    simp at hc

/-- The decimal text of a signed number is its canonical text. -/
theorem toString_signedValue {negative : Bool} {ds : List Char} (hd : ∀ c ∈ ds, c.isDigit = true) :
    toString (signedValue negative ds) = canonicalText negative ds := by
  have hdigits := toDigits_decimalValue hd
  -- the number is zero exactly when its significant digits are `0`
  have hzero : decimalValue ds = 0 ↔ significantDigits ds = ['0'] := by
    rw [← hdigits]
    constructor
    · intro h
      rw [h, Nat.toDigits_zero]
    · intro h
      rw [← Nat.ofDigitChars_toDigits (b := 10) (n := decimalValue ds) (by decide) (by decide), h]
      rfl
  unfold signedValue canonicalText
  cases negative with
  | false =>
    simp only [Bool.false_eq_true, false_and, ↓reduceIte, List.nil_append]
    rw [← hdigits, Nat.toString_eq_ofList_toDigits.symm]
    rfl
  | true =>
    simp only [↓reduceIte, true_and]
    by_cases h : significantDigits ds = ['0']
    · rw [if_neg (not_not.mpr h), List.nil_append, hzero.mpr h, h]
      rfl
    · rw [if_pos h]
      have hpos : 0 < decimalValue ds := Nat.pos_of_ne_zero fun h0 => h (hzero.mp h0)
      obtain ⟨n, hn⟩ : ∃ n, decimalValue ds = n + 1 := ⟨decimalValue ds - 1, by omega⟩
      have hneg : -(decimalValue ds : Int) = Int.negSucc n := by
        rw [hn, Int.negSucc_eq]
        omega
      rw [hneg, ← hdigits, hn, String.ofList_append]
      rfl

/-! ### Reading a text -/

/-- A decimal integer text converts through its sign and digits. -/
theorem parseIntText_of_isIntText {s : String} {negative : Bool} {ds : List Char}
    (h : IsIntText (Text.trimBlank s) negative ds) :
    parseIntText s = IntText.ofDigits negative ds := by
  unfold parseIntText
  rw [h.spells]
  cases negative with
  | true => rfl
  | false =>
    obtain ⟨c, cs, rfl⟩ := List.exists_cons_of_ne_nil h.nonempty
    -- a digit is no minus sign
    have hc : c ≠ '-' := by
      rintro rfl
      simpa using h.digits '-' List.mem_cons_self
    split
    next heq => exact absurd (List.cons.inj heq).1 hc
    next => rfl

/-- Digits convert to their signed number, unless there are too many of them. -/
theorem ofDigits_eq {negative : Bool} {ds : List Char} (hne : ds ≠ [])
    (hd : ∀ c ∈ ds, c.isDigit = true) :
    IntText.ofDigits negative ds =
      if Text.maxDigits < ds.length then .tooLong ds.length else .number (signedValue negative ds) := by
  unfold IntText.ofDigits
  rw [if_neg (by simp [List.all_eq_true.mpr hd, hne])]
  rfl

/-- A text that is not a decimal integer, blanks around it aside, is malformed. -/
theorem parseIntText_malformed {s : String} (h : ¬∃ negative ds, IsIntText (Text.trimBlank s) negative ds) :
    parseIntText s = .malformed := by
  -- digits after the sign, or in place of it, would make the text a decimal integer
  have hbad : ∀ negative ds, (Text.trimBlank s).toList = (if negative then ['-'] else []) ++ ds →
      IntText.ofDigits negative ds = .malformed := by
    intro negative ds hspell
    unfold IntText.ofDigits
    rw [if_pos]
    by_contra hok
    simp only [Bool.or_eq_true, Bool.not_eq_true', List.all_eq_false, not_or, List.isEmpty_iff,
      not_exists, not_and] at hok
    exact h ⟨negative, ds, hspell, hok.1, fun c hc => by simpa using hok.2 c hc⟩
  unfold parseIntText
  split
  next ds hds => exact hbad true ds (by rw [hds]; rfl)
  next => exact hbad false _ (by simp only [Bool.false_eq_true, ↓reduceIte, List.nil_append])

/-! ### Converting -/

/-- Converting a text that reads as `n`: `n` itself when it lies within 32 bits, leaving the
machine as it was; otherwise an overflow error, reported once. -/
theorem exec_stringToInt_number (k : Engine) {s : String} {n : Int} (pos : Position) (m : Machine)
    (h : parseIntText s = .number n) :
    (run k .stringToInt [.string s] pos).exec m =
      if -2 ^ 31 ≤ n ∧ n ≤ 2 ^ 31 - 1 then (.ok (.int n), m)
      else (.ok (.error ("Integer overflow converting \"" ++ s ++ "\"")),
        m.report ("Integer overflow converting \"" ++ s ++ "\"") pos) := by
  have hfits : fitsInt32 n = true ↔ -2 ^ 31 ≤ n ∧ n ≤ 2 ^ 31 - 1 := by
    rw [fitsInt32_iff]
    omega
  unfold run
  simp only [h]
  by_cases hn : -2 ^ 31 ≤ n ∧ n ≤ 2 ^ 31 - 1
  · rw [if_pos (hfits.mpr hn), if_pos hn]
    rfl
  · rw [if_neg (fun hf => hn (hfits.mp hf)), if_neg hn]
    exact exec_fail_report _ pos m

theorem exec_stringToInt_malformed (k : Engine) {s : String} (pos : Position) (m : Machine)
    (h : parseIntText s = .malformed) :
    (run k .stringToInt [.string s] pos).exec m =
      (.ok (.error ("Cannot convert \"" ++ s ++ "\" to int")),
        m.report ("Cannot convert \"" ++ s ++ "\" to int") pos) := by
  unfold run
  simp only [h]
  exact exec_fail_report _ pos m

theorem exec_stringToInt_tooLong (k : Engine) {s : String} {count : Nat} (pos : Position)
    (m : Machine) (h : parseIntText s = .tooLong count) :
    (run k .stringToInt [.string s] pos).exec m = (.error (digitFault count), m) := by
  unfold run
  simp only [h]
  rfl

theorem exec_intToString (k : Engine) (n : Int) (pos : Position) (m : Machine) :
    (run k .intToString [.int n] pos).exec m = (.ok (.string (toString n)), m) := rfl

end Builtins

open Builtins Eval in
/-- Integer text round trip. Writing a 32-bit integer and reading it back gives it again,
with no diagnostic. A text reads as a number exactly when, blanks around it dropped, it is
an optional minus sign and one or more ASCII digits: with at most `Text.maxDigits` digits
it gives its number when that lies within 32 bits, and writing that number gives the text
without leading zeros and with no sign on zero; outside 32 bits it gives an overflow error,
reported once. Any other text gives an error, reported once. A text of more digits halts
the run, leading zeros counted. -/
theorem integer_text_round_trip (k : Engine) (pos : Position) (m : Machine) :
    (∀ n : Int, -2 ^ 31 ≤ n → n ≤ 2 ^ 31 - 1 →
      (run k .intToString [.int n] pos).exec m = (.ok (.string (toString n)), m) ∧
      (run k .stringToInt [.string (toString n)] pos).exec m = (.ok (.int n), m)) ∧
    (∀ (s : String) negative ds, IsIntText (Text.trimBlank s) negative ds →
      ds.length ≤ Text.maxDigits →
      (-2 ^ 31 ≤ signedValue negative ds ∧ signedValue negative ds ≤ 2 ^ 31 - 1 →
        (run k .stringToInt [.string s] pos).exec m = (.ok (.int (signedValue negative ds)), m) ∧
        (run k .intToString [.int (signedValue negative ds)] pos).exec m =
          (.ok (.string (canonicalText negative ds)), m)) ∧
      (¬(-2 ^ 31 ≤ signedValue negative ds ∧ signedValue negative ds ≤ 2 ^ 31 - 1) →
        (run k .stringToInt [.string s] pos).exec m =
          (.ok (.error ("Integer overflow converting \"" ++ s ++ "\"")),
            m.report ("Integer overflow converting \"" ++ s ++ "\"") pos))) ∧
    (∀ s : String, (¬∃ negative ds, IsIntText (Text.trimBlank s) negative ds) →
      (run k .stringToInt [.string s] pos).exec m =
        (.ok (.error ("Cannot convert \"" ++ s ++ "\" to int")),
          m.report ("Cannot convert \"" ++ s ++ "\" to int") pos)) ∧
    (∀ (s : String) negative ds, IsIntText (Text.trimBlank s) negative ds →
      Text.maxDigits < ds.length →
      (run k .stringToInt [.string s] pos).exec m = (.error (digitFault ds.length), m)) := by
  refine ⟨fun n hlow hhigh => ⟨exec_intToString k n pos m, ?_⟩,
    fun s negative ds htext hshort => ?_,
    fun s hbad => exec_stringToInt_malformed k pos m (parseIntText_malformed hbad),
    fun s negative ds htext hlong => exec_stringToInt_tooLong k pos m ?_⟩
  · -- the written number reads back as itself
    have hfits : fitsInt32 n = true := by
      rw [fitsInt32_iff]
      omega
    rw [exec_stringToInt_number k pos m (parseIntText_toString hfits), if_pos ⟨hlow, hhigh⟩]
  · have hread : parseIntText s = .number (signedValue negative ds) := by
      rw [parseIntText_of_isIntText htext, ofDigits_eq htext.nonempty htext.digits,
        if_neg (by omega)]
    rw [exec_stringToInt_number k pos m hread]
    refine ⟨fun hn => ⟨if_pos hn, ?_⟩, fun hn => if_neg hn⟩
    rw [exec_intToString, toString_signedValue htext.digits]
  · rw [parseIntText_of_isIntText htext, ofDigits_eq htext.nonempty htext.digits, if_pos hlong]

open Builtins Eval in
/-- Four thousand three hundred zeros and a one are a decimal integer text whose number is
`1`, well within 32 bits; but they are 4301 digits, one more than a conversion takes, so
`stringToInt` of that text halts the run instead of giving `1`. -/
theorem leading_zeros_past_digit_limit_halt :
    IsIntText (Text.trimBlank (String.ofList (List.replicate 4300 '0' ++ ['1']))) false
        (List.replicate 4300 '0' ++ ['1']) ∧
      signedValue false (List.replicate 4300 '0' ++ ['1']) = 1 ∧
      (run (topEngine ⟨false, 1000⟩) .stringToInt [.string (String.ofList (List.replicate 4300 '0' ++ ['1']))]
        ⟨"<input>", 1, 1, "stringToInt(\"" ++ String.ofList (List.replicate 4300 '0' ++ ['1']) ++ "\")"⟩).exec
        (Machine.start [] FileStore.empty) =
        (.error (digitFault 4301), Machine.start [] FileStore.empty) := by
  have hzeros : ∀ c ∈ List.replicate 4300 '0', c = '0' := fun c hc => List.eq_of_mem_replicate hc
  have hlen : (List.replicate 4300 '0').length = 4300 := List.length_replicate
  -- from here on only the digits' kind and count matter, not their spelling out
  generalize List.replicate 4300 '0' = zs at hzeros hlen ⊢
  have hd : ∀ c ∈ zs ++ ['1'], c.isDigit = true := by
    intro c hc
    rcases List.mem_append.mp hc with hc | hc
    · rw [hzeros c hc]
      decide
    · rw [List.mem_singleton.mp hc]
      decide
  have htext : IsIntText (Text.trimBlank (String.ofList (zs ++ ['1']))) false (zs ++ ['1']) := by
    rw [trimBlank_eq_self (by rw [String.toList_ofList]; exact fun c hc => isBlank_of_isDigit (hd c hc))]
    exact ⟨by rw [String.toList_ofList]; rfl, by simp, hd⟩
  have hlong : Text.maxDigits < (zs ++ ['1']).length := by
    rw [List.length_append, hlen]
    decide
  refine ⟨htext, ?_, ?_⟩
  · -- the leading zeros add nothing
    simp only [signedValue, Bool.false_eq_true, ↓reduceIte, decimalValue_eq_ofDigitChars,
      ofDigitChars_zeros_append hzeros]
    rfl
  · have hread : parseIntText (String.ofList (zs ++ ['1'])) = .tooLong (zs ++ ['1']).length := by
      rw [parseIntText_of_isIntText htext, ofDigits_eq htext.nonempty htext.digits, if_pos hlong]
    rw [exec_stringToInt_tooLong _ _ _ hread, List.length_append, hlen]
    rfl

end Retl
