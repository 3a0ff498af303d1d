import Mathlib
import Retl.Csv
/-!
# Reading back what was written

Reading the written form of records gives the records back, as long as no field holds more
than `fieldLimit` characters (`read_write`).

Reading takes a text line by line. A written text ends every record with `\r\n`, so reading
it line by line is the same as running the reader over its characters and ending a line
after each line break (`Reader.scan`, `read_eq_scan`). Over that run the written form of a
record is read one field at a time: a plain field character by character, a quoted field
with its doubled quotes read as one quote and its line breaks kept, and then the comma or
the end of the record (`scan_writeField`, `scan_writeRecord`).
-/

namespace Retl

namespace Csv

namespace Reader

/-- The reader run over a text character by character, ending a line after each line break
where `lines` cuts the text. -/
def scan : Reader → List Char → Reader
  | r, [] => r
  | r, '\r' :: '\n' :: rest => scan (((r.feed '\r').feed '\n').endLine) rest
  | r, '\r' :: rest => scan ((r.feed '\r').endLine) rest
  | r, '\n' :: rest => scan ((r.feed '\n').endLine) rest
  | r, c :: rest => scan (r.feed c) rest

@[simp] theorem scan_nil (r : Reader) : scan r [] = r := rfl

theorem scan_crlf (r : Reader) (rest : List Char) :
    scan r ('\r' :: '\n' :: rest) = scan (((r.feed '\r').feed '\n').endLine) rest := rfl

theorem scan_cr_of_ne (r : Reader) {rest : List Char} (h : ∀ t, rest ≠ '\n' :: t) :
    scan r ('\r' :: rest) = scan ((r.feed '\r').endLine) rest :=
  scan.eq_3 r rest fun t ht => h t ht

theorem scan_lf (r : Reader) (rest : List Char) :
    scan r ('\n' :: rest) = scan ((r.feed '\n').endLine) rest := rfl

theorem scan_cons_of_ne {c : Char} (hr : c ≠ '\r') (hn : c ≠ '\n') (r : Reader)
    (rest : List Char) : scan r (c :: rest) = scan (r.feed c) rest :=
  scan.eq_5 r c rest (fun _ h _ => hr h) hr hn

end Reader

open Reader

/-- Reading line by line is the character run, for a text that ends with a line break:
the characters of the unfinished line `cur` have been fed, and the lines `acc` read. -/
theorem foldl_lines_go (r : Reader) (cs cur : List Char) (acc : List (List Char))
    (hend : ∀ c, cs.getLast? = some c → c = '\n' ∨ c = '\r') (hcur : cs = [] → cur = []) :
    (lines.go cs cur acc).foldl (fun r line => (line.foldl feed r).endLine) r =
      scan (cur.reverse.foldl feed
        (acc.reverse.foldl (fun r line => (line.foldl feed r).endLine) r)) cs := by
  induction cs, cur, acc using lines.go.induct with
  | case1 acc => simp [lines.go]
  | case2 cur acc hne => exact absurd (hcur rfl) hne
  | case3 rest cur acc ih =>
    rw [lines.go, ih (fun c hc => hend c (by simp [List.getLast?_cons, hc])) (fun _ => rfl),
      scan_crlf]
    simp [List.foldl_append]
  | case4 rest cur acc hrest ih =>
    rw [lines.go.eq_4 cur acc rest hrest,
      ih (fun c hc => hend c (by simp [List.getLast?_cons, hc])) (fun _ => rfl),
      scan_cr_of_ne _ fun t ht => hrest t ht]
    simp [List.foldl_append]
  | case5 rest cur acc ih =>
    rw [lines.go, ih (fun c hc => hend c (by simp [List.getLast?_cons, hc])) (fun _ => rfl),
      scan_lf]
    simp [List.foldl_append]
  | case6 c rest cur acc _ hr hn ih =>
    -- the text does not end with `c`, which is no line break
    have hrest : rest ≠ [] := by
      rintro rfl
      rcases hend c (by simp) with h | h
      · exact hn h
      · exact hr h
    rw [lines.go.eq_6 cur acc c rest (fun _ h _ => hr h) hr hn,
      ih (fun c' hc => hend c' (by simp [List.getLast?_cons, hc])) (fun h => absurd h hrest),
      scan_cons_of_ne hr hn]
    simp

/-- The reader at the start of a text. -/
def start : Reader := ⟨.startRecord, [], [], 0, []⟩

theorem read_eq_scan {s : String} (hend : ∀ c, s.toList.getLast? = some c → c = '\n' ∨ c = '\r') :
    read s = if (scan start s.toList).state == .overflow then none
      else some (scan start s.toList).finish := by
  have hrun : (lines.go s.toList [] []).foldl (fun r line => (line.foldl feed r).endLine)
      ⟨.startRecord, [], [], 0, []⟩ = scan start s.toList :=
    foldl_lines_go start s.toList [] [] hend fun _ => rfl
  simp only [read, lines, hrun]

/-! ## Fields -/

/-- The characters a quoted field writes for one of its characters. -/
def escaped (c : Char) : List Char := if c = '"' then ['"', '"'] else [c]

theorem toList_writeField (f : String) :
    (writeField f).toList =
      if needsQuotes f then '"' :: (f.toList.flatMap escaped ++ ['"']) else f.toList := by
  unfold writeField
  split
  · have hesc : ∀ c : Char, (if c = '"' then "\"\"" else String.singleton c).toList = escaped c := by
      intro c
      by_cases hc : c = '"' <;> simp [escaped, hc]
    simp [String.toList_join, List.flatMap_map, hesc]
  · rfl

/-- Whether a character is written as it is in a field without quotes. -/
def plain (c : Char) : Bool := !(c == ',' || c == '"' || c == '\r' || c == '\n')

theorem plain_of_needsQuotes {f : String} (h : needsQuotes f = false) :
    ∀ c ∈ f.toList, plain c = true := by
  intro c hc
  simp only [needsQuotes, List.any_eq_false] at h
  simpa [plain] using h c hc

/-- Where the reader stands after a field's written form: in quotes closed, in an unquoted
field, or, for an empty field, still where the field began. -/
def fieldEnd (st : ReadState) (f : String) : ReadState :=
  if needsQuotes f then .quoteInQuoted else if f.isEmpty then st else .inField

section Fields

variable (fs : List String) (recs : List (List String))

theorem feed_quote_of_start {st : ReadState} (hst : st = .startRecord ∨ st = .startField) :
    feed ⟨st, fs, [], 0, recs⟩ '"' = ⟨.inQuoted, fs, [], 0, recs⟩ := by
  rcases hst with rfl | rfl <;> rfl

theorem feed_plain_of_start {st : ReadState} (hst : st = .startRecord ∨ st = .startField)
    {c : Char} (hc : plain c = true) :
    feed ⟨st, fs, [], 0, recs⟩ c = ⟨.inField, fs, [c], 1, recs⟩ := by
  simp only [plain, Bool.not_eq_true', Bool.or_eq_false_iff, beq_eq_false_iff_ne] at hc
  obtain ⟨⟨⟨hcomma, hquote⟩, hcr⟩, hlf⟩ := hc
  rcases hst with rfl | rfl <;>
    simp [feed, add, moveTo, fieldLimit, hcomma, hquote, hcr, hlf]

theorem feed_plain_inField {c : Char} (hc : plain c = true) {field : List Char} {n : Nat}
    (hn : n < fieldLimit) :
    feed ⟨.inField, fs, field, n, recs⟩ c = ⟨.inField, fs, c :: field, n + 1, recs⟩ := by
  simp only [plain, Bool.not_eq_true', Bool.or_eq_false_iff, beq_eq_false_iff_ne] at hc
  obtain ⟨⟨⟨hcomma, -⟩, hcr⟩, hlf⟩ := hc
  simp [feed, add, Nat.not_le.mpr hn, hcomma, hcr, hlf]

theorem scan_plain (xs : List Char) (hxs : ∀ c ∈ xs, plain c = true) :
    ∀ (field : List Char) (n : Nat) (rest : List Char), n + xs.length ≤ fieldLimit →
      scan ⟨.inField, fs, field, n, recs⟩ (xs ++ rest) =
        scan ⟨.inField, fs, xs.reverse ++ field, n + xs.length, recs⟩ rest := by
  induction xs with
  | nil => intro field n rest _; rfl
  | cons c xs ih =>
    intro field n rest hlen
    have hc := hxs c List.mem_cons_self
    have hcr : c ≠ '\r' := by rintro rfl; simp [plain] at hc
    have hlf : c ≠ '\n' := by rintro rfl; simp [plain] at hc
    rw [List.cons_append, scan_cons_of_ne hcr hlf, feed_plain_inField fs recs hc (by simp at hlen; omega),
      ih (fun c' hc' => hxs c' (List.mem_cons_of_mem c hc')) _ _ _ (by simp at hlen; omega)]
    simp [Nat.add_assoc, Nat.add_comm 1]

/-- One character of a quoted field's content, read back from its written form. A written
line break ends no record, and a doubled quote is read as one quote. -/
theorem scan_escaped (x : Char) (tail : List Char) {field : List Char} {n : Nat}
    (hn : n < fieldLimit) :
    scan ⟨.inQuoted, fs, field, n, recs⟩ (escaped x ++ tail) =
      scan ⟨.inQuoted, fs, x :: field, n + 1, recs⟩ tail := by
  have hadd : feed ⟨.inQuoted, fs, field, n, recs⟩ x =
      if x = '"' then ⟨.quoteInQuoted, fs, field, n, recs⟩
      else ⟨.inQuoted, fs, x :: field, n + 1, recs⟩ := by
    by_cases hx : x = '"' <;> simp [feed, add, Nat.not_le.mpr hn, hx]
  by_cases hquote : x = '"'
  · subst hquote
    simp only [escaped, if_true, List.cons_append, List.nil_append]
    rw [scan_cons_of_ne (by decide) (by decide), scan_cons_of_ne (by decide) (by decide), hadd]
    simp [feed, add, moveTo, Nat.not_le.mpr hn]
  simp only [escaped, hquote, if_false, List.cons_append, List.nil_append]
  rw [if_neg hquote] at hadd
  by_cases hcr : x = '\r'
  · subst hcr
    -- a carriage return and a line feed after it are one line break, read inside the quotes
    by_cases hlf : ∃ t, tail = '\n' :: t
    · obtain ⟨t, rfl⟩ := hlf
      rw [scan_crlf, hadd, scan_lf]
    · rw [scan_cr_of_ne _ fun t ht => hlf ⟨t, ht⟩, hadd]
      rfl
  by_cases hlf : x = '\n'
  · subst hlf
    rw [scan_lf, hadd]
    rfl
  rw [scan_cons_of_ne hcr hlf, hadd]

theorem scan_quoted (xs : List Char) :
    ∀ (field : List Char) (n : Nat) (rest : List Char), n + xs.length ≤ fieldLimit →
      scan ⟨.inQuoted, fs, field, n, recs⟩ (xs.flatMap escaped ++ rest) =
        scan ⟨.inQuoted, fs, xs.reverse ++ field, n + xs.length, recs⟩ rest := by
  induction xs with
  | nil => intro field n rest _; rfl
  | cons x xs ih =>
    intro field n rest hlen
    simp only [List.length_cons] at hlen
    rw [List.flatMap_cons, List.append_assoc, scan_escaped fs recs x _ (by omega),
      ih _ _ _ (by omega)]
    simp [Nat.add_assoc, Nat.add_comm 1]

/-- A field's written form, read from where a field starts, leaves the field's characters
read and the reader at `fieldEnd`. -/
theorem scan_writeField {st : ReadState} (hst : st = .startRecord ∨ st = .startField)
    (f : String) (hf : f.length ≤ fieldLimit) (rest : List Char) :
    scan ⟨st, fs, [], 0, recs⟩ ((writeField f).toList ++ rest) =
      scan ⟨fieldEnd st f, fs, f.toList.reverse, f.length, recs⟩ rest := by
  rw [toList_writeField]
  cases hq : needsQuotes f
  · -- unquoted: the first character opens the field, the others follow it
    simp only [Bool.false_eq_true, if_false, fieldEnd]
    cases hcs : f.toList with
    | nil =>
      have hempty : f = "" := String.toList_eq_nil_iff.mp hcs
      subst hempty
      simp [hq]
    | cons c cs =>
      have hplain := plain_of_needsQuotes hq
      rw [hcs] at hplain
      have hc := hplain c List.mem_cons_self
      have hcr : c ≠ '\r' := by rintro rfl; simp [plain] at hc
      have hlf : c ≠ '\n' := by rintro rfl; simp [plain] at hc
      have hlen : f.length = cs.length + 1 := by rw [← String.length_toList, hcs, List.length_cons]
      have hne : f.isEmpty = false := by
        rw [Bool.eq_false_iff, ne_eq, String.isEmpty_iff]
        rintro rfl
        simp at hcs
      rw [List.cons_append, scan_cons_of_ne hcr hlf, feed_plain_of_start fs recs hst hc,
        scan_plain fs recs cs (fun c' hc' => hplain c' (List.mem_cons_of_mem c hc')) _ _ _
          (by omega)]
      simp [hq, hne, hlen, Nat.add_comm]
  · -- quoted: the opening quote, the content, and the closing quote
    simp only [if_true, fieldEnd, List.cons_append, List.append_assoc, List.cons_append,
      List.nil_append]
    rw [scan_cons_of_ne (by decide) (by decide), feed_quote_of_start fs recs hst,
      scan_quoted fs recs f.toList [] 0 _ (by rw [Nat.zero_add, String.length_toList]; exact hf),
      scan_cons_of_ne (by decide) (by decide)]
    simp [feed, hq, String.length_toList]

theorem feed_comma {st : ReadState}
    (hst : st = .startRecord ∨ st = .startField ∨ st = .inField ∨ st = .quoteInQuoted)
    (field : List Char) (n : Nat) :
    feed ⟨st, fs, field, n, recs⟩ ',' =
      ⟨.startField, fs ++ [String.ofList field.reverse], [], 0, recs⟩ := by
  rcases hst with rfl | rfl | rfl | rfl <;> rfl

/-- The end of a record that has a field open. -/
theorem scan_recordEnd {st : ReadState} (hst : st = .startField ∨ st = .inField ∨ st = .quoteInQuoted)
    (field : List Char) (n : Nat) (rest : List Char) :
    scan ⟨st, fs, field, n, recs⟩ ('\r' :: '\n' :: rest) =
      scan ⟨.startRecord, [], [], 0, (fs ++ [String.ofList field.reverse]) :: recs⟩ rest := by
  rw [scan_crlf]
  rcases hst with rfl | rfl | rfl <;> rfl

end Fields

/-! ## Records -/

theorem fieldEnd_cases {st : ReadState} (hst : st = .startRecord ∨ st = .startField) (f : String) :
    fieldEnd st f = .startRecord ∧ f = "" ∨ fieldEnd st f = .startField ∨
      fieldEnd st f = .inField ∨ fieldEnd st f = .quoteInQuoted := by
  unfold fieldEnd
  split
  · simp
  split
  next hempty =>
    rcases hst with rfl | rfl
    · exact .inl ⟨rfl, String.isEmpty_iff.mp hempty⟩
    · simp
  · simp

/-- The fields of a record, each from where the one before it ended, and then the record's
end. The one record the run cannot end this way is a lone empty field, which writes nothing
before its line break. -/
theorem scan_fields (recs : List (List String)) (gs : List String)
    (hgs : ∀ g ∈ gs, g.length ≤ fieldLimit) :
    ∀ (f : String) (fs : List String) (st : ReadState), f.length ≤ fieldLimit →
      (st = .startRecord ∨ st = .startField) → ¬(st = .startRecord ∧ f = "" ∧ gs = []) →
      ∀ rest, scan ⟨st, fs, [], 0, recs⟩
          ([','].intercalate ((f :: gs).map fun g => (writeField g).toList) ++ '\r' :: '\n' :: rest) =
        scan ⟨.startRecord, [], [], 0, (fs ++ f :: gs) :: recs⟩ rest := by
  induction gs with
  | nil =>
    intro f fs st hf hst hlone rest
    simp only [List.map_cons, List.map_nil, List.intercalate_singleton]
    rw [scan_writeField fs recs hst f hf]
    have hend : fieldEnd st f = .startField ∨ fieldEnd st f = .inField ∨
        fieldEnd st f = .quoteInQuoted := by
      rcases fieldEnd_cases hst f with ⟨hfe, rfl⟩ | h
      · -- an empty field where a record starts is the lone empty field
        refine absurd ⟨?_, rfl, rfl⟩ hlone
        simpa [fieldEnd, needsQuotes] using hfe
      · exact h
    rw [scan_recordEnd fs recs hend]
    simp
  | cons g gs ih =>
    intro f fs st hf hst _ rest
    simp only [List.map_cons, List.intercalate_cons_cons, List.append_assoc, List.cons_append,
      List.nil_append]
    rw [scan_writeField fs recs hst f hf]
    have hcomma : fieldEnd st f = .startRecord ∨ fieldEnd st f = .startField ∨
        fieldEnd st f = .inField ∨ fieldEnd st f = .quoteInQuoted := by
      rcases fieldEnd_cases hst f with ⟨h, -⟩ | h
      · exact .inl h
      · exact .inr h
    rw [scan_cons_of_ne (by decide) (by decide), feed_comma fs recs hcomma]
    have hrest := ih (fun g' hg' => hgs g' (List.mem_cons_of_mem g hg')) g
      (fs ++ [String.ofList f.toList.reverse.reverse]) .startField
      (hgs g List.mem_cons_self) (.inr rfl) (by simp) rest
    simp only [List.map_cons] at hrest
    rw [hrest]
    simp

/-- A record's written form, read from the start of a record, adds the record. -/
theorem scan_writeRecord (recs : List (List String)) (fields : List String)
    (hfields : ∀ f ∈ fields, f.length ≤ fieldLimit) (rest : List Char) :
    scan ⟨.startRecord, [], [], 0, recs⟩ ((writeRecord fields).toList ++ rest) =
      scan ⟨.startRecord, [], [], 0, fields :: recs⟩ rest := by
  unfold writeRecord
  split
  next hlone =>
    -- the lone empty field is written as an empty quoted field
    have hfields : fields = [""] := by simpa using hlone
    subst hfields
    rfl
  next hlone =>
    simp only [String.toList_append, String.toList_intercalate, List.map_map, Function.comp_def,
      List.append_assoc]
    cases fields with
    | nil => rfl
    | cons f gs =>
      have hrest := scan_fields recs gs (fun g hg => hfields g (List.mem_cons_of_mem f hg)) f []
        .startRecord (hfields f List.mem_cons_self) (.inl rfl)
        (fun ⟨_, hf, hgs⟩ => by subst hf; subst hgs; simp at hlone) rest
      simpa using hrest

theorem scan_write (records : List (List String))
    (hrecords : ∀ fields ∈ records, ∀ f ∈ fields, f.length ≤ fieldLimit) :
    ∀ (recs : List (List String)) (rest : List Char),
      scan ⟨.startRecord, [], [], 0, recs⟩ ((write records).toList ++ rest) =
        scan ⟨.startRecord, [], [], 0, records.reverse ++ recs⟩ rest := by
  induction records with
  | nil => intro recs rest; rfl
  | cons fields records ih =>
    intro recs rest
    simp only [write, List.map_cons, String.join_cons, String.toList_append, List.append_assoc]
    rw [scan_writeRecord recs fields (hrecords fields List.mem_cons_self)]
    have hwrite := ih (fun fs hfs => hrecords fs (List.mem_cons_of_mem fields hfs)) (fields :: recs) rest
    simp only [write] at hwrite
    rw [hwrite]
    simp

/-- A written text ends with a line break, when it is not empty. -/
theorem write_ends (records : List (List String)) :
    ∀ c, (write records).toList.getLast? = some c → c = '\n' ∨ c = '\r' := by
  induction records with
  | nil => simp [write]
  | cons fields records ih =>
    intro c hc
    simp only [write, List.map_cons, String.join_cons, String.toList_append,
      List.getLast?_append] at hc
    cases hlast : (String.join (List.map writeRecord records)).toList.getLast? with
    | some c' =>
      rw [hlast] at hc
      simp only [Option.some_or, Option.some.injEq] at hc
      subst hc
      exact ih c' (by simpa [write] using hlast)
    | none =>
      rw [hlast] at hc
      simp [writeRecord] at hc
      exact .inl hc.symm

/-- Reading the written form of records gives them back, when no field holds more than
`fieldLimit` characters. -/
theorem read_write (records : List (List String))
    (hrecords : ∀ fields ∈ records, ∀ f ∈ fields, f.length ≤ fieldLimit) :
    read (write records) = some records := by
  rw [read_eq_scan (write_ends records)]
  have hrun := scan_write records hrecords [] []
  simp only [List.append_nil] at hrun
  simp [start, hrun, Reader.finish]

end Csv

end Retl
