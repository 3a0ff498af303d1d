import Retl.Proofs.CsvCodec
import Retl.Proofs.Utf8Codec
import Retl.Proofs.ReadAfterWrite
import Retl.Proofs.WellTyped
/-!
# Tables through CSV files

Writing a table to a CSV file and reading the file back with the table's schema and the same
header flag gives the table's rows again, field for field, and reports nothing
(`csv_round_trip`). This holds when the path is writable, every row holds, column by column, a
value of the column's type (`rowFits`), and no field is longer than a CSV field may be. A table
with a field that is not a scalar is not written: writing it reports the field and leaves the
files as they were.

Each field's text reads back as the field (`fieldValue_fieldText`): an integer as its decimal
digits after an optional minus sign, a boolean as `true` or `false`, a character as itself, a
text as it is, and null as the empty text. The records are written as CSV, encoded as UTF-8
and stored; reading decodes and parses them back (`Csv.read_write`,
`Utf8.decodeStream_encode`, `FileStore.read_store_of_writesTo`).
-/

namespace Retl

namespace Eval

variable {α β : Type}

/-- A loop whose every pass goes on, leaving the machine as it is, computes a fold. -/
theorem exec_forIn_yield {xs : List α} {b : β} {f : α → β → Eval (ForInStep β)} (g : α → β → β)
    (hf : ∀ a ∈ xs, ∀ s m, (f a s).exec m = (.ok (.yield (g a s)), m)) (m : Machine) :
    (forIn xs b f).exec m = (.ok (xs.foldl (fun s a => g a s) b), m) := by
  induction xs generalizing b with
  | nil => rfl
  | cons a xs ih =>
    rw [List.forIn_cons, exec_bind, hf a List.mem_cons_self b m]
    exact ih (fun a' ha' => hf a' (List.mem_cons_of_mem a ha'))

/-- A loop that goes on, leaving the machine as it is, until a pass that stops it: the loop
gives what that pass gives. -/
theorem exec_forIn_stop {xs : List α} {b : β} {f : α → β → Eval (ForInStep β)} {m : Machine}
    (g : α → β → β) (P : α → Prop) (Q : β → Machine → Prop)
    (hgo : ∀ a ∈ xs, ¬P a → ∀ s, (f a s).exec m = (.ok (.yield (g a s)), m))
    (hstop : ∀ a ∈ xs, P a → ∀ s, ∃ s' m', (f a s).exec m = (.ok (.done s'), m') ∧ Q s' m')
    (hsome : ∃ a ∈ xs, P a) :
    ∃ r m', (forIn xs b f).exec m = (.ok r, m') ∧ Q r m' := by
  induction xs generalizing b with
  | nil => simp at hsome
  | cons a xs ih =>
    rw [List.forIn_cons, exec_bind]
    by_cases hp : P a
    · obtain ⟨s', m', hexec, hq⟩ := hstop a List.mem_cons_self hp b
      rw [hexec]
      exact ⟨s', m', rfl, hq⟩
    · rw [hgo a List.mem_cons_self hp b]
      refine ih (fun a' ha' => hgo a' (List.mem_cons_of_mem a ha'))
        (fun a' ha' => hstop a' (List.mem_cons_of_mem a ha')) ?_
      obtain ⟨a', ha', hpa'⟩ := hsome
      rcases List.mem_cons.mp ha' with rfl | ha'
      · exact absurd hpa' hp
      · exact ⟨a', ha', hpa'⟩

/-- What follows a loop that `exec_forIn_stop` runs to a stop. -/
theorem exec_forIn_stop_bind {γ : Type} {xs : List α} {b : β} {f : α → β → Eval (ForInStep β)}
    {k : β → Eval γ} {m : Machine} {R : Except Halt γ × Machine → Prop}
    (g : α → β → β) (P : α → Prop) (Q : β → Machine → Prop)
    (hgo : ∀ a ∈ xs, ¬P a → ∀ s, (f a s).exec m = (.ok (.yield (g a s)), m))
    (hstop : ∀ a ∈ xs, P a → ∀ s, ∃ s' m', (f a s).exec m = (.ok (.done s'), m') ∧ Q s' m')
    (hsome : ∃ a ∈ xs, P a) (hk : ∀ r m', Q r m' → R ((k r).exec m')) :
    R ((forIn xs b f >>= k).exec m) := by
  obtain ⟨r, m', hloop, hq⟩ := exec_forIn_stop g P Q hgo hstop hsome
  rw [exec_bind, hloop]
  exact hk r m' hq

/-- `mapM` over steps that each give their result and leave the machine as it is. -/
theorem exec_mapM_of_forall₂ {f : α → Eval β} {xs : List α} {ys : List β}
    (h : List.Forall₂ (fun a b => ∀ m, (f a).exec m = (.ok b, m)) xs ys) (m : Machine) :
    (xs.mapM f).exec m = (.ok ys, m) := by
  induction h with
  | nil => rfl
  | cons hab _ ih =>
    rw [List.mapM_cons, exec_bind, hab m]
    dsimp only
    rw [exec_bind, ih]
    rfl

theorem exec_fail (message : String) (pos : Position) (m : Machine) :
    (fail message pos).exec m = (.ok (.error message),
      { m with diagnostics := m.diagnostics.push (Diagnostic.mk .evaluation message (some pos)) }) :=
  rfl

end Eval

namespace Builtins

open Eval

/-! ## Fields -/

theorem dropWhile_of_forall {p : Char → Bool} {l : List Char} (h : ∀ c ∈ l, p c = false) :
    l.dropWhile p = l := by
  cases l with
  | nil => rfl
  | cons c l => exact List.dropWhile_cons_of_neg (by simp [h c List.mem_cons_self])

theorem trimBlank_eq_self {s : String} (h : ∀ c ∈ s.toList, Text.isBlank c = false) :
    Text.trimBlank s = s := by
  unfold Text.trimBlank
  rw [dropWhile_of_forall h, dropWhile_of_forall (by simpa using h), List.reverse_reverse,
    String.ofList_toList]

theorem isBlank_of_isDigit {c : Char} (h : c.isDigit = true) : Text.isBlank c = false := by
  simp only [Char.isDigit, Bool.and_eq_true, decide_eq_true_eq] at h
  have h1 : 48 ≤ c.toNat := h.1
  have h2 : c.toNat ≤ 57 := h.2
  simp only [Text.isBlank, Bool.or_eq_false_iff, Bool.and_eq_false_imp, decide_eq_true_eq,
    decide_eq_false_iff_not, beq_eq_false_iff_ne]
  omega

theorem isDigit_of_mem_decimal {n : Nat} {c : Char} (h : c ∈ Nat.toDigits 10 n) :
    c.isDigit = true :=
  Nat.isDigit_of_mem_toDigits (by decide) (by decide) h

theorem ofDigits_toDigits (negative : Bool) {n : Nat} (hn : n < 10 ^ 10) :
    IntText.ofDigits negative (Nat.toDigits 10 n) =
      .number (if negative then -(n : Int) else n) := by
  have hdigits : ∀ c ∈ Nat.toDigits 10 n, c.isDigit = true := fun c hc => isDigit_of_mem_decimal hc
  have hlen : (Nat.toDigits 10 n).length ≤ 10 :=
    (Nat.length_toDigits_le_iff (by decide) (by decide)).mpr hn
  unfold IntText.ofDigits
  rw [if_neg (by simp [List.all_eq_true.mpr hdigits]), if_neg (by simp [Text.maxDigits]; omega)]
  -- the digits of a number read back as the number
  rw [show decimalValue (Nat.toDigits 10 n) = n from Nat.ofDigitChars_ten_toDigits]

/-- The decimal text of a 32-bit integer converts back to it. -/
theorem parseIntText_toString {n : Int} (h : fitsInt32 n = true) :
    parseIntText (toString n) = .number n := by
  simp only [fitsInt32, int32Min, int32Max, Bool.and_eq_true] at h
  have hlow := of_decide_eq_true h.1
  have hhigh := of_decide_eq_true h.2
  cases n with
  | ofNat m =>
    have hs : toString (Int.ofNat m) = Nat.repr m := rfl
    have hm : m < 10 ^ 10 := by rw [Int.ofNat_eq_natCast] at hhigh; omega
    have hdigits : ∀ c ∈ (Nat.repr m).toList, c.isDigit = true := by
      intro c hc
      rw [Nat.toList_repr] at hc
      exact isDigit_of_mem_decimal hc
    unfold parseIntText
    rw [hs, trimBlank_eq_self fun c hc => isBlank_of_isDigit (hdigits c hc), Nat.toList_repr]
    split
    next ds hds =>
      -- a decimal numeral starts with a digit, not a minus sign
      have hminus := hdigits '-' (by rw [Nat.toList_repr, hds]; simp)
      simp at hminus
    next => rw [ofDigits_toDigits false hm]; rfl
  | negSucc m =>
    have hs : toString (Int.negSucc m) = "-" ++ Nat.repr (m + 1) := rfl
    have hm : m + 1 < 10 ^ 10 := by rw [Int.negSucc_eq] at hlow; omega
    have hblank : ∀ c ∈ ("-" ++ Nat.repr (m + 1)).toList, Text.isBlank c = false := by
      intro c hc
      simp only [String.toList_append, Nat.toList_repr, List.mem_append] at hc
      rcases hc with hc | hc
      · simp at hc
        subst hc
        decide
      · exact isBlank_of_isDigit (isDigit_of_mem_decimal hc)
    unfold parseIntText
    rw [hs, trimBlank_eq_self hblank]
    simp only [String.toList_append, Nat.toList_repr]
    rw [show "-".toList = ['-'] from rfl, List.singleton_append]
    simp only
    rw [ofDigits_toDigits true hm]
    simp [Int.negSucc_eq]

/-- Whether a value is one that a column of type `t` holds and gets back from its CSV text:
an integer within 32 bits, a boolean, a character, a text or null, each in a column of its
own type. -/
def fitsColumn : Value → Ty → Bool
  | .int n, .int => fitsInt32 n
  | .bool _, .bool | .char _, .char | .string _, .string | .null, .null => true
  | _, _ => false

/-- A field that fits its column is written as a text that reads back as the field. -/
theorem fieldValue_fieldText {v : Value} {t : Ty} (h : fitsColumn v t = true) :
    ∃ s, fieldText? v = some s ∧ fieldValue s t = .ok (some v) := by
  cases v <;> cases t <;> simp only [fitsColumn, reduceCtorEq] at h
  case int.int n =>
    refine ⟨toString n, rfl, ?_⟩
    simp only [fieldValue, parseIntText_toString h, h, if_true]
    rfl
  case bool.bool b =>
    have hfalse : Text.trimBlank "false" = "false" := by decide
    have htrue : Text.trimBlank "true" = "true" := by decide
    cases b
    · exact ⟨"false", rfl, by simp [fieldValue, hfalse]; rfl⟩
    · exact ⟨"true", rfl, by simp [fieldValue, htrue]; rfl⟩
  case char.char c =>
    refine ⟨c.toString, rfl, ?_⟩
    have hc : c.toString.toList = [c] := by simp
    simp only [fieldValue, hc]
    rfl
  case string.string s => exact ⟨s, rfl, rfl⟩
  case null.null => exact ⟨"", rfl, rfl⟩

theorem isSome_fieldText {v : Value} {t : Ty} (h : fitsColumn v t = true) :
    (fieldText? v).isSome = true := by
  obtain ⟨s, hs, -⟩ := fieldValue_fieldText h
  simp [hs]

/-- A field that fits its column is a scalar, so it equals itself. -/
theorem equal_self_of_fitsColumn {v : Value} {t : Ty} (h : fitsColumn v t = true) :
    v.equal v = true := by
  unfold fitsColumn at h
  split at h <;> simp_all [Value.equal]

/-! ## Rows and records -/

/-- Whether a row is a tuple with one value for each column of a schema, each fitting its
column. -/
def rowFits (columns : List (String × Ty)) : Value → Bool
  | .tuple vs _ => vs.length == columns.length && (vs.zip columns).all fun (v, c) => fitsColumn v c.2
  | _ => false

theorem forall₂_of_rowFits {columns : List (String × Ty)} {row : Value}
    (h : rowFits columns row = true) :
    ∃ vs t, row = .tuple vs t ∧ List.Forall₂ (fun v c => fitsColumn v c.2 = true) vs columns := by
  cases row
  case tuple vs t =>
    simp only [rowFits, Bool.and_eq_true, beq_iff_eq, List.all_eq_true] at h
    refine ⟨vs, t, rfl, ?_⟩
    obtain ⟨hlen, hall⟩ := h
    induction vs generalizing columns with
    | nil => cases columns with
      | nil => exact .nil
      | cons c cs => simp at hlen
    | cons v vs ih =>
      cases columns with
      | nil => simp at hlen
      | cons c cs =>
        refine .cons (hall (v, c) (by simp)) (ih (by simpa using hlen) fun p hp => hall p ?_)
        simp [hp]
  all_goals simp [rowFits] at h

/-- The texts of a row's fields, as they are written. -/
def rowTexts : Value → List String
  | .tuple vs _ => vs.filterMap fieldText?
  | _ => []

/-- The records written for a table: the column names first when a header is asked for,
then the texts of each row. -/
def csvRecords (columns : List (String × Ty)) (rows : List Value) (header : Bool) :
    List (List String) :=
  (if header then [columns.map Prod.fst] else []) ++ rows.map rowTexts

theorem drop_csvRecords (columns : List (String × Ty)) (rows : List Value) (header : Bool) :
    (csvRecords columns rows header).drop (if header then 1 else 0) = rows.map rowTexts := by
  cases header <;> simp [csvRecords]

/-- A row as reading gives it back: its values, typed by the schema. -/
def retype (columns : List (String × Ty)) : Value → Value
  | .tuple vs _ => .tuple vs (.tuple (columns.map Prod.snd))
  | row => row

/-- The row that reading makes of a record's texts, when every field fits its column. -/
def readRow (columns : List (String × Ty)) (texts : List String) : Value :=
  .tuple ((texts.zip columns).filterMap fun (text, c) =>
    match fieldValue text c.2 with
    | .ok v => v
    | .error _ => none) (.tuple (columns.map Prod.snd))

/-- Each field of a fitting row reads back from its text. -/
theorem forall₂_readFields {f : String × (String × Ty) → Eval (Option Value)}
    (hf : ∀ text c v, fieldValue text c.2 = .ok (some v) → ∀ m, (f (text, c)).exec m = (.ok (some v), m))
    {vs : List Value} {t : Ty} {columns : List (String × Ty)}
    (hfit : List.Forall₂ (fun v c => fitsColumn v c.2 = true) vs columns) :
    List.Forall₂ (fun a b => ∀ m, (f a).exec m = (.ok b, m))
      ((rowTexts (.tuple vs t)).zip columns) (vs.map some) := by
  simp only [rowTexts]
  induction hfit with
  | nil => exact .nil
  | cons hv _ ih =>
    obtain ⟨s, hs, hval⟩ := fieldValue_fieldText hv
    rw [List.filterMap_cons, hs]
    exact .cons (hf _ _ _ hval) ih

theorem readRow_rowTexts {columns : List (String × Ty)} {vs : List Value} {t : Ty}
    (hfit : List.Forall₂ (fun v c => fitsColumn v c.2 = true) vs columns) :
    readRow columns (rowTexts (.tuple vs t)) = retype columns (.tuple vs t) := by
  simp only [readRow, rowTexts, retype, Value.tuple.injEq, and_true]
  induction hfit with
  | nil => rfl
  | cons hv _ ih =>
    obtain ⟨s, hs, hval⟩ := fieldValue_fieldText hv
    rw [List.filterMap_cons, hs]
    simp [hval, ih]

theorem length_rowTexts {columns : List (String × Ty)} {vs : List Value} {t : Ty}
    (hfit : List.Forall₂ (fun v c => fitsColumn v c.2 = true) vs columns) :
    (rowTexts (.tuple vs t)).length = columns.length := by
  simp only [rowTexts]
  induction hfit with
  | nil => rfl
  | cons hv _ ih =>
    obtain ⟨s, hs, -⟩ := fieldValue_fieldText hv
    rw [List.filterMap_cons, hs]
    simp [ih]

theorem equal_retype {columns : List (String × Ty)} {vs : List Value} {t : Ty}
    (hfit : List.Forall₂ (fun v c => fitsColumn v c.2 = true) vs columns) :
    (retype columns (.tuple vs t)).equal (.tuple vs t) = true := by
  simp only [retype, Value.equal]
  induction hfit with
  | nil => rfl
  | @cons v c _ _ hv _ ih => simp [Value.equalAll, equal_self_of_fitsColumn hv, ih]

/-! ## Writing -/

theorem foldl_push_rowTexts (rows : List Value) (acc : Array (List String)) :
    rows.foldl (fun s row => ((none : Option Value), s.2.push (rowTexts row))) (none, acc) =
      (none, acc ++ (rows.map rowTexts).toArray) := by
  induction rows generalizing acc with
  | nil => simp
  | cons row rows ih =>
    simp only [List.foldl_cons]
    rw [ih]
    simp

/-- A table whose rows are tuples of scalars is written as the CSV form of its records, at the
path's file. -/
theorem writeCSV_exec {path q : String} {columns : List (String × Ty)} {rows : List Value}
    {ty : Ty} {header : Bool} {pos : Position} {m : Machine} (hq : m.files.WritesTo path q)
    (hscalar : ∀ row ∈ rows, ∃ vs t, row = .tuple vs t ∧ ∀ v ∈ vs, (fieldText? v).isSome = true) :
    (writeCSV path (.table columns rows ty) header pos).exec m = (.ok .null,
      { m with files := m.files.store q (Utf8.encode (Csv.write (csvRecords columns rows header))) }) := by
  unfold writeCSV
  dsimp only
  rw [exec_bind, exec_forIn_yield (fun row s => (none, s.2.push (rowTexts row)))]
  · rw [foldl_push_rowTexts]
    dsimp only
    rw [exec_bind, exec_get]
    dsimp only
    have hrecords : ((if header = true then #[List.map Prod.fst columns] else #[]) ++
        (rows.map rowTexts).toArray).toList = csvRecords columns rows header := by
      cases header <;> simp [csvRecords]
    rw [hrecords, hq]
    rfl
  · -- every row is a tuple of scalars, so every pass records its texts and goes on
    intro row hrow s m'
    obtain ⟨vs, t, rfl, hvs⟩ := hscalar row hrow
    have hnone : ((vs.map fieldText?).any Option.isNone) = false := by
      simp only [List.any_map, List.any_eq_false, Function.comp_apply, Option.isNone_iff_eq_none]
      intro v hv hnil
      exact absurd (hvs v hv) (by simp [hnil])
    simp only [hnone, Bool.false_eq_true, if_false, rowTexts, List.filterMap_map, Function.comp_def,
      id]
    rfl

/-- A table with a row that is not a tuple of scalars is not written: writing it gives the
error value and leaves the files as they were. -/
theorem writeCSV_not_scalar {path : String} {columns : List (String × Ty)} {rows : List Value}
    {ty : Ty} {header : Bool} {pos : Position} {m : Machine}
    (hbad : ∃ row ∈ rows, ∀ vs t, row = .tuple vs t → ∃ v ∈ vs, fieldText? v = none) :
    ∃ m', (writeCSV path (.table columns rows ty) header pos).exec m =
      (.ok (.error "writeCSV: only scalar columns can be written"), m') ∧ m'.files = m.files := by
  unfold writeCSV
  dsimp only
  refine exec_forIn_stop_bind (m := m)
    (R := fun res => ∃ m', res = (.ok (Value.error "writeCSV: only scalar columns can be written"), m') ∧
      m'.files = m.files)
    (fun row (s : Option Value × Array (List String)) => (none, s.2.push ((match row with
      | .tuple vs _ => vs.map fieldText?
      | _ => [none]).filterMap id)))
    (fun row => ∀ vs t, row = Value.tuple vs t → ∃ v ∈ vs, fieldText? v = none)
    (fun r m' => r.1 = some (Value.error "writeCSV: only scalar columns can be written") ∧
      m'.files = m.files)
    ?_ ?_ hbad ?_
  · -- a row of scalars is recorded and the loop goes on
    intro row hrow hgood s
    cases row
    case tuple vs t =>
      have hscalar : (vs.map fieldText?).any Option.isNone = false := by
        simp only [List.any_map, List.any_eq_false, Function.comp_apply, Option.isNone_iff_eq_none]
        intro v hv hnil
        exact hgood fun vs' t' heq => by cases heq; exact ⟨v, hv, hnil⟩
      simp only [hscalar, Bool.false_eq_true, if_false]
      rfl
    all_goals exact absurd (fun vs t heq => by cases heq) hgood
  · -- the first row that is not a tuple of scalars stops the loop with the error value
    intro row hrow hnot s
    have hstop : ∀ k : Eval (ForInStep (Option Value × Array (List String))),
        ∃ s' m', ((if true = true then do
            let e ← fail "writeCSV: only scalar columns can be written" pos
            pure (ForInStep.done (some e, s.2)) else k)).exec m = (.ok (.done s'), m') ∧
          s'.1 = some (Value.error "writeCSV: only scalar columns can be written") ∧
          m'.files = m.files := by
      intro k
      rw [if_pos rfl, exec_bind, exec_fail]
      exact ⟨_, _, rfl, rfl, rfl⟩
    cases row
    case tuple vs t =>
      obtain ⟨v, hv, hnil⟩ := hnot vs t rfl
      have hany : (vs.map fieldText?).any Option.isNone = true := by
        simp only [List.any_map, List.any_eq_true, Function.comp_apply, Option.isNone_iff_eq_none]
        exact ⟨v, hv, hnil⟩
      rw [hany]
      exact hstop _
    all_goals exact hstop _
  · -- the stopped loop's error value is what writing gives
    rintro r m' ⟨hr, hfiles⟩
    refine ⟨m', ?_, hfiles⟩
    rw [hr]
    rfl

/-! ## Reading -/

/-- The rows read from the records of fitting rows are those rows, typed by the schema. -/
theorem foldl_push_readRow {columns : List (String × Ty)} {rows : List Value}
    (hfit : ∀ row ∈ rows, rowFits columns row = true) (acc : Array Value) (k : Nat) :
    (((rows.map rowTexts).zipIdx k).foldl (fun s x => s.push (readRow columns x.1)) acc).toList =
      acc.toList ++ rows.map (retype columns) := by
  induction rows generalizing acc k with
  | nil => simp
  | cons row rows ih =>
    obtain ⟨vs, t, rfl, hvs⟩ := forall₂_of_rowFits (hfit _ List.mem_cons_self)
    simp only [List.map_cons, List.zipIdx_cons, List.foldl_cons]
    rw [ih (fun r hr => hfit r (List.mem_cons_of_mem _ hr)), readRow_rowTexts hvs]
    simp

/-- Reading the file of a table's records, with the table's schema and header flag, gives
its rows typed by the schema and leaves the machine as it is. -/
theorem readCSV_exec {path : String} {columns : List (String × Ty)} {rows : List Value}
    {header : Bool} {pos : Position} {m : Machine}
    (hfit : ∀ row ∈ rows, rowFits columns row = true)
    (hlimit : ∀ record ∈ csvRecords columns rows header, ∀ f ∈ record, f.length ≤ Csv.fieldLimit)
    (hread : m.files.read path = .ok (Utf8.encode (Csv.write (csvRecords columns rows header)))) :
    (readCSV path columns header pos).exec m = (.ok (Value.tableOf columns (rows.map (retype columns))), m) := by
  unfold readCSV
  rw [exec_bind, exec_get]
  dsimp only
  rw [hread]
  dsimp only
  rw [exec_bind, exec_pure]
  dsimp only
  rw [Utf8.decodeStream_encode]
  dsimp only
  rw [exec_bind, exec_pure]
  dsimp only
  rw [Csv.read_write _ hlimit]
  dsimp only
  rw [exec_bind, exec_forIn_yield (fun x s => s.push (readRow columns x.1))]
  · dsimp only
    rw [exec_pure, drop_csvRecords]
    rw [foldl_push_readRow hfit]
    rfl
  · -- every record fits the schema, so every pass adds its row and goes on
    intro x hx s m'
    rw [drop_csvRecords] at hx
    have hmem : x.1 ∈ rows.map rowTexts := List.fst_mem_of_mem_zipIdx hx
    obtain ⟨row, hrow, hx1⟩ := List.mem_map.mp hmem
    obtain ⟨vs, t, rfl, hvs⟩ := forall₂_of_rowFits (hfit row hrow)
    rw [if_neg (by simp [← hx1, length_rowTexts hvs])]
    rw [exec_bind, ← hx1, exec_mapM_of_forall₂ (forall₂_readFields ?_ hvs)]
    · dsimp only
      have hfind : ((vs.map some).zip columns).find? (fun x => x.1.isNone) = none := by
        rw [List.find?_eq_none]
        rintro ⟨o, c⟩ hp
        obtain ⟨v, -, rfl⟩ := List.mem_map.mp (List.of_mem_zip hp).1
        simp
      rw [hfind]
      dsimp only
      rw [readRow_rowTexts hvs]
      simp only [List.filterMap_map, Function.comp_def, id, List.filterMap_some, retype]
      rfl
    · intro text c v hval m''
      dsimp only
      rw [hval]
      rfl

/-! ## Tables as the program makes them -/

/-- The column types whose values a CSV field holds. -/
def csvColumnType : Ty → Bool
  | .int | .bool | .char | .string | .null => true
  | _ => false

/-- A well-typed field that the check of `createTable` accepts in a column of a CSV column
type is a value of that type. -/
theorem fitsColumn_of_conformsTo {v : Value} {t : Ty} (hv : v.WellTyped)
    (ht : csvColumnType t = true) (hconf : v.type.conformsTo t = true)
    (hint : ∀ n, v = .int n → fitsInt32 n = true) : fitsColumn v t = true := by
  have hopen : ¬t.IsOpen := by cases t <;> simp_all [csvColumnType, Ty.IsOpen]
  have hknown : t ≠ .unknown := by cases t <;> simp_all [csvColumnType]
  have hhead := hv.head_eq_of_conformsTo hopen hknown hconf
  -- the head of the value's type names its constructor: only the matching pairs are left
  cases t <;> simp only [csvColumnType, Bool.false_eq_true] at ht <;> cases hv <;>
    simp only [Value.type, Ty.head, reduceCtorEq] at hhead
  case int.int n => exact hint n rfl
  all_goals rfl

/-- A well-typed row that the check of `createTable` accepts, under a schema of CSV column
types and with its integers within 32 bits, fits the schema. -/
theorem rowFits_of_rowProblem {columns : List (String × Ty)} {row : Value}
    (hrow : rowProblem columns row = none) (hwt : row.WellTyped)
    (hcols : ∀ c ∈ columns, csvColumnType c.2 = true)
    (hint : ∀ vs t, row = .tuple vs t → ∀ n, .int n ∈ vs → fitsInt32 n = true) :
    rowFits columns row = true := by
  cases hwt
  case tuple es ts _ _ hes =>
    simp only [rowProblem, bne_iff_ne, ne_eq, ite_not] at hrow
    split at hrow
    next hlen =>
      simp only [rowFits, hlen, beq_self_eq_true, Bool.true_and, List.all_eq_true]
      rintro ⟨v, n, t⟩ hvc
      have hmem := List.of_mem_zip hvc
      have hconf := List.findSome?_eq_none_iff.mp hrow (v, n, t) hvc
      simp only [ite_eq_left_iff, reduceCtorEq, imp_false, Bool.not_eq_true,
        Bool.not_eq_false] at hconf
      exact fitsColumn_of_conformsTo (hes v hmem.1) (hcols _ hmem.2) hconf
        fun k hk => hint es _ rfl k (hk ▸ hmem.1)
    next => cases hrow
  all_goals simp [rowProblem] at hrow

theorem scalar_of_rowFits {columns : List (String × Ty)} {row : Value}
    (h : rowFits columns row = true) :
    ∃ vs t, row = .tuple vs t ∧ ∀ v ∈ vs, (fieldText? v).isSome = true := by
  obtain ⟨vs, t, rfl, hvs⟩ := forall₂_of_rowFits h
  refine ⟨vs, t, rfl, ?_⟩
  clear h
  induction hvs with
  | nil => simp
  | cons hv _ ih => simpa [isSome_fieldText hv] using ih

theorem equalAll_map_retype {columns : List (String × Ty)} {rows : List Value}
    (hfit : ∀ row ∈ rows, rowFits columns row = true) :
    Value.equalAll (rows.map (retype columns)) rows = true := by
  induction rows with
  | nil => rfl
  | cons row rows ih =>
    obtain ⟨vs, t, rfl, hvs⟩ := forall₂_of_rowFits (hfit _ List.mem_cons_self)
    simp only [List.map_cons, Value.equalAll, equal_retype hvs, Bool.true_and]
    exact ih fun r hr => hfit r (List.mem_cons_of_mem _ hr)

/-- CSV files keep tables. A well-typed table whose schema has only CSV column types and
whose every row `createTable` accepts, with its integers within 32 bits, written to a
writable path is read back from it, with its schema and the same header flag, as a table
of rows equal to its own, in order; neither step records a diagnostic. A table with a field
that is not a scalar is not written: writing it gives an error value and leaves every file
as it was. -/
theorem csv_round_trip (path : String) (columns : List (String × Ty)) (rows : List Value)
    (ty : Ty) (header : Bool) (pos : Position) (m : Machine) :
    ((∃ q, m.files.WritesTo path q) → (Value.table columns rows ty).WellTyped →
      (∀ c ∈ columns, csvColumnType c.2 = true) →
      (∀ row ∈ rows, rowProblem columns row = none) →
      (∀ row ∈ rows, ∀ vs t, row = .tuple vs t → ∀ n, .int n ∈ vs → fitsInt32 n = true) →
      (∀ record ∈ csvRecords columns rows header, ∀ f ∈ record, f.length ≤ Csv.fieldLimit) →
      ∃ m₁ rows', (writeCSV path (.table columns rows ty) header pos).exec m = (.ok .null, m₁) ∧
        m₁.diagnostics = m.diagnostics ∧
        (readCSV path columns header pos).exec m₁ = (.ok (Value.tableOf columns rows'), m₁) ∧
        Value.equalAll rows' rows = true) ∧
    ((∃ row ∈ rows, ∃ vs t, row = .tuple vs t ∧ ∃ v ∈ vs, fieldText? v = none) →
      ∃ m', (writeCSV path (.table columns rows ty) header pos).exec m =
        (.ok (.error "writeCSV: only scalar columns can be written"), m') ∧ m'.files = m.files) := by
  refine ⟨fun ⟨q, hq⟩ hwt hcols hrows hint hlimit => ?_, fun ⟨row, hrow, vs, t, heq, hbad⟩ => ?_⟩
  · have hfit : ∀ row ∈ rows, rowFits columns row = true := by
      cases hwt with
      | table _ _ _ hrs =>
        exact fun row hrow => rowFits_of_rowProblem (hrows row hrow) (hrs row hrow) hcols
          (hint row hrow)
    refine ⟨_, rows.map (retype columns),
      writeCSV_exec hq fun row hrow => scalar_of_rowFits (hfit row hrow), rfl, ?_,
      equalAll_map_retype hfit⟩
    exact readCSV_exec hfit hlimit (FileStore.read_store_of_writesTo hq _)
  · refine writeCSV_not_scalar ⟨row, hrow, fun vs' t' heq' => ?_⟩
    rw [heq, Value.tuple.injEq] at heq'
    exact heq'.1 ▸ hbad

/-- A table of one row with a field of each CSV column type, among them a text with a
delimiter, quotes and a line break and a comma character, written with a header to a fresh
file and read back. -/
theorem mixed_row_round_trips :
    let columns := [("n", Ty.int), ("s", .string), ("c", .char), ("b", .bool), ("z", .null)]
    let row := Value.tuple [.int (-7), .string "a,\"b\"\r\n", .char ',', .bool true, .null]
      (.tuple [.int, .string, .char, .bool, .null])
    let m : Machine := ⟨#[], "", [], FileStore.empty, 0⟩
    let pos : Position := ⟨"t.retl", 1, 1, ""⟩
    ∃ m₁ rows', (writeCSV "t" (Value.tableOf columns [row]) true pos).exec m = (.ok .null, m₁) ∧
      m₁.diagnostics = m.diagnostics ∧
      (readCSV "t" columns true pos).exec m₁ = (.ok (Value.tableOf columns rows'), m₁) ∧
      Value.equalAll rows' [row] = true := by
  intro columns row m pos
  have hwrites : m.files.WritesTo "t" "t" := fun bytes => by cbv
  have hwt : (Value.tableOf columns [row]).WellTyped := by
    refine .table (by decide) (by decide) (by simp [row, columns]) ?_
    intro r hr
    simp only [List.mem_singleton] at hr
    subst hr
    refine .tuple rfl (by decide) fun v hv => ?_
    simp only [List.mem_cons, List.not_mem_nil, or_false] at hv
    rcases hv with rfl | rfl | rfl | rfl | rfl <;> constructor
  exact (csv_round_trip "t" columns [row] _ true pos m).1 ⟨"t", hwrites⟩ hwt
    (by decide) (by simp [row, columns, rowProblem, Ty.conformsTo]) (by simp [row]; decide) (by decide)

end Builtins

end Retl
