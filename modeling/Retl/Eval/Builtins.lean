import Retl.Eval.Machine
import Retl.Eval.Operators
import Retl.Csv
import Retl.Text.Blank
import Retl.Text.Utf8
import Retl.Text.Decimal
/-!
# The behaviour of the builtins

Each builtin receives its arguments already conformed to its parameter types, and the
position of the call, where it reports what goes wrong: a failing builtin records an
evaluation diagnostic there and gives the error value of the same message. The
higher-order builtins call functions through an `Engine`, the evaluator one level deeper.

Texts are sequences of code points for `len`, `substr` and iteration. `readCSV` skips
and reports the records that do not fit the schema, numbering records from 1;
`writeCSV` writes scalars only. A file that is not UTF-8, a field longer than the
reader takes, a path with a null character, and a decimal text with more digits than a
conversion takes (in `stringToInt` or an integer column) halt the run.
-/

namespace Retl

/-- The evaluator as the builtins and the one-level interpreter see it: evaluate an
expression in a scope under an expected type, and call a function value at a position. -/
structure Engine where
  eval : Env → Ty → Expr → Eval Value
  call : Value → List Value → Position → Eval Value

namespace Builtins

open Eval

/-- "`fn` requires `expected` for `param`, got `type`". -/
def requires (fn param expected : String) (v : Value) : String :=
  fn ++ " requires " ++ expected ++ " for " ++ param ++ ", got " ++ v.type.render

/-- "`fn`: invalid range `start`..`stop` for length `n`". -/
def badRange (fn : String) (start stop : Int) (n : Nat) : String :=
  fn ++ ": invalid range " ++ toString start ++ ".." ++ toString stop ++ " for length " ++ toString n

/-- Whether `start..stop` is a valid slice of a sequence of length `n`. -/
def rangeOk (start stop : Int) (n : Nat) : Bool := 0 ≤ start && start ≤ stop && stop ≤ n

/-- The declared parameters and result of a function value. -/
def signature? : Value → Option (List (String × Ty) × Ty)
  | .func _ ps r _ _ _ => some (ps, r)
  | _ => none

/-- The number that a sequence of ASCII digits denotes. -/
def decimalValue (ds : List Char) : Nat :=
  ds.foldl (fun n d => 10 * n + (d.toNat - '0'.toNat)) 0

/-- What a decimal text converts to. -/
inductive IntText where
  /-- The text is not an optional minus sign and ASCII digits, blanks around it aside. -/
  | malformed
  /-- The text has `count` digits, more than a conversion takes (`Text.maxDigits`). -/
  | tooLong (count : Nat)
  /-- The text denotes `n`. -/
  | number (n : Int)

/-- The integer of a sign and a run of ASCII digits, once the digits are counted. -/
def IntText.ofDigits (negative : Bool) (ds : List Char) : IntText :=
  if ds.isEmpty || !ds.all Char.isDigit then .malformed
  else if ds.length > Text.maxDigits then .tooLong ds.length
  else .number (if negative then -(decimalValue ds : Int) else decimalValue ds)

/-- What decimal text denotes: blanks around it are dropped, and then only an optional
minus sign and ASCII digits may remain. -/
def parseIntText (s : String) : IntText :=
  match (Text.trimBlank s).toList with
  | '-' :: ds => IntText.ofDigits true ds
  | ds => IntText.ofDigits false ds

/-- The fault of converting a decimal text of `count` digits, too many to convert. -/
def digitFault (count : Nat) : Halt :=
  .fault ("ValueError: " ++ Text.digitLimitMessage count)

/-- `map f xs`: `f` on every element, in order, typed as `f` declares its result. -/
def map (k : Engine) (f xs : Value) (pos : Position) : Eval Value := do
  let some (items, _) := xs.asList? | fail (requires "map" "xs" "list" xs) pos
  let some (_, result) := signature? f | fail (requires "map" "f" "function" f) pos
  let mut out := #[]
  for x in items do
    let r ← k.call f [x] pos
    if r.isError then return r
    out := out.push r
  pure (Value.listOf out.toList result)

/-- `filter f xs`: the elements on which the predicate gives `true`. -/
def filter (k : Engine) (f xs : Value) (pos : Position) : Eval Value := do
  let some (_, result) := signature? f | fail (requires "filter" "f" "function" f) pos
  if !result.conformsTo .bool then
    return ← fail ("filter requires a predicate returning bool, got " ++ result.render) pos
  let some (items, t) := xs.asList? | fail (requires "filter" "xs" "list" xs) pos
  let mut kept := #[]
  for x in items do
    let r ← k.call f [x] pos
    if r.isError then return r
    match r with
    | .bool true => kept := kept.push x
    | .bool false => pure ()
    | _ => return ← fail (requires "filter" "predicate result" "bool" r) pos
  pure (Value.listOf kept.toList t.elementType)

/-- `foldl` and `foldr`: `f(acc, element)` over the elements, from the first or from
the last. A list of characters folds into a text accumulator as one-character texts
when the function takes texts. -/
def fold (k : Engine) (name : String) (fromRight : Bool) (init xs f : Value) (pos : Position) :
    Eval Value := do
  let some (items, t) := xs.asList? | fail (requires name "xs" "list" xs) pos
  let some (params, _) := signature? f | fail (requires name "f" "function" f) pos
  let (accParam, elemParam) := match params with
    | [(_, a), (_, e)] => (a, e)
    | _ => (.unknown, .unknown)
  let accTy := init.type
  let widen := t.elementType == .char && accTy == .string
  let elemTy := if widen && Ty.string.conformsTo elemParam then .string else t.elementType
  if !widen && !accTy.conformsTo elemTy then
    return ← fail (name ++ ": accumulator type " ++ accTy.render ++ " does not match element type " ++
      elemTy.render) pos
  if !accTy.conformsTo accParam || !elemTy.conformsTo elemParam then
    return ← fail (name ++ ": function of type " ++ f.type.render ++ " cannot fold " ++
      elemTy.render ++ " into " ++ accTy.render) pos
  let mut acc := init
  for x in (if fromRight then items.reverse else items) do
    let x := match elemTy, x with
      | .string, .char c => Value.string c.toString
      | _, x => x
    acc ← k.call f [acc, x] pos
    if acc.isError then return acc
  pure acc

/-- `zip xs ys`: the pairs of elements at the same places. Lists of different lengths
are reported and give an empty list. -/
def zip (xs ys : Value) (pos : Position) : Eval Value := do
  let some (as, ta) := xs.asList? | fail (requires "zip" "xs" "list" xs) pos
  let some (bs, tb) := ys.asList? | fail (requires "zip" "ys" "list" ys) pos
  let pair := Ty.tuple [ta.elementType, tb.elementType]
  if as.length != bs.length then
    let _ ← fail ("zip requires lists of equal length, got " ++ toString as.length ++ " and " ++
      toString bs.length) pos
    return Value.listOf [] pair
  pure (Value.listOf ((as.zip bs).map fun (a, b) => Value.tupleOf [a, b]) pair)

/-- The problem with a row for a schema, if any. -/
def rowProblem (columns : List (String × Ty)) (row : Value) : Option String :=
  match row with
  | .tuple fields _ =>
    if fields.length != columns.length then
      some ("Row has " ++ toString fields.length ++ " fields, schema has " ++
        toString columns.length ++ " columns")
    else
      (fields.zip columns).findSome? fun (v, (n, t)) =>
        if v.type.conformsTo t then none
        else some ("Column " ++ n ++ " expects " ++ t.render ++ ", got " ++ v.type.render)
  | _ => some ("Table rows must be tuples, got " ++ row.type.render)

/-- The value of one CSV field in a column of type `t`, if the text fits it; the digit
count of an integer too long to convert is the error. -/
def fieldValue (text : String) (t : Ty) : Except Nat (Option Value) :=
  match t with
  | .int =>
    match parseIntText text with
    | .number n => pure (if fitsInt32 n then some (.int n) else none)
    | .tooLong count => throw count
    | .malformed => pure none
  | .bool =>
    let s := Text.trimBlank text
    pure (if s == "true" then some (.bool true) else if s == "false" then some (.bool false) else none)
  | .char => match text.toList with
    | [c] => pure (some (.char c))
    | _ => pure none
  | .string | .any => pure (some (.string text))
  | .null => pure (if text.isEmpty then some .null else none)
  | _ => pure none

/-- The CSV text of a field value: nothing for null, the scalar text otherwise. -/
def fieldText? : Value → Option String
  | .null => some ""
  | v => v.scalarText?

/-- `readCSV path schema header`: the records of the file as a table. -/
def readCSV (path : String) (columns : List (String × Ty)) (header : Bool) (pos : Position) :
    Eval Value := do
  let m ← get
  let bytes ← match m.files.read path with
    | .ok bytes => pure bytes
    | .error .nullCharacter => throw (.fault ("ValueError: " ++ FileError.nullCharacter.reason))
    | .error e => return ← fail ("readCSV: cannot read " ++ path ++ ": " ++ e.reason) pos
  let text ← match Utf8.decodeStream bytes with
    | .ok text => pure text
    | .error e => throw (.fault ("UnicodeDecodeError: " ++ e.message))
  let start := if header then 1 else 0
  let mut rows := #[]
  let some records := Csv.read text | throw (.fault ("Error: " ++ Csv.fieldLimitMessage))
  for (raw, index) in (records.drop start).zipIdx do
    let line := toString (index + start + 1)
    if raw.length != columns.length then
      let _ ← fail ("readCSV: line " ++ line ++ ": expected " ++ toString columns.length ++
        " fields, got " ++ toString raw.length) pos
      continue
    let fields ← (raw.zip columns).mapM fun (text, (_, t)) =>
      match fieldValue text t with
      | .ok v => pure v
      | .error count => throw (digitFault count)
    match ((fields.zip columns).find? fun (v, _) => v.isNone) with
    | some (_, (n, _)) =>
      let _ ← fail ("readCSV: line " ++ line ++ ": invalid value for column " ++ n) pos
    | none => rows := rows.push (Value.tuple (fields.filterMap id) (.tuple (columns.map Prod.snd)))
  pure (Value.tableOf columns rows.toList)

/-- `writeCSV path table header`: write a table's rows, after a header of its column
names when asked. -/
def writeCSV (path : String) (table : Value) (header : Bool) (pos : Position) : Eval Value := do
  let .table columns rows _ := table | fail (requires "writeCSV" "table" "table" table) pos
  let mut records := if header then #[columns.map Prod.fst] else #[]
  for row in rows do
    let fields := match row with
      | .tuple vs _ => vs.map fieldText?
      | _ => [none]
    if fields.any Option.isNone then
      return ← fail "writeCSV: only scalar columns can be written" pos
    records := records.push (fields.filterMap id)
  let m ← get
  match m.files.write path (Utf8.encode (Csv.write records.toList)) with
  | .ok files => set { m with files } ; pure .null
  | .error .nullCharacter => throw (.fault ("ValueError: " ++ FileError.nullCharacter.reason))
  | .error e => fail ("writeCSV: cannot write " ++ path ++ ": " ++ e.reason) pos

/-- The field of a table row at a column's index. The rows of a table are tuples as
wide as its schema; a row without the field halts the run. -/
def cell (index : Nat) : Value → Eval Value
  | .tuple vs _ | .list vs _ =>
    match vs[index]? with
    | some v => pure v
    | none => throw (.fault "IndexError: list index out of range")
  | _ => throw (.fault "TypeError: a table row is not a sequence")

/-- Run a builtin on its arguments, given in the order of its parameters. -/
def run (k : Engine) (b : Builtin) (args : List Value) (pos : Position) : Eval Value :=
  match b, args with
  | .map, [f, xs] => map k f xs pos
  | .filter, [f, xs] => filter k f xs pos
  | .foldl, [init, xs, f] => fold k "foldl" false init xs f pos
  | .foldr, [init, xs, f] => fold k "foldr" true init xs f pos
  | .zip, [xs, ys] => zip xs ys pos
  | .slice, [xs, .int a, .int e] =>
    match xs.asList? with
    | some (items, t) =>
      if rangeOk a e items.length then
        pure (Value.listOf ((items.take e.toNat).drop a.toNat) t.elementType)
      else fail (badRange "slice" a e items.length) pos
    | none => fail (requires "slice" "xs" "list" xs) pos
  | .substr, [.string s, .int a, .int e] =>
    if rangeOk a e s.length then pure (.string (String.ofList ((s.toList.take e.toNat).drop a.toNat)))
    else fail (badRange "substr" a e s.length) pos
  | .len, [x] =>
    match x with
    | .int _ | .bool _ | .char _ | .null | .schema _ | .func _ _ _ _ _ _ =>
      fail ("Cannot get length of " ++ x.type.render) pos
    | _ => pure (.int ((x.items?.map List.length).getD 0))
  | .type, [x] => pure (.string x.type.render)
  | .range, [.int a, .int e] =>
    pure (Value.listOf ((List.range (e - a).toNat).map fun (i : Nat) => Value.int (a + Int.ofNat i)) .int)
  | .print, [x] =>
    match x.scalarText? with
    | some s => do emit s; pure .null
    | none => fail ("Cannot print value of type " ++ x.type.render) pos
  | .println, [x] =>
    match x.scalarText? with
    | some s => do emit (s ++ "\n"); pure .null
    | none => fail ("Cannot print value of type " ++ x.type.render) pos
  | .readln, [] => return .string (← readLine)
  | .intToString, [.int n] => pure (.string (toString n))
  | .stringToInt, [.string s] =>
    match parseIntText s with
    | .malformed => fail ("Cannot convert \"" ++ s ++ "\" to int") pos
    | .tooLong count => throw (digitFault count)
    | .number n =>
      if fitsInt32 n then pure (.int n) else fail ("Integer overflow converting \"" ++ s ++ "\"") pos
  | .createTable, [.schema cs, rows] =>
    match rows.asList? with
    | some (items, _) =>
      match (items.zipIdx.findSome? fun (r, i) => (rowProblem cs r).map (i, ·)) with
      | some (i, problem) => fail ("createTable: row " ++ toString i ++ ": " ++ problem) pos
      | none => pure (Value.tableOf cs items)
    | none => fail (requires "createTable" "rows" "list" rows) pos
  | .column, [t, .string name] =>
    match t with
    | .table cs rs _ =>
      match (cs.zipIdx.find? fun ((n, _), _) => n == name) with
      | some ((_, ct), i) => do
        let cells ← rs.mapM (cell i)
        pure (Value.listOf cells ct)
      | none => fail ("Unknown column: " ++ name) pos
    | _ => fail (requires "column" "table" "table" t) pos
  | .collect, [t] =>
    match t with
    | .table _ rs ty => pure (Value.listOf rs ty.elementType)
    | _ => fail (requires "collect" "table" "table" t) pos
  | .count, [t] =>
    match t with
    | .table _ rs _ => pure (.int rs.length)
    | _ => fail (requires "count" "table" "table" t) pos
  | .readCSV, [.string path, .schema cs, .bool header] => readCSV path cs header pos
  | .writeCSV, [.string path, t, .bool header] => writeCSV path t header pos
  | b, _ => throw (.fault ("TypeError: bad arguments for " ++ b.name))

end Builtins

end Retl
