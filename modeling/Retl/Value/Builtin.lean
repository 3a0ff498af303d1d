import Retl.Types.Ty
/-!
# Builtin functions

The functions every program starts with, in the order the root scope lists them,
with their parameters and declared result types. Their behaviour lives with the
evaluator; here is only what a function value of a builtin shows: its name, its
parameter names and types, and its result type.
-/

namespace Retl

/-- A builtin function. -/
inductive Builtin where
  | map
  | filter
  | foldl
  | foldr
  | zip
  | slice
  | substr
  | len
  | type
  | range
  | print
  | println
  | readln
  | intToString
  | stringToInt
  | createTable
  | column
  | collect
  | count
  | readCSV
  | writeCSV
  deriving DecidableEq, Repr

namespace Builtin

/-- Every builtin, in the order the root scope lists them. -/
def all : List Builtin :=
  [.map, .filter, .foldl, .foldr, .zip, .slice, .substr, .len, .type, .range, .print, .println,
   .readln, .intToString, .stringToInt, .createTable, .column, .collect, .count, .readCSV,
   .writeCSV]

/-- The name a program calls a builtin by. -/
def name : Builtin → String
  | .map => "map"
  | .filter => "filter"
  | .foldl => "foldl"
  | .foldr => "foldr"
  | .zip => "zip"
  | .slice => "slice"
  | .substr => "substr"
  | .len => "len"
  | .type => "type"
  | .range => "range"
  | .print => "print"
  | .println => "println"
  | .readln => "readln"
  | .intToString => "intToString"
  | .stringToInt => "stringToInt"
  | .createTable => "createTable"
  | .column => "column"
  | .collect => "collect"
  | .count => "count"
  | .readCSV => "readCSV"
  | .writeCSV => "writeCSV"

/-- A list of anything. -/
def anyList : Ty := .list .any

/-- The parameters of a builtin, each with its name and declared type. -/
def params : Builtin → List (String × Ty)
  | .map => [("f", .func [.any] .any), ("xs", anyList)]
  | .filter => [("f", .func [.any] .bool), ("xs", anyList)]
  | .foldl | .foldr => [("init", .any), ("xs", anyList), ("f", .func [.any, .any] .any)]
  | .zip => [("xs", anyList), ("ys", anyList)]
  | .slice => [("xs", anyList), ("start", .int), ("end", .int)]
  | .substr => [("s", .string), ("start", .int), ("end", .int)]
  | .len | .type | .print | .println => [("x", .any)]
  | .range => [("start", .int), ("end", .int)]
  | .readln => []
  | .intToString => [("n", .int)]
  | .stringToInt => [("s", .string)]
  | .createTable => [("schema", .schema), ("rows", anyList)]
  | .column => [("table", anyList), ("name", .string)]
  | .collect | .count => [("table", anyList)]
  | .readCSV => [("path", .string), ("schema", .schema), ("header", .bool)]
  | .writeCSV => [("path", .string), ("table", anyList), ("header", .bool)]

/-- The declared result type of a builtin. -/
def result : Builtin → Ty
  | .map | .filter | .slice | .createTable | .column | .collect | .readCSV => anyList
  | .foldl | .foldr => .any
  | .zip => .list (.tuple [.any, .any])
  | .substr | .type | .readln | .intToString => .string
  | .len | .stringToInt | .count => .int
  | .range => .list .int
  | .print | .println | .writeCSV => .null

/-- The builtin a name calls, if any. -/
def ofName? (n : String) : Option Builtin := all.find? fun b => b.name == n

end Builtin

end Retl
