import Retl.Value.Builtin
import Retl.Expr.Basic
/-!
# Runtime values

What evaluation produces. Every value carries a type: scalars their own (`int`,
`bool`, `char`, `string`, `null`, `schema`), an error `unknown`, and lists, tuples,
dictionaries, tables and functions a type of their own that conformance may refine.
Lists, tuples and tables hold their elements and rows in order; a dictionary is an
association list in insertion order. A table is a schema with rows and is typed as
the list of its row tuples.

A function value is a builtin or a function literal evaluated in some scope, which it
captures. Two function values are the same function only when they come from the same
evaluation of a literal, or are the same builtin; every evaluation of a literal makes a
new one (`FuncId`).

Scopes are frames, innermost first; a name resolves in the innermost frame that binds it.
-/

namespace Retl

/-- Which function a function value is: a builtin, or the `n`-th function literal
evaluated in a run. -/
inductive FuncId where
  | builtin (b : Builtin)
  | lambda (n : Nat)
  deriving DecidableEq, Repr

/-- A runtime value. -/
inductive Value where
  | int (n : Int)
  | bool (b : Bool)
  | char (c : Char)
  | string (s : String)
  | null
  | list (elements : List Value) (type : Ty)
  | tuple (elements : List Value) (type : Ty)
  | dict (pairs : List (Value × Value)) (type : Ty)
  | schema (columns : List (String × Ty))
  | table (columns : List (String × Ty)) (rows : List Value) (type : Ty)
  | func (id : FuncId) (params : List (String × Ty)) (result : Ty) (body : Option Expr)
      (closure : List (List (String × Value))) (type : Ty)
  | error (message : String)

/-- The bindings of one scope, in the order they were made. -/
abbrev Frame := List (String × Value)

/-- A chain of scopes, innermost first. -/
abbrev Env := List Frame

namespace Value

/-- The type a value carries. -/
def type : Value → Ty
  | .int _ => .int
  | .bool _ => .bool
  | .char _ => .char
  | .string _ => .string
  | .null => .null
  | .schema _ => .schema
  | .error _ => .unknown
  | .list _ t | .tuple _ t | .dict _ t | .table _ _ t | .func _ _ _ _ _ t => t

/-- The name of a value's kind. -/
def kindName : Value → String
  | .int _ => "Int"
  | .bool _ => "Bool"
  | .char _ => "Char"
  | .string _ => "String"
  | .null => "Null"
  | .list _ _ => "List"
  | .tuple _ _ => "Tuple"
  | .dict _ _ => "Dict"
  | .schema _ => "Schema"
  | .table _ _ _ => "Table"
  | .func _ _ _ _ _ _ => "Func"
  | .error _ => "Error"

/-- The value with its type replaced; scalars and errors keep their own type. -/
def retype (v : Value) (t : Ty) : Value :=
  match v with
  | .list es _ => .list es t
  | .tuple es _ => .tuple es t
  | .dict ps _ => .dict ps t
  | .table cs rs _ => .table cs rs t
  | .func i ps r b c _ => .func i ps r b c t
  | v => v

/-- Whether a value is an error. -/
def isError : Value → Bool
  | .error _ => true
  | _ => false

/-- A list of values typed as a list of `element`. -/
def listOf (vs : List Value) (element : Ty) : Value := .list vs (.list element)

/-- A tuple typed by its elements' types. -/
def tupleOf (vs : List Value) : Value := .tuple vs (.tuple (vs.map type))

/-- A table of a schema's columns and rows, typed as the list of its row tuples. -/
def tableOf (columns : List (String × Ty)) (rows : List Value) : Value :=
  .table columns rows (.list (.tuple (columns.map Prod.snd)))

/-- The value of a builtin in the root scope. -/
def ofBuiltin (b : Builtin) : Value :=
  .func (.builtin b) b.params b.result none [] (.func (b.params.map Prod.snd) b.result)

/-- The items of anything that has items: list and tuple elements, table rows, the
characters of a text, and the pairs of a dictionary as two-element tuples. -/
def items? : Value → Option (List Value)
  | .list es _ | .tuple es _ | .table _ es _ => some es
  | .string s => some (s.toList.map Value.char)
  | .dict ps _ => some (ps.map fun (k, v) => tupleOf [k, v])
  | _ => none

/-- A list, or a table seen as the list of its rows: the elements and the type. -/
def asList? : Value → Option (List Value × Ty)
  | .list es t | .table _ es t => some (es, t)
  | _ => none

mutual

/-- Structural equality of values: a table equals a list with the same rows, functions
are equal only to themselves, and an error equals nothing. -/
def equal : Value → Value → Bool
  | .int a, .int b => a == b
  | .bool a, .bool b => a == b
  | .char a, .char b => a == b
  | .string a, .string b => a == b
  | .null, .null => true
  | .schema a, .schema b => a == b
  | .list xs _, .list ys _ | .list xs _, .table _ ys _ | .table _ xs _, .list ys _
  | .table _ xs _, .table _ ys _ | .tuple xs _, .tuple ys _ => equalAll xs ys
  | .dict ps _, .dict qs _ => equalPairs ps qs
  | .func i _ _ _ _ _, .func j _ _ _ _ _ => i == j
  | _, _ => false

/-- Element-wise equality of two lists of the same length. -/
def equalAll : List Value → List Value → Bool
  | [], [] => true
  | x :: xs, y :: ys => equal x y && equalAll xs ys
  | _, _ => false

/-- Pair-wise equality of two association lists of the same length. -/
def equalPairs : List (Value × Value) → List (Value × Value) → Bool
  | [], [] => true
  | (k, v) :: ps, (k', v') :: qs => equal k k' && equal v v' && equalPairs ps qs
  | _, _ => false

end

/-- The text `print` writes for a scalar. -/
def scalarText? : Value → Option String
  | .int n => some (toString n)
  | .bool b => some (if b then "true" else "false")
  | .char c => some c.toString
  | .string s => some s
  | _ => none

/-- The text of a schema. -/
def schemaText (columns : List (String × Ty)) : String :=
  "schema \x7b " ++ ", ".intercalate (columns.map fun (n, t) => n ++ ": " ++ t.render) ++ " \x7d"

mutual

/-- The text of a value, as a session echoes it: texts in double quotes and characters
in single quotes, both unescaped. -/
def render : Value → String
  | .int n => toString n
  | .bool b => if b then "true" else "false"
  | .char c => "'" ++ c.toString ++ "'"
  | .string s => "\"" ++ s ++ "\""
  | .null => "null"
  | .list es _ => "[" ++ renderAll es ++ "]"
  | .tuple es _ => "(" ++ renderAll es ++ ")"
  | .dict ps _ => "\x7b" ++ renderPairs ps ++ "\x7d"
  | .schema cs => schemaText cs
  | .table cs rs _ => "table(" ++ schemaText cs ++ ", " ++ toString rs.length ++ " rows)"
  | .func (.builtin b) _ _ _ _ _ => "<builtin " ++ b.name ++ ">"
  | .func _ _ _ _ _ t => "<" ++ t.render ++ ">"
  | .error _ => "<error>"

/-- The texts of values joined by `", "`. -/
def renderAll : List Value → String
  | [] => ""
  | [v] => render v
  | v :: vs => render v ++ ", " ++ renderAll vs

/-- The texts of dictionary pairs, `key: value`, joined by `", "`. -/
def renderPairs : List (Value × Value) → String
  | [] => ""
  | [(k, v)] => render k ++ ": " ++ render v
  | (k, v) :: ps => render k ++ ": " ++ render v ++ ", " ++ renderPairs ps

end

end Value

namespace Env

/-- The root scope: every builtin bound to its function value. -/
def root : Env := [Builtin.all.map fun b => (b.name, Value.ofBuiltin b)]

/-- A new innermost scope binding one name. -/
def bind (env : Env) (name : String) (v : Value) : Env := [(name, v)] :: env

/-- Set a name in a frame: a new name goes last, a repeated one keeps its place and
takes the new value. -/
def Frame.set (f : Frame) (name : String) (v : Value) : Frame :=
  if f.any (fun b => b.1 == name) then f.map fun b => if b.1 == name then (name, v) else b
  else f ++ [(name, v)]

/-- The value a name resolves to: its binding in the innermost frame that has one. -/
def lookup (env : Env) (name : String) : Option Value :=
  match env with
  | [] => none
  | f :: fs =>
    match f.find? fun b => b.1 == name with
    | some (_, v) => some v
    | none => lookup fs name

/-- The names in scope, innermost first, each once. -/
def names (env : Env) : List String :=
  (env.flatMap fun f => f.map Prod.fst).eraseDups

end Env

end Retl
