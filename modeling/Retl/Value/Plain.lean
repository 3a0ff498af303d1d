import Retl.Value.Basic
/-!
# Plain data

The plain view of a value drops its types: scalars stay scalars (a character is a
one-character text), lists and tables become lists, tuples stay tuples, a schema becomes
the list of its `(column, type)` pairs, a function its printed text, and an error
nothing.

A dictionary becomes a map whose keys are compared as plain data, where `true` is the
key `1` and `false` the key `0`, and a character is the text it spells. When two pairs
of a dictionary have equal keys they merge into one entry, which keeps the place and
the key of the first and the value of the last.
-/

namespace Retl

/-- Plain data: what a value looks like once its types are dropped. -/
inductive Plain where
  | int (n : Int)
  | bool (b : Bool)
  | text (s : String)
  | none
  | list (items : List Plain)
  | tuple (items : List Plain)
  | dict (entries : List (Plain × Plain))
  deriving Repr

namespace Plain

/-- Whether two dictionary keys are the same key: numbers and booleans by numeric
value, texts by content. Dictionary keys are literals, so only scalars meet here. -/
def sameKey : Plain → Plain → Bool
  | .int a, .int b => a == b
  | .int a, .bool b | .bool b, .int a => a == (if b then 1 else 0)
  | .bool a, .bool b => a == b
  | .text a, .text b => a == b
  | .none, .none => true
  | _, _ => false

/-- Put an entry into a map: an equal key keeps its place and takes the new value. -/
def insert (entries : List (Plain × Plain)) (key value : Plain) : List (Plain × Plain) :=
  if entries.any (fun e => sameKey e.1 key) then
    entries.map fun e => if sameKey e.1 key then (e.1, value) else e
  else entries ++ [(key, value)]

/-- The map of a list of pairs, inserted in order. -/
def ofPairs (pairs : List (Plain × Plain)) : List (Plain × Plain) :=
  pairs.foldl (fun m (k, v) => insert m k v) []

example : (ofPairs [(.int 1, .text "a"), (.bool true, .text "b"), (.int 0, .none)]).length = 2 := by
  decide

end Plain

namespace Value

mutual

/-- The plain view of a value. -/
def plain : Value → Plain
  | .int n => .int n
  | .bool b => .bool b
  | .char c => .text c.toString
  | .string s => .text s
  | .null => .none
  | .list es _ | .table _ es _ => .list (plainAll es)
  | .tuple es _ => .tuple (plainAll es)
  | .dict ps _ => .dict (Plain.ofPairs (plainPairs ps))
  | .schema cs => .list (cs.map fun (n, t) => .tuple [.text n, .text t.render])
  | v@(.func _ _ _ _ _ _) => .text v.render
  | .error _ => .none

/-- The plain views of values. -/
def plainAll : List Value → List Plain
  | [] => []
  | v :: vs => plain v :: plainAll vs

/-- The plain views of dictionary pairs. -/
def plainPairs : List (Value × Value) → List (Plain × Plain)
  | [] => []
  | (k, v) :: ps => (plain k, plain v) :: plainPairs ps

end

end Value

end Retl
