import Retl.Value.Basic
import Retl.Types.Conformance
import Retl.Expr.Analyze
/-!
# Operators

The value-level meaning of the operators. Arithmetic is on signed 32-bit integers: a
result outside that range is an overflow error, division truncates toward zero and the
remainder takes the sign of the dividend, and a zero divisor is an error. Comparisons
order integers by value and characters and texts by code point, and need two operands
of the same of these kinds. The logical operators need two booleans; both operands are
always evaluated. `++` joins two texts or characters into a text, or two lists (tables
counting as the lists of their rows) whose element types conform. `==` and `!=` compare
structurally; `===` also asks for equal types.

Every operator gives an error value, never a halt, when its operands do not fit.
-/

namespace Retl

namespace Operators

open Value

/-- "Cannot apply op to t", for a prefix operator. -/
def cannotApply (op : String) (v : Value) : Value :=
  .error ("Cannot apply " ++ op ++ " to " ++ v.type.render)

/-- "Cannot op t1 and t2", for a binary operator. -/
def cannot (op : String) (a b : Value) : Value :=
  .error ("Cannot " ++ op ++ " " ++ a.type.render ++ " and " ++ b.type.render)

/-- An integer result, or an overflow error outside 32 bits. -/
def intResult (name : String) (n : Int) : Value :=
  if fitsInt32 n then .int n else .error ("Integer overflow in " ++ name)

/-- Division rounding toward zero: the quotient of the magnitudes, negated when the
operands' signs differ. -/
def truncatingDiv (a b : Int) : Int :=
  let q : Int := a.natAbs / b.natAbs
  if decide (a < 0) = decide (b < 0) then q else -q

/-- The remainder that goes with `truncatingDiv`: what is left of the dividend once the
divisor times the quotient is taken away. -/
def truncatingMod (a b : Int) : Int := a - b * truncatingDiv a b

/-- An arithmetic operator on two integers; `divides` marks the operators that refuse
a zero divisor. -/
def arithmetic (name : String) (f : Int → Int → Int) (divides : Bool) (a b : Value) : Value :=
  match a, b with
  | .int x, .int y => if divides && y == 0 then .error "Division by zero" else intResult name (f x y)
  | _, _ => cannot name a b

/-- Order two values of the same comparable kind. -/
def compare (f : Ordering → Bool) (a b : Value) : Value :=
  match a, b with
  | .int x, .int y => .bool (f (Ord.compare x y))
  | .char x, .char y => .bool (f (Ord.compare x y))
  | .string x, .string y => .bool (f (Ord.compare x y))
  | _, _ => cannot "compare" a b

/-- A logical operator on two booleans. -/
def logical (name : String) (f : Bool → Bool → Bool) (a b : Value) : Value :=
  match a, b with
  | .bool x, .bool y => .bool (f x y)
  | _, _ => cannot name a b

/-- The text of a text or a character. -/
def textOf? : Value → Option String
  | .string s => some s
  | .char c => some c.toString
  | _ => none

/-- Join two texts, or two lists whose element types conform. -/
def concat (a b : Value) : Value :=
  match textOf? a, textOf? b with
  | some x, some y => .string (x ++ y)
  | _, _ =>
    match a.asList?, b.asList? with
    | some (xs, tx), some (ys, ty) =>
      let t := tx.elementType.unify ty.elementType
      if t.hasUnknown then cannot "concatenate" a b else Value.listOf (xs ++ ys) t
    | _, _ => cannot "concatenate" a b

/-- Apply a binary operator. -/
def binary (op : PrimOp) (a b : Value) : Value :=
  match op with
  | .add => arithmetic "add" (· + ·) false a b
  | .sub => arithmetic "subtract" (· - ·) false a b
  | .mul => arithmetic "multiply" (· * ·) false a b
  | .div => arithmetic "divide" truncatingDiv true a b
  | .rem => arithmetic "take remainder of" truncatingMod true a b
  | .lt => compare (· == .lt) a b
  | .le => compare (· != .gt) a b
  | .gt => compare (· == .gt) a b
  | .ge => compare (· != .lt) a b
  | .and => logical "and" (· && ·) a b
  | .or => logical "or" (· || ·) a b
  | .concat => concat a b
  | .eq => .bool (a.equal b)
  | .ne => .bool (!a.equal b)
  | .same => .bool (a.equal b && a.type == b.type)
  | .not | .neg => .error ("Unknown operator: " ++ op.symbol)

/-- Apply a prefix operator. -/
def unary (op : PrimOp) (a : Value) : Value :=
  match op, a with
  | .neg, .int n => intResult "negate" (-n)
  | .neg, _ => cannotApply "negate" a
  | .not, .bool b => .bool (!b)
  | .not, _ => cannotApply "!" a
  | _, _ => .error ("Unknown unary operator: " ++ op.symbol)

/-- Apply an operator to its evaluated operands. -/
def apply (op : PrimOp) (a : Value) : Option Value → Value
  | none => unary op a
  | some b => binary op a b

example : (apply .div (.int (-7)) (some (.int 2))).isError = false := rfl

end Operators

end Retl
