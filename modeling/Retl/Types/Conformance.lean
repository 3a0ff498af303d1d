import Retl.Types.Ty
/-!
# Conformance of type terms

`Ty.unify actual expected` resolves a value's type against the type its context
expects. `any` on either side gives way to the other side; a union meets a non-union
through its first member that resolves completely; lists, tuples, dictionaries and
functions resolve member by member; `unknown` on one side gives way to the other
side. Whatever cannot be resolved becomes `unknown`, so a result is accepted only
when no `unknown` is left anywhere inside it (`Ty.conform?`).

Tuples, unions and parameter lists resolve pairwise, and the pairwise rule rejects
two empty lists: `tuple[]` meets `tuple[]`, and `lambda[->a]` meets `lambda[->b]`,
only when the two terms are equal outright.
-/

namespace Retl

namespace Ty

mutual

/-- Resolve `actual` against `expected`; `unknown` marks the parts that do not fit. -/
def unify (actual expected : Ty) : Ty :=
  if actual = expected then actual
  else
    match actual, expected with
    | .any, e => e
    | a, .any => a
    | .union ms, .union ns =>
        match unifyPairwise ms ns with
        | some us => .union us
        | none => .unknown
    | .union ms, e => unifyMember ms e
    | a, .union ns => unifyMember ns a
    | .list x, .list y => .list (unify x y)
    | .tuple xs, .tuple ys =>
        match unifyPairwise xs ys with
        | some us => .tuple us
        | none => .unknown
    | .dict k v, .dict k' v' => .dict (unify k k') (unify v v')
    | .func ps r, .func qs s =>
        match unifyPairwise ps qs with
        | some us => .func us (unify r s)
        | none => .unknown
    | a, .unknown => a
    | .unknown, e => e
    | _, _ => .unknown
termination_by sizeOf actual + sizeOf expected

/-- Resolve two lists member by member; two lists of different lengths, or an
empty list on either side, do not resolve. -/
def unifyPairwise (as bs : List Ty) : Option (List Ty) :=
  if as.isEmpty || bs.isEmpty || as.length != bs.length then none
  else some (unifyZip as bs)
termination_by sizeOf as + sizeOf bs + 1

/-- Resolve two lists position by position, up to the shorter length. -/
def unifyZip : List Ty → List Ty → List Ty
  | a :: as, b :: bs => unify a b :: unifyZip as bs
  | _, _ => []
termination_by as bs => sizeOf as + sizeOf bs

/-- The first member of a union that resolves against `other` with no `unknown`
left, resolved; `unknown` when there is none. -/
def unifyMember (members : List Ty) (other : Ty) : Ty :=
  match members with
  | [] => .unknown
  | m :: ms =>
      let r := unify m other
      if r.hasUnknown then unifyMember ms other else r
termination_by sizeOf members + sizeOf other

end

/-- The resolved type when `actual` conforms to `expected`, with nothing left unknown. -/
def conform? (actual expected : Ty) : Option Ty :=
  let r := unify actual expected
  if r.hasUnknown then none else some r

/-- Whether `actual` conforms to `expected`. -/
def conformsTo (actual expected : Ty) : Bool :=
  !(unify actual expected).hasUnknown

/-- The message of a failed conformance. -/
def mismatchMessage (actual expected : Ty) : String :=
  "Type mismatch, " ++ actual.render ++ " vs. " ++ expected.render

end Ty

end Retl
