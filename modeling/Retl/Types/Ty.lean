/-!
# Type terms

The structural types of RETL programs: the scalars, the two markers `any` (conforms
to every type) and `unknown` (a type that could not be resolved), and the
parameterised list, tuple, dictionary, union and function types. A type prints the
way programs write it: `list[int]`, `tuple[int,string]`, `dict[string: int]`,
`union[int,null]`, `lambda[int,int->bool]`.

Equality of type terms is decided by a structural comparison `Ty.beq`, proved to
agree with `=`.
-/

namespace Retl

/-- A type term. Function types keep their result type apart from their parameters;
tuples and unions may have any number of members, empty included. -/
inductive Ty where
  | int
  | bool
  | char
  | string
  | null
  | schema
  | unknown
  | any
  | list (element : Ty)
  | tuple (elements : List Ty)
  | dict (key value : Ty)
  | union (members : List Ty)
  | func (params : List Ty) (result : Ty)

namespace Ty

mutual

/-- Structural equality of type terms. -/
def beq : Ty → Ty → Bool
  | .int, .int | .bool, .bool | .char, .char | .string, .string | .null, .null
  | .schema, .schema | .unknown, .unknown | .any, .any => true
  | .list a, .list b => beq a b
  | .tuple as, .tuple bs => beqList as bs
  | .dict k v, .dict k' v' => beq k k' && beq v v'
  | .union as, .union bs => beqList as bs
  | .func ps r, .func qs s => beqList ps qs && beq r s
  | _, _ => false

/-- Structural equality of lists of type terms. -/
def beqList : List Ty → List Ty → Bool
  | [], [] => true
  | a :: as, b :: bs => beq a b && beqList as bs
  | _, _ => false

end

mutual

theorem eq_of_beq {a b : Ty} (h : beq a b = true) : a = b := by
  cases a <;> cases b <;> simp only [beq, Bool.and_eq_true, reduceCtorEq] at h ⊢
  case list a b => rw [eq_of_beq h]
  case tuple as bs => rw [eq_of_beqList h]
  case dict k v k' v' => rw [eq_of_beq h.1, eq_of_beq h.2]
  case union as bs => rw [eq_of_beqList h]
  case func ps r qs s => rw [eq_of_beqList h.1, eq_of_beq h.2]
termination_by sizeOf a

theorem eq_of_beqList : ∀ {as bs : List Ty}, beqList as bs = true → as = bs
  | [], [], _ => rfl
  | a :: as, b :: bs, h => by
      simp only [beqList, Bool.and_eq_true] at h
      rw [eq_of_beq h.1, eq_of_beqList h.2]
  | [], _ :: _, h => by simp [beqList] at h
  | _ :: _, [], h => by simp [beqList] at h
termination_by as => sizeOf as

end

mutual

theorem beq_self : ∀ a : Ty, beq a a = true
  | .int | .bool | .char | .string | .null | .schema | .unknown | .any => rfl
  | .list a => by simp only [beq, beq_self a]
  | .tuple as => by simp only [beq, beqList_self as]
  | .dict k v => by simp only [beq, beq_self k, beq_self v, Bool.and_self]
  | .union as => by simp only [beq, beqList_self as]
  | .func ps r => by simp only [beq, beqList_self ps, beq_self r, Bool.and_self]

theorem beqList_self : ∀ as : List Ty, beqList as as = true
  | [] => rfl
  | a :: as => by simp only [beqList, beq_self a, beqList_self as, Bool.and_self]

end

theorem beq_iff_eq {a b : Ty} : beq a b = true ↔ a = b :=
  ⟨eq_of_beq, fun h => h ▸ beq_self a⟩

instance : DecidableEq Ty := fun _ _ => decidable_of_iff _ beq_iff_eq

mutual

/-- The text of a type, as the `type` builtin and every message show it. Tuples,
unions and parameter lists separate their members by a bare comma; a dictionary
puts `": "` between key and value type. -/
def render : Ty → String
  | .int => "int"
  | .bool => "bool"
  | .char => "char"
  | .string => "string"
  | .null => "null"
  | .schema => "schema"
  | .unknown => "unknown"
  | .any => "any"
  | .list e => "list[" ++ e.render ++ "]"
  | .tuple es => "tuple[" ++ renderList es ++ "]"
  | .dict k v => "dict[" ++ k.render ++ ": " ++ v.render ++ "]"
  | .union ms => "union[" ++ renderList ms ++ "]"
  | .func ps r => "lambda[" ++ renderList ps ++ "->" ++ r.render ++ "]"

/-- Type texts joined by commas. -/
def renderList : List Ty → String
  | [] => ""
  | [t] => t.render
  | t :: ts => t.render ++ "," ++ renderList ts

end

mutual

/-- Whether `unknown` occurs anywhere inside a type term, function results included. -/
def hasUnknown : Ty → Bool
  | .unknown => true
  | .list e => e.hasUnknown
  | .tuple es => anyUnknown es
  | .dict k v => k.hasUnknown || v.hasUnknown
  | .union ms => anyUnknown ms
  | .func ps r => anyUnknown ps || r.hasUnknown
  | _ => false

/-- Whether `unknown` occurs inside any of a list of type terms. -/
def anyUnknown : List Ty → Bool
  | [] => false
  | t :: ts => t.hasUnknown || anyUnknown ts

end

/-- The element type of a list type; every other type has `unknown` elements. -/
def elementType : Ty → Ty
  | .list e => e
  | _ => .unknown

example : (Ty.tuple [.int, .list .string]).render = "tuple[int,list[string]]" := by decide
example : (Ty.dict .string .int).render = "dict[string: int]" := by decide
example : (Ty.func [] .int).render = "lambda[->int]" := by decide

end Ty

end Retl
