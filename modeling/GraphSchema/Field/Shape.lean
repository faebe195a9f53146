import GraphSchema.Value.Basic

namespace GraphSchema

inductive Base
  | scalar (s : Scalar)
  -- The values of the enum where they are known.
  | enum (name : String) (values : Option (List Value))
  | object (name : String)
  deriving Inhabited

namespace Base

def ofValue? : Value → Option Base
  | .scalar s => some (scalar s)
  | .enumRef n vs => some (enum n vs)
  | .objectRef n => some (object n)
  | _ => none

def toValue : Base → Value
  | scalar s => .scalar s
  | enum n vs => .enumRef n vs
  | object n => .objectRef n

theorem ofValue?_toValue (b : Base) : ofValue? b.toValue = some b := by cases b <;> rfl

def name : Base → String
  | scalar s => s.name
  | enum n _ => n
  | object n => n

def isObject : Base → Bool
  | object _ => true
  | _ => false

def isEnum : Base → Bool
  | enum .. => true
  | _ => false

def isString : Base → Bool
  | scalar s => s.isString
  | _ => false

end Base

structure Shape where
  base : Base
  nullable : Bool
  isList : Bool
  -- Matters for lists only.
  itemNullable : Bool
  deriving Inhabited

namespace Shape

def isObject (s : Shape) : Bool := s.base.isObject

def isEnum (s : Shape) : Bool := s.base.isEnum

def isString (s : Shape) : Bool := s.base.isString

def mark (nullable : Bool) : String := if nullable then "" else "!"

def text (s : Shape) : String :=
  if s.isList then "[" ++ s.base.name ++ mark s.itemNullable ++ "]" ++ mark s.nullable
  else s.base.name ++ mark s.nullable

def orNull (s : Shape) : Shape := { s with nullable := true }

@[simp]
theorem base_orNull (s : Shape) : s.orNull.base = s.base := rfl

-- A required list; null may stand in it where it could stand before.
def listOf (s : Shape) : Shape :=
  { s with nullable := false, isList := true, itemNullable := s.nullable }

@[simp]
theorem base_listOf (s : Shape) : s.listOf.base = s.base := rfl

@[simp]
theorem isList_listOf (s : Shape) : s.listOf.isList := rfl

end Shape

-- A shape as it was asked for: values of any kind stand for its flags.
structure Outline where
  base : Base
  nullable : Value
  isList : Value
  itemNullable : Value
  deriving Inhabited

namespace Outline

def single (base : Base) (nullable : Value) : Outline := ⟨base, nullable, .bool false, .bool false⟩

def orNull (o : Outline) : Outline := { o with nullable := .bool true }

def listOf (o : Outline) : Outline :=
  { o with nullable := .bool false, isList := .bool true, itemNullable := o.nullable }

-- The shape that is meant, where values count by their truth.
def shape (isTrue : Value → Bool) (o : Outline) : Shape :=
  ⟨o.base, isTrue o.nullable, isTrue o.isList, isTrue o.itemNullable⟩

variable {isTrue : Value → Bool} (h : ∀ b, isTrue (.bool b) = b)

include h in
theorem shape_orNull (o : Outline) : o.orNull.shape isTrue = (o.shape isTrue).orNull := by
  simp [shape, orNull, Shape.orNull, h]

include h in
theorem shape_listOf (o : Outline) : o.listOf.shape isTrue = (o.shape isTrue).listOf := by
  simp [shape, listOf, Shape.listOf, h]

end Outline

end GraphSchema
