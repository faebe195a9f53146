import GraphSchema.Value.Literal
import Mathlib.Data.Rat.Init
import Mathlib.Algebra.Field.Rat

namespace GraphSchema

inductive Constant
  | null
  | bool (b : Bool)
  | enum (name : String)
  | number (q : ℚ)
  | text (s : String)
  | list (items : List Constant)
  -- In the order in which they are written.
  | object (fields : List (String × Constant))

-- The number that a finite decimal stands for.
def Decimal.rational (negative : Bool) (coefficient : Nat) (exponent : Int) : ℚ :=
  (if negative then -1 else 1) * coefficient * 10 ^ exponent

mutual

-- The JSON values that are exact, each with the constant that it stands for. Tuples are lists,
-- and the keys of an object are names.
inductive Value.Means : Value → Constant → Prop
  | null : Means .null .null
  | bool {b} : Means (.bool b) (.bool b)
  | int {n} : Means (.int n) (.number n)
  | decimal {negative c e} :
    Means (.decimal (.finite negative c e)) (.number (Decimal.rational negative c e))
  | text {s} : Means (.text s) (.text s)
  | list {xs cs} : MeansAll xs cs → Means (.list xs) (.list cs)
  | tuple {xs cs} : MeansAll xs cs → Means (.tuple xs) (.list cs)
  | dict {es fs} : MeansFields es fs → Means (.dict es) (.object fs)

inductive Value.MeansAll : List Value → List Constant → Prop
  | nil : MeansAll [] []
  | cons {x c xs cs} : Means x c → MeansAll xs cs → MeansAll (x :: xs) (c :: cs)

inductive Value.MeansFields : List (Value × Value) → List (String × Constant) → Prop
  | nil : MeansFields [] []
  | cons {k v c es fs} : Name.isWord k.toList → Means v c → MeansFields es fs →
    MeansFields ((.text k, v) :: es) ((k, c) :: fs)

end

namespace Value

mutual

theorem Means.isConstant {v : Value} {c : Constant} : Means v c → v.isConstant
  | .null | .bool | .int | .decimal | .text => rfl
  | .list h | .tuple h => h.areConstants
  | .dict h => h.areConstantEntries

theorem MeansAll.areConstants {xs : List Value} {cs : List Constant} :
    MeansAll xs cs → Value.areConstants xs
  | .nil => rfl
  | .cons h hs => by simp [Value.areConstants, h.isConstant, hs.areConstants]

theorem MeansFields.areConstantEntries {es : List (Value × Value)} {fs : List (String × Constant)} :
    MeansFields es fs → Value.areConstantEntries es
  | .nil => rfl
  | .cons hk h hs => by
    simp [Value.areConstantEntries, isNameText, isName, Name.accepts_of_isWord hk, h.isConstant,
      hs.areConstantEntries]

end

end Value

end GraphSchema
