import GraphSchema.Number.Double
import GraphSchema.Calendar.Date
import GraphSchema.Scalar
import GraphSchema.Field.Kind
import GraphSchema.Text.Name

namespace GraphSchema

-- Objects are numbered, each kind on its own.
abbrev ShapeId := Nat
abbrev FieldId := Nat
abbrev RuleId := Nat
abbrev RuleSetId := Nat
abbrev InvalidationId := Nat
abbrev FieldCacheId := Nat
abbrev TypeCacheId := Nat
abbrev InterfaceId := Nat
abbrev TypeId := Nat
abbrev EnumId := Nat
abbrev RegistryId := Nat
abbrev BuilderId := Nat
abbrev PrinterId := Nat
abbrev ConfigId := Nat

-- So are things from outside the schema that have no other identity.
abbrev OutsideId := Nat

inductive Definition
  | interface (i : InterfaceId)
  | type (t : TypeId)
  | enum (e : EnumId)
  deriving DecidableEq, Inhabited

inductive Ref
  | shape (s : ShapeId)
  | field (f : FieldId)
  | rule (r : RuleId)
  | ruleSet (r : RuleSetId)
  | invalidation (i : InvalidationId)
  | fieldCache (c : FieldCacheId)
  | typeCache (c : TypeCacheId)
  | definition (d : Definition)
  | registry (r : RegistryId)
  | builder (b : BuilderId)
  | printer (p : PrinterId)
  | config (c : ConfigId)
  -- Lists that belong to an object and grow with it.
  | operations (r : RuleId)
  | rules (s : RuleSetId)
  | interfaces (t : TypeId)
  deriving DecidableEq, Inhabited

def indexLimit : Nat := 0x8000000000000000

-- There is no room for this many items or characters.
def memoryLimit : Nat := 0x200000000

structure Progression where
  start : Int
  stop : Int
  step : Int
  deriving DecidableEq, Inhabited

namespace Progression

def size (p : Progression) : Nat :=
  if p.step = 0 then 0
  else if 0 < p.step then ((p.stop - p.start + p.step - 1) / p.step).toNat
  else ((p.start - p.stop - p.step - 1) / -p.step).toNat

def toList (p : Progression) : List Int :=
  (List.range p.size).map fun (i : Nat) => p.start + i * p.step

def contains (p : Progression) (n : Int) : Bool :=
  let steps := (n - p.start) / p.step
  p.start + steps * p.step == n && 0 ≤ steps && steps < p.size

theorem length_toList (p : Progression) : p.toList.length = p.size := by simp [toList]

def equals (p q : Progression) : Bool :=
  p.size == q.size && (p.size == 0 || (p.start == q.start && (p.size == 1 || p.step == q.step)))

end Progression

-- Numbers of which there can be members of a class.
inductive Number
  | int (n : Int)
  | float (x : Double)
  | decimal (d : Decimal)
  deriving DecidableEq, Inhabited

namespace Number

def toDecimal : Number → Decimal
  | int n => .ofInt n
  | float x => x.toDecimal
  | decimal d => d

def toText : Number → String
  | int n => toString n
  | float x => x.toText
  | decimal d => d.toText

def isFinite : Number → Bool
  | int _ => true
  | float x => x.isFinite
  | decimal d => d.isFinite

end Number

-- What a number says of itself as a member of a class. Its text is its name behind a word and a
-- dot, unless the class leaves the text to the number.
structure Label where
  owner : String
  name : String
  shown : String
  scope : Option String
  words : Name.isWord name.toList ∧ ∀ s ∈ scope, Name.isWord s.toList
  deriving DecidableEq

def Label.text (l : Label) (n : Number) : String :=
  match l.scope with
  | none => n.toText
  | some s => s ++ "." ++ l.name

mutual

-- Not every value from outside is here: a text is made of characters, so it has no half of a
-- surrogate pair on its own, the members of a class are no texts, and there are no other kinds of
-- sequences.
inductive Value
  | null
  | bool (b : Bool)
  | int (n : Int)
  | float (x : Double)
  | decimal (d : Decimal)
  | date (d : Date)
  | dateTime (t : DateTime)
  | text (s : String)
  | bytes (bs : List UInt8)
  | byteArray (bs : List UInt8)
  | progression (p : Progression)
  | list (xs : List Value)
  | tuple (xs : List Value)
  -- Its items can be taken once.
  | stream (xs : List Value)
  -- Entries in insertion order; no two keys are equal.
  | dict (entries : List (Value × Value))
  -- An object of which only the name is known.
  | foreign (id : OutsideId) (name : String)
  -- Each name comes with the member that it stands for: the name of that, and its value.
  | enumClass (id : OutsideId) (name : String) (members : List (String × String × Value))
  | enumMember (owner : OutsideId) (ownerName name : String) (value : Value)
  -- A number that is a member of a class of numbers.
  | labelled (n : Number) (l : Label)
  | scalar (s : Scalar)
  | nodeKind (k : NodeKind)
  | enumRef (name : String) (values : Option (List Value))
  | objectRef (name : String)
  -- Builds auth rules when it is called.
  | script (lines : List RuleLine)
  | object (r : Ref)

inductive RuleLine
  | mk (kind : String) (args : List Value) (operations : List String)

end

namespace RuleLine

instance : Inhabited RuleLine := ⟨mk "" [] []⟩

def kind : RuleLine → String
  | mk k _ _ => k

def args : RuleLine → List Value
  | mk _ as _ => as

def operations : RuleLine → List String
  | mk _ _ os => os

end RuleLine

namespace Value

instance : Inhabited Value := ⟨null⟩

abbrev field (f : FieldId) : Value := object (.field f)
abbrev definition (d : Definition) : Value := object (.definition d)
abbrev ruleSet (r : RuleSetId) : Value := object (.ruleSet r)

def texts (ss : List String) : Value := list (ss.map text)

def ofNumber : Number → Value
  | .int n => int n
  | .float x => float x
  | .decimal d => decimal d

-- The whole number of an integer; truth values count as none.
def int? : Value → Option Int
  | int n | labelled (.int n) _ => some n
  | _ => none

theorem int?_eq_some_iff {v : Value} {n : Int} :
    v.int? = some n ↔ v = int n ∨ ∃ l, v = labelled (.int n) l := by
  cases v
  case int => simp [int?]
  case labelled m l => cases m <;> simp [int?]
  all_goals simp [int?]

def text? : Value → Option String
  | text s => some s
  | _ => none

def field? : Value → Option FieldId
  | object (.field f) => some f
  | _ => none

def definition? : Value → Option Definition
  | object (.definition d) => some d
  | _ => none

def isNull : Value → Bool
  | null => true
  | _ => false

end Value

end GraphSchema
