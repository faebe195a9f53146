import GraphSchema.Value.Basic
import GraphSchema.Text.Quoted

namespace GraphSchema

structure Numbered (α : Type) where
  id : Nat
  val : α
  deriving Inhabited

inductive Policy
  | entity | type | list
  deriving DecidableEq, Inhabited

namespace Policy

def name : Policy → String
  | entity => "entity"
  | type => "type"
  | list => "list"

def ofName? (n : String) : Option Policy := [entity, type, list].find? (·.name == n)

theorem ofName?_name (p : Policy) : ofName? p.name = some p := by cases p <;> decide

end Policy

inductive Invalidation
  -- The field name has no meaning here and can be anything.
  | policy (p : Policy) (fieldName : Value)
  | field (name : String)
  deriving Inhabited

namespace Invalidation

def text : Invalidation → String
  | policy p _ => p.name
  | field n => "\x7b field: " ++ quote n ++ " \x7d"

def policyName : Invalidation → String
  | policy p _ => p.name
  | field _ => "field"

def fieldName : Invalidation → Value
  | policy _ v => v
  | field n => .text n

end Invalidation

structure FieldCache where
  maxAge : Nat
  staleWhileRevalidate : Option Nat
  deriving DecidableEq, Inhabited

namespace FieldCache

-- Zero is what goes without saying.
def staleArgument : Option Nat → List String
  | none | some 0 => []
  | some n => ["staleWhileRevalidate: " ++ toString n]

def arguments (c : FieldCache) : List String :=
  ("maxAge: " ++ toString c.maxAge) :: staleArgument c.staleWhileRevalidate

def directive (args : List String) : String := "@cache(" ++ ", ".intercalate args ++ ")"

def text (c : FieldCache) : String := directive c.arguments

end FieldCache

structure TypeCache where
  params : FieldCache
  invalidation : Option (Numbered Invalidation)
  deriving Inhabited

namespace TypeCache

def arguments (c : TypeCache) : List String :=
  c.params.arguments
    ++ (c.invalidation.map fun i => "mutationInvalidation: " ++ i.val.text).toList

def text (c : TypeCache) : String := FieldCache.directive c.arguments

end TypeCache

end GraphSchema
