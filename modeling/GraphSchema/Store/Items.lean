import GraphSchema.Store.Basic
import GraphSchema.Value.Equality
import GraphSchema.Value.Items

namespace GraphSchema.Store

def typeName (σ : Store) : Ref → String
  | .shape _ => "FieldShape"
  | .field f => (σ.fields.getD f default).kind.name ++ "Definition"
  | .rule _ => "AuthRule"
  | .ruleSet _ => "AuthRules"
  | .invalidation _ => "MutationInvalidation"
  | .fieldCache _ => "FieldCache"
  | .typeCache _ => "TypeCache"
  | .definition d => d.typeName
  | .registry _ => "Registry"
  | .builder _ => "SchemaBuilder"
  | .printer _ => "SchemaPrinter"
  | .config _ => "Config"
  | .operations _ | .rules _ | .interfaces _ => "list"

def ownList? (σ : Store) : Ref → Option (List Value)
  | .operations r => σ.rules[r]?.map fun a => a.operations.map (.text ·.name)
  | .rules s => σ.ruleSets[s]?.map fun rs => rs.map fun r => .object (.rule r)
  | .interfaces t =>
    σ.types[t]?.map fun t => t.interfaces.map fun i => .definition (.interface i.id)
  | _ => none

def settle (σ : Store) (v : Value) : Value := v.settle σ.ownList?

-- Equality.

-- Objects are equal to themselves only, but invalidations are compared by what they say. The
-- number bounds how deep one invalidation can be part of what another says.
def sameAt (σ : Store) : Nat → Ref → Ref → Bool
  | n + 1, .invalidation i, .invalidation j =>
    let a := σ.invalidations.getD i default
    let b := σ.invalidations.getD j default
    a.policyName == b.policyName
      && (σ.settle a.fieldName).equals (σ.sameAt n) (σ.settle b.fieldName)
  | _, a, b => a == b

def same (σ : Store) (a b : Ref) : Bool := σ.sameAt σ.invalidations.size a b

def equals (σ : Store) (a b : Value) : Bool := (σ.settle a).equals σ.same (σ.settle b)

def alike (σ : Store) (a b : Value) : Bool := (σ.settle a).alike σ.same (σ.settle b)

def signalsAt (σ : Store) : Nat → Ref → Ref → Bool
  | n + 1, .invalidation i, .invalidation j =>
    let a := σ.invalidations.getD i default
    let b := σ.invalidations.getD j default
    a.policyName == b.policyName
      && (σ.settle a.fieldName).signals (σ.sameAt n) (σ.signalsAt n) (σ.settle b.fieldName)
  | _, _, _ => false

def compare (σ : Store) (a b : Value) : Except Error Bool :=
  if (σ.settle a).signals σ.same (σ.signalsAt σ.invalidations.size) (σ.settle b) then
    .error (.arithmetic .signaling)
  else .ok (σ.equals a b)

def isAmong (σ : Store) (x : Value) : List Value → Except Error Bool
  | [] => .ok false
  | y :: ys => do
    if y.identical x then return true
    else if ← σ.compare y x then return true
    else σ.isAmong x ys

def keyFaultAt (σ : Store) : Nat → Ref → Option TypeFault
  | n + 1, .invalidation i =>
    (σ.settle (σ.invalidations.getD i default).fieldName).keyFault? (σ.keyFaultAt n)
  | _, _ => none

def keyFault? (σ : Store) (v : Value) : Option TypeFault :=
  (σ.settle v).keyFault? (σ.keyFaultAt σ.invalidations.size)

-- Items and truth.

def refItems? (σ : Store) (r : Ref) : Option (List Value) :=
  match r with
  | .ruleSet s => some ((σ.ruleIds s).map fun r => .object (.rule r))
  | .registry r => some ((σ.definitions r).map .definition)
  | r => σ.ownList? r

-- Lists among the items keep growing with the objects that they belong to.
def items? (σ : Store) (v : Value) : Option (List Value) := v.items? σ.refItems?

def items (σ : Store) (v : Value) : Except Error (List Value) :=
  match σ.items? v with
  | some xs => .ok xs
  | none => .error (.type (.notIterable (v.typeName σ.typeName)))

-- The items of a value in a list of their own, for which there has to be room.
def listed (σ : Store) (v : Value) : Except Error (List Value) :=
  match v with
  | .progression p =>
    if indexLimit ≤ p.size then .error (.arithmetic .tooLong)
    else if memoryLimit ≤ p.size then .error (.arithmetic .noMemory)
    else .ok (p.toList.map .int)
  | v => σ.items v

def isTrue (σ : Store) (v : Value) : Bool :=
  v.isTrue fun r => (σ.refItems? r).map (·.length)

@[simp]
theorem isTrue_bool (σ : Store) (b : Bool) : σ.isTrue (.bool b) = b := rfl

def shape (σ : Store) (s : ShapeId) : Shape := (σ.outline s).shape σ.isTrue

end GraphSchema.Store
