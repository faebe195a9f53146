import GraphSchema.Plan.Cache
import GraphSchema.Plan.Field

namespace GraphSchema.Store

-- Checks.

def checkFieldEntry (σ : Store) (owner : String) (e : Value × Value) :
    Except Error (String × Numbered Field) := do
  let name ← σ.checkName "field" e.1
  match σ.field? e.2 with
  | some f => return (name, f)
  | none => e.2.refuse σ.display (.notAFieldOf owner name)

def checkFieldList (σ : Store) (owner : String) (fields : Value) : Except Error Fields :=
  match fields with
  | .null => .ok (.ofEntries [])
  | .dict es => return .ofEntries (← es.mapM (σ.checkFieldEntry owner))
  | v => v.refuse σ.display (.notAMapping owner)

def checkInterface (σ : Store) (name fields : Value) : Except Error Interface := do
  let name ← σ.checkName "interface" name
  match ← σ.checkFieldList name fields with
  | ⟨[], _⟩ => (Misuse.emptyInterface name).refusal
  | ⟨fs, distinct⟩ => return ⟨name, fs, distinct⟩

def checkType (σ : Store) (name fields : Value) : Except Error ObjectType := do
  let name ← σ.checkName "type" name
  let ⟨fs, distinct⟩ ← σ.checkFieldList name fields
  return ⟨name, fs, [], none, distinct⟩

def isReserved (value : String) : Bool := value ∈ ["true", "false", "null"]

def checkEnumValues (σ : Store) (seen : List String) : List Value → Except Error (List String)
  | [] => .ok seen
  | v :: vs => do
    let value ← σ.checkName "enum value" v
    if isReserved value then (Misuse.reservedValue value).refusal
    else if value ∈ seen then (Misuse.repeatedValue value).refusal
    else σ.checkEnumValues (seen ++ [value]) vs

def checkEnum (σ : Store) (name values : Value) : Except Error EnumType := do
  let name ← σ.checkName "enum" name
  if values.text?.isSome then values.refuse σ.display .enumValuesText
  else
    match ← σ.checkEnumValues [] (← σ.items values.front) with
    | [] => (Misuse.emptyEnum name).refusal
    | vs => return ⟨name, vs⟩

def memberNames : Value → Value
  | .enumClass id name ms =>
    .list ((Value.membersOf id name ms).map fun
      | .enumMember _ _ n _ => .text n
      | v => v)
  | v => v

-- Making them.

def newInterface (σ : Store) (name fields : Value) : Decision := do
  let i ← σ.checkInterface name fields
  return ⟨[.addInterface i], .definition (.interface σ.interfaces.size)⟩

def newType (σ : Store) (name fields : Value) : Decision := do
  let t ← σ.checkType name fields
  return ⟨[.addType t], .definition (.type σ.types.size)⟩

def newEnum (σ : Store) (name values : Value) : Decision := do
  let e ← σ.checkEnum name values
  return ⟨[.addEnum e], .definition (.enum σ.enums.size)⟩

def newEnumOf (σ : Store) (cls : Value) : Decision :=
  match cls with
  | .enumClass _ name _ => σ.newEnum (.text name) (memberNames cls)
  | .script _ => .error (.type (.notIterable (cls.typeName σ.typeName)))
  | v => σ.lacks v "__name__"

-- Types.

def implement (σ : Store) (type interface : Value) : Decision :=
  match σ.type? type with
  | none => σ.lacks type "implements"
  | some t =>
    match σ.interface? interface with
    | none => interface.refuse σ.display (.notAnInterface t.val.name)
    | some i =>
      if i.val.name ∈ t.val.interfaceNames then
        (Misuse.implemented t.val.name i.val.name).refusal
      else do
        σ.checkConflicts t.val (t.val.interfaces ++ [i])
        return ⟨[.implement t.id i], type⟩

def cacheType (σ : Store) (type maxAge stale invalidation : Value) : Decision :=
  match σ.type? type with
  | none => σ.lacks type "cache"
  | some t => do
    let (c, changes) ← σ.checkTypeCache maxAge stale invalidation
    return ⟨changes ++ [.addTypeCache c, .setCache t.id ⟨σ.typeCaches.size, c⟩], type⟩

-- References to definitions.

def newEnumRef (σ : Store) (name values : Value) : Decision :=
  match name with
  | .text n =>
    if ! isName n then (Misuse.badName "type" n).refusal
    else if values.isNull then return .say (.enumRef n none)
    else return .say (.enumRef n (some (← σ.listed values)))
  | v => v.refuse σ.filling (.badName "type")

def newObjectRef (σ : Store) (name : Value) : Decision :=
  match name with
  | .text n => if isName n then return .say (.objectRef n) else (Misuse.badName "type" n).refusal
  | v => v.refuse σ.filling (.badName "type")

def enumBase (e : EnumType) : Base := .enum e.name (some (e.values.map .text))

def reference (σ : Store) (v : Value) : Decision :=
  match v with
  | .object (.definition (.enum e)) =>
    return .say (enumBase (σ.enums.getD e default)).toValue
  | .object (.definition d) => return .say (.objectRef (σ.nameOf d))
  | v => σ.lacks v "ref"

end GraphSchema.Store
