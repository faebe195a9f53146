import GraphSchema.Plan.Definition

namespace GraphSchema

inductive DefinitionKind
  | interface | type | enum
  deriving DecidableEq, Inhabited

namespace DefinitionKind

def typeName : DefinitionKind → String
  | interface => "InterfaceDefinition"
  | type => "TypeDefinition"
  | enum => "EnumDefinition"

end DefinitionKind

def Definition.kind : Definition → DefinitionKind
  | interface _ => .interface
  | type _ => .type
  | enum _ => .enum

namespace Registry

def get? (r : Registry) (name : String) : Option Definition := (r.find? (·.1 == name)).map (·.2)

def names (r : Registry) : List String := r.map (·.1)

end Registry

namespace Store

-- Registries.

def registry? (σ : Store) : Value → Option RegistryId
  | .object (.registry r) => if r < σ.registries.size then some r else none
  | _ => none

def newRegistry (σ : Store) : Plan := ⟨[.addRegistry], .object (.registry σ.registries.size)⟩

def enter (σ : Store) (r : RegistryId) (before : List Change) (name : String) (d : Definition) :
    Decision :=
  if name ∈ (σ.registry r).names then .error (.duplicate name)
  else return ⟨before ++ [.register r name d], .definition d⟩

def register (σ : Store) (registry : Value) (k : DefinitionKind) (v : Value) : Decision :=
  match σ.registry? registry with
  | none => σ.lacks registry "register"
  | some r =>
    match v with
    | .object (.definition d) =>
      if d.kind = k then σ.enter r [] (σ.nameOf d) d
      else v.refuse σ.display (.wrongKind k.typeName)
    | v => v.refuse σ.display (.wrongKind k.typeName)

-- What is registered under a name. Only texts can be names, but anything that can be a key may
-- be asked for.
def find (σ : Store) (r : RegistryId) (name : Value) : Except Error Definition :=
  match σ.keyFault? name with
  | some t => .error (.type t)
  | none =>
    match name.text?.bind (σ.registry r).get? with
    | some d => .ok d
    | none => do throw (.unknown (← σ.filling name))

def get (σ : Store) (registry name : Value) : Decision :=
  match σ.registry? registry with
  | none => σ.lacks registry "get"
  | some r => return .say (.definition (← σ.find r name))

def listDefinitions (σ : Store) (r : RegistryId) : Plan :=
  .say (.list ((σ.definitions r).map .definition))

def clearRegistry (r : RegistryId) : Plan := ⟨[.clear r], .null⟩

-- A registry or a builder stands for the registry it has.

def registryOf? (σ : Store) (v : Value) : Option RegistryId :=
  (σ.registry? v).or ((σ.builder? v).map (·.registry))

def definitionsOf (σ : Store) (v : Value) : Decision :=
  match σ.registryOf? v with
  | some r => return σ.listDefinitions r
  | none => σ.lacks v "definitions"

def clear (σ : Store) (v : Value) : Decision :=
  match σ.registryOf? v with
  | some r => return clearRegistry r
  | none => σ.lacks v "clear"

-- Builders.

-- A builder for a registry, a new one if none is given. One for the registry of another builder
-- can empty and list it, but not put anything into it. Anything else is refused here; there are no
-- builders that fail only when they are used.
def newBuilder (σ : Store) (registry : Value) : Decision :=
  let answer := .object (.builder σ.builders.size)
  match registry with
  | .null => return ⟨[.addRegistry, .addBuilder ⟨σ.registries.size, none⟩], answer⟩
  | .object (.builder b) =>
    return ⟨[.addBuilder ⟨(σ.builders.getD b default).registry, some b⟩], answer⟩
  | .object (.config _) => .error (.type (.notCallable "list"))
  | v =>
    match σ.registry? v with
    | some r => return ⟨[.addBuilder ⟨r, none⟩], answer⟩
    | none => σ.lacks v "definitions"

def ownRegistry (σ : Store) (builder : Value) (use : String) : Except Error RegistryId :=
  match σ.builder? builder with
  | none => σ.lacks builder use
  | some b =>
    match b.through with
    | none => .ok b.registry
    | some c => σ.lacks (.object (.builder c)) use

def scalarField (σ : Store) (builder : Value) (s : Scalar) : Decision :=
  match σ.builder? builder with
  | none => σ.lacks builder s.name
  | some _ => return σ.leafPlan (.scalar s) (.bool false)

def findEnum (σ : Store) (r : RegistryId) (name : String) : Except Error EnumType := do
  match ← σ.find r (.text name) with
  | .enum e => return σ.enums.getD e default
  | d => (Misuse.namesOther name d.typeName DefinitionKind.enum.typeName).refusal

def meantEnum (σ : Store) (builder enum : Value) : Except Error EnumType :=
  match enum with
  | .text n => do σ.findEnum (← σ.ownRegistry builder "get") n
  | .object (.definition (.enum e)) => .ok (σ.enums.getD e default)
  | v => v.refuse σ.display .notAnEnum

def enumField (σ : Store) (builder enum : Value) : Decision :=
  match σ.builder? builder with
  | none => σ.lacks builder "enum"
  | some _ => do
    let e ← σ.meantEnum builder enum
    return σ.leafPlan (enumBase e) (.bool false)

def refField (σ : Store) (builder target : Value) : Decision :=
  match σ.builder? builder with
  | none => σ.lacks builder "ref"
  | some _ =>
    match target with
    | .text n =>
      if isName n then return σ.leafPlan (.object n) (.bool false)
      else (Misuse.badName "type" n).refusal
    | .object (.definition (.enum _)) => target.refuse σ.display .notATarget
    | .object (.definition d) => return σ.leafPlan (.object (σ.nameOf d)) (.bool false)
    | v => v.refuse σ.display .notATarget

def buildInterface (σ : Store) (builder name fields : Value) : Decision := do
  let r ← σ.ownRegistry builder "register_interface"
  let i ← σ.checkInterface name fields
  σ.enter r [.addInterface i] i.name (.interface σ.interfaces.size)

def buildType (σ : Store) (builder name fields : Value) : Decision := do
  let r ← σ.ownRegistry builder "register_type"
  let t ← σ.checkType name fields
  σ.enter r [.addType t] t.name (.type σ.types.size)

def buildEnum (σ : Store) (builder name values : Value) : Decision := do
  let r ← σ.ownRegistry builder "register_enum"
  let e ← σ.checkEnum name (memberNames values)
  σ.enter r [.addEnum e] e.name (.enum σ.enums.size)

end Store

end GraphSchema
