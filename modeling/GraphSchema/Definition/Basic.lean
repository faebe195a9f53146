import GraphSchema.Field.Directive

namespace GraphSchema

-- In declaration order.
abbrev FieldList := List (String × Numbered Field)

-- No two of these have the same name.
abbrev Fields := {fs : FieldList // (fs.map (·.1)).Nodup}

structure Interface where
  name : String
  fields : FieldList
  distinct : (fields.map (·.1)).Nodup

instance : Inhabited Interface := ⟨⟨"", [], .nil⟩⟩

structure ObjectType where
  name : String
  fields : FieldList
  -- In the order in which they were implemented.
  interfaces : List (Numbered Interface)
  cache : Option (Numbered TypeCache)
  distinct : (fields.map (·.1)).Nodup

instance : Inhabited ObjectType := ⟨⟨"", [], [], none, .nil⟩⟩

namespace ObjectType

def implement (t : ObjectType) (i : Numbered Interface) : ObjectType :=
  { t with interfaces := t.interfaces ++ [i] }

def withCache (t : ObjectType) (c : Numbered TypeCache) : ObjectType :=
  { t with cache := some c }

def interfaceNames (t : ObjectType) : List String := t.interfaces.map (·.val.name)

@[simp]
theorem interfaceNames_implement (t : ObjectType) (i : Numbered Interface) :
    (t.implement i).interfaceNames = t.interfaceNames ++ [i.val.name] := by
  simp [implement, interfaceNames]

def sources (t : ObjectType) : List FieldList :=
  t.interfaces.map (·.val.fields) ++ [t.fields]

end ObjectType

structure EnumType where
  name : String
  values : List String
  deriving DecidableEq, Inhabited

namespace Definition

def typeName : Definition → String
  | interface _ => "InterfaceDefinition"
  | type _ => "TypeDefinition"
  | enum _ => "EnumDefinition"

end Definition

end GraphSchema
