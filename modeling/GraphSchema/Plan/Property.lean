import GraphSchema.Plan.Basic

namespace GraphSchema

-- What a builder collects definitions in.
def Builder.source (b : Builder) : Value :=
  match b.through with
  | none => .object (.registry b.registry)
  | some c => .object (.builder c)

namespace Store

def natOrNull : Option Nat → Value
  | none => .null
  | some n => .int n

def fieldDict (fs : FieldList) : Value := .dict (fs.map fun (n, f) => (.text n, .field f.id))

def definitionList (ds : List Definition) : Value := .list (ds.map .definition)

def outlineProperty (o : Outline) : String → Option Value
  | "base" => some o.base.toValue
  | "nullable" => some o.nullable
  | "is_list" => some o.isList
  | "item_nullable" => some o.itemNullable
  | "type_name" => some (.text o.base.name)
  | "is_object" => some (.bool o.base.isObject)
  | "is_enum" => some (.bool o.base.isEnum)
  | "is_string" => some (.bool o.base.isString)
  | _ => none

def directiveProperty : Directive → String → Option Value
  | .length min _, "min" => some (natOrNull min)
  | .length _ max, "max" => some (natOrNull max)
  | .unique scope, "scope" => some (.texts scope)
  | .default v, "value" => some v
  | .auth s, "rules" => some (.ruleSet s)
  | .cache c, "params" => some (.object (.fieldCache c.id))
  | _, _ => none

def fieldProperty (f : Field) : String → Option Value
  | "shape" => some (.object (.shape f.shape))
  | "leaf" => some (.field f.leaf)
  | "kind" => some (.nodeKind f.kind)
  | "inner" => f.inner.map .field
  | p => f.directives.head?.bind fun d => directiveProperty d p

def ruleProperty (r : AuthRule) : String → Option Value
  | "allow" => some r.allow
  | "groups" => some (r.groups.elim .null .list)
  | _ => none

def invalidationProperty (i : Invalidation) : String → Option Value
  | "policy" => some (.text i.policyName)
  | "field_name" => some i.fieldName
  | _ => none

def fieldCacheProperty (c : FieldCache) : String → Option Value
  | "max_age" => some (.int c.maxAge)
  | "stale_while_revalidate" => some (natOrNull c.staleWhileRevalidate)
  | _ => none

def typeCacheProperty (c : TypeCache) : String → Option Value
  | "mutation_invalidation" =>
    some (c.invalidation.elim .null fun i => .object (.invalidation i.id))
  | p => fieldCacheProperty c.params p

def interfaceProperty (i : Interface) : String → Option Value
  | "name" => some (.text i.name)
  | "fields" => some (fieldDict i.fields)
  | _ => none

def typeProperty (t : ObjectType) : String → Option Value
  | "name" => some (.text t.name)
  | "fields" => some (fieldDict t.fields)
  | "cache_params" => some (t.cache.elim .null fun c => .object (.typeCache c.id))
  | _ => none

def enumProperty (e : EnumType) : String → Option Value
  | "name" => some (.text e.name)
  | "values" => some (.tuple (e.values.map .text))
  | _ => none

def refProperty (σ : Store) (p : String) : Ref → Option Value
  | .shape s => outlineProperty (σ.outline s) p
  | .field f => fieldProperty (σ.fields.getD f default) p
  | .rule r =>
    if p = "operations" then some (.object (.operations r)) else ruleProperty (σ.rule r) p
  | .ruleSet s => if p = "rules" then some (.object (.rules s)) else none
  | .invalidation i => invalidationProperty (σ.invalidations.getD i default) p
  | .fieldCache c => fieldCacheProperty (σ.fieldCaches.getD c default) p
  | .typeCache c => typeCacheProperty (σ.typeCaches.getD c default) p
  | .definition (.interface i) => interfaceProperty (σ.interfaces.getD i default) p
  | .definition (.type t) =>
    if p = "interfaces" then some (.object (.interfaces t))
    else typeProperty (σ.types.getD t default) p
  | .definition (.enum e) => enumProperty (σ.enums.getD e default) p
  | .registry _ | .operations _ | .rules _ | .interfaces _ => none
  | .builder b =>
    if p = "registry" then some (σ.builders.getD b default).source else none
  | .printer i => if p = "indent" then some (σ.printers.getD i .null) else none
  | .config c =>
    if p = "definitions" then some (definitionList (σ.configs.getD c default).definitions)
    else none

def classMember? (id : OutsideId) (owner : String) (names : List (String × String × Value))
    (name : String) : Option Value :=
  (names.find? (·.1 == name)).map fun (_, m, v) => .enumMember id owner m v

def property? (σ : Store) (v : Value) (p : String) : Option Value :=
  match v, p with
  | .object r, p => σ.refProperty p r
  | .enumRef n _, "name" => some (.text n)
  | .enumRef _ vs, "values" => some (vs.elim .null .tuple)
  | .objectRef n, "name" => some (.text n)
  | .scalar s, "name" => some (.text s.name)
  | .scalar s, "value" => some (.text s.name)
  | .scalar s, "is_string" => some (.bool s.isString)
  | .nodeKind k, "name" => some (.text k.name)
  | .nodeKind k, "value" => some (.text k.word)
  | .enumMember _ _ n _, "name" => some (.text n)
  | .enumMember _ _ _ v, "value" => some v
  | .labelled _ l, "name" => some (.text l.name)
  | .labelled n _, "value" => some (.ofNumber n)
  | .enumClass id owner ms, name => classMember? id owner ms name
  | _, _ => none

def propertyOf (σ : Store) (v : Value) (p : String) : Except Error Value :=
  match σ.property? v p with
  | some w => .ok w
  | none => σ.lacks v p

def property (σ : Store) (v : Value) (p : String) : Decision := return .say (← σ.propertyOf v p)

end Store

end GraphSchema
