import GraphSchema.Proofs.Course.Field
import GraphSchema.Proofs.Plan.Definition

namespace GraphSchema

open Course

namespace Course

-- Caches.

def newInvalidation (i : Invalidation) : Course (Numbered Invalidation) := do
  let σ ← get
  make (.addInvalidation i)
  return ⟨σ.invalidations.size, i⟩

def coerce (v : Value) : Course (Numbered Invalidation) := do
  let σ ← get
  match σ.invalidation? v with
  | some i => return i
  | none => newInvalidation (← σ.checkInvalidation v .null)

def invalidation (policy fieldName : Value) : Course Value := do
  let σ ← get
  let i ← newInvalidation (← σ.checkInvalidation policy fieldName)
  return .object (.invalidation i.id)

def invalidationOf (v : Value) : Course Value := do
  let i ← coerce v
  return .object (.invalidation i.id)

def fieldCache (maxAge stale : Value) : Course Value := do
  let σ ← get
  let c ← σ.checkFieldCache maxAge stale
  make (.addFieldCache c)
  return .object (.fieldCache σ.fieldCaches.size)

def addTypeCache (c : TypeCache) : Course (Numbered TypeCache) := do
  let σ ← get
  make (.addTypeCache c)
  return ⟨σ.typeCaches.size, c⟩

-- Makes a cache: the times are looked at first, then the invalidation.
def newTypeCache (maxAge stale invalidation : Value) : Course (Numbered TypeCache) := do
  let σ ← get
  let params ← σ.checkFieldCache maxAge stale
  if invalidation.isNull then addTypeCache ⟨params, none⟩
  else
    let i ← coerce invalidation
    addTypeCache ⟨params, some i⟩

def typeCache (maxAge stale invalidation : Value) : Course Value := do
  let c ← newTypeCache maxAge stale invalidation
  return .object (.typeCache c.id)

-- Definitions.

def newInterface (i : Interface) : Course InterfaceId := do
  let n := (← get).interfaces.size
  make (.addInterface i)
  return n

def newType (t : ObjectType) : Course TypeId := do
  let n := (← get).types.size
  make (.addType t)
  return n

def newEnum (e : EnumType) : Course EnumId := do
  let n := (← get).enums.size
  make (.addEnum e)
  return n

def interface (name fields : Value) : Course Value := do
  let i ← newInterface (← (← get).checkInterface name fields)
  return .definition (.interface i)

def type (name fields : Value) : Course Value := do
  let t ← newType (← (← get).checkType name fields)
  return .definition (.type t)

def enum (name values : Value) : Course Value := do
  let e ← newEnum (← (← get).checkEnum name values)
  return .definition (.enum e)

def enumOf (cls : Value) : Course Value := do
  let σ ← get
  match cls with
  | .enumClass _ name _ => enum (.text name) (Store.memberNames cls)
  | .script _ => throw (.type (.notIterable (cls.typeName σ.typeName)))
  | v => σ.lacks v "__name__"

def implement (type interface : Value) : Course Value := do
  let σ ← get
  match σ.type? type with
  | none => σ.lacks type "implements"
  | some t =>
    match σ.interface? interface with
    | none => interface.refuse σ.display (.notAnInterface t.val.name)
    | some i =>
      if i.val.name ∈ t.val.interfaceNames then
        (Misuse.implemented t.val.name i.val.name).refusal
      else
        σ.checkConflicts t.val (t.val.interfaces ++ [i])
        make (.implement t.id i)
        return type

-- The cache is made before the type gets it.
def cacheType (type maxAge stale invalidation : Value) : Course Value := do
  let σ ← get
  match σ.type? type with
  | none => σ.lacks type "cache"
  | some t =>
    let c ← newTypeCache maxAge stale invalidation
    make (.setCache t.id c)
    return type

-- Registries.

def newRegistry : Course RegistryId := do
  let σ ← get
  make .addRegistry
  return σ.registries.size

def enter (r : RegistryId) (name : String) (d : Definition) : Course Value := do
  let σ ← get
  if name ∈ (σ.registry r).names then throw (.duplicate name)
  else
    make (.register r name d)
    return .definition d

def register (registry : Value) (k : DefinitionKind) (v : Value) : Course Value := do
  let σ ← get
  match σ.registry? registry with
  | none => σ.lacks registry "register"
  | some r =>
    match v with
    | .object (.definition d) =>
      if d.kind = k then enter r (σ.nameOf d) d
      else v.refuse σ.display (.wrongKind k.typeName)
    | v => v.refuse σ.display (.wrongKind k.typeName)

def clear (v : Value) : Course Value := do
  let σ ← get
  match σ.registryOf? v with
  | none => σ.lacks v "clear"
  | some r =>
    make (.clear r)
    return .null

-- Builders.

def newBuilder (b : Builder) : Course Value := do
  let σ ← get
  make (.addBuilder b)
  return .object (.builder σ.builders.size)

def builder (registry : Value) : Course Value := do
  let σ ← get
  match registry with
  | .null => newBuilder ⟨← newRegistry, none⟩
  | .object (.builder b) => newBuilder ⟨(σ.builders.getD b default).registry, some b⟩
  | .object (.config _) => throw (.type (.notCallable "list"))
  | v =>
    match σ.registry? v with
    | some r => newBuilder ⟨r, none⟩
    | none => σ.lacks v "definitions"

def scalarField (builder : Value) (s : Scalar) : Course Value := do
  let σ ← get
  match σ.builder? builder with
  | none => σ.lacks builder s.name
  | some _ => scalar (.scalar s) (.bool false)

def enumField (builder enum : Value) : Course Value := do
  let σ ← get
  match σ.builder? builder with
  | none => σ.lacks builder "enum"
  | some _ =>
    let e ← σ.meantEnum builder enum
    scalar (Store.enumBase e) (.bool false)

def refField (builder target : Value) : Course Value := do
  let σ ← get
  match σ.builder? builder with
  | none => σ.lacks builder "ref"
  | some _ =>
    match target with
    | .text n =>
      if isName n then scalar (.object n) (.bool false) else (Misuse.badName "type" n).refusal
    | .object (.definition (.enum _)) => target.refuse σ.display .notATarget
    | .object (.definition d) => scalar (.object (σ.nameOf d)) (.bool false)
    | v => v.refuse σ.display .notATarget

def buildInterface (builder name fields : Value) : Course Value := do
  let σ ← get
  let r ← σ.ownRegistry builder "register_interface"
  let i ← σ.checkInterface name fields
  let n ← newInterface i
  enter r i.name (.interface n)

def buildType (builder name fields : Value) : Course Value := do
  let σ ← get
  let r ← σ.ownRegistry builder "register_type"
  let t ← σ.checkType name fields
  let n ← newType t
  enter r t.name (.type n)

def buildEnum (builder name values : Value) : Course Value := do
  let σ ← get
  let r ← σ.ownRegistry builder "register_enum"
  let e ← σ.checkEnum name (Store.memberNames values)
  let n ← newEnum e
  enter r e.name (.enum n)

-- Printers and configurations.

def printer (indent : Value) : Course Value := do
  let σ ← get
  let indent ← Indent.spaces indent
  make (.addPrinter indent)
  return .object (.printer σ.printers.size)

def config (builder indent : Value) : Course Value := do
  let σ ← get
  if builder.isNull then Misuse.noSchema.refusal
  else
    match σ.builder? builder with
    | none => builder.refuse σ.display .notABuilder
    | some b =>
      let indent ← Indent.spaces indent
      make (.addConfig ⟨σ.definitions b.registry, indent⟩)
      return .object (.config σ.configs.size)

-- What they come to.

variable {σ τ : Store} {v w : Value}

theorem follows_coerce (v : Value) :
    Follows (coerce v) σ (σ.coerceInvalidation v) (fun p => (p.1, σ.applyAll p.2))
      σ.Retains := by
  refine .look ?_
  unfold Store.coerceInvalidation
  cases σ.invalidation? v
  case some i => exact .of_ok rfl
  case none => exact .check σ.retains_refl fun _ _ => .of_ok rfl

theorem realizes_invalidation : Realizes (invalidation v w) σ (σ.newInvalidation v w) :=
  .look <| .check σ.retains_refl fun _ _ => .of_ok rfl

theorem realizes_invalidationOf : Realizes (invalidationOf v) σ (σ.invalidationOf v) :=
  .bind (follows_coerce v) fun _ _ => .of_ok rfl

theorem realizes_fieldCache : Realizes (fieldCache v w) σ (σ.newFieldCache v w) :=
  .look <| .check σ.retains_refl fun _ _ => .of_ok rfl

theorem follows_newTypeCache (age stale i : Value) :
    Follows (newTypeCache age stale i) σ (σ.checkTypeCache age stale i)
      (fun p => (⟨σ.typeCaches.size, p.1⟩, σ.applyAll (p.2 ++ [.addTypeCache p.1])))
      σ.Retains := by
  refine .look <| .check σ.retains_refl fun params _ => .ite (.of_ok rfl) ?_
  refine .bind (follows_coerce i) fun (j, changes) h => .of_ok ?_
  have ⟨_, e⟩ := Store.applyAll_coerceInvalidation h
  simp only [Store.applyAll_append]
  rw [e]
  rfl

theorem realizes_typeCache (i : Value) : Realizes (typeCache v w i) σ (σ.newTypeCache v w i) :=
  .bind (follows_newTypeCache v w i) fun _ _ => .of_ok rfl

theorem realizes_cacheType (stale i : Value) :
    Realizes (cacheType v w stale i) σ (σ.cacheType v w stale i) := by
  refine .look ?_
  unfold Store.cacheType
  cases σ.type? v
  case none => exact .lacks σ.retains_refl ..
  case some t =>
    refine .bind (follows_newTypeCache w stale i) fun (c, changes) _ => .of_ok ?_
    simp only [Store.applyAll_append]
    rfl

theorem realizes_interface : Realizes (interface v w) σ (σ.newInterface v w) :=
  .look <| .check σ.retains_refl fun _ _ => .of_ok rfl

theorem realizes_type : Realizes (type v w) σ (σ.newType v w) :=
  .look <| .check σ.retains_refl fun _ _ => .of_ok rfl

theorem realizes_enum : Realizes (enum v w) σ (σ.newEnum v w) :=
  .look <| .check σ.retains_refl fun _ _ => .of_ok rfl

theorem realizes_enumOf : Realizes (enumOf v) σ (σ.newEnumOf v) := by
  refine .look ?_
  cases v
  case enumClass => exact realizes_enum
  case script => exact .of_error rfl σ.retains_refl
  all_goals exact .lacks σ.retains_refl ..

theorem realizes_implement : Realizes (implement v w) σ (σ.implement v w) := by
  refine .look ?_
  unfold Store.implement
  cases σ.type? v
  case none => exact .lacks σ.retains_refl ..
  case some t =>
    cases σ.interface? w
    case none => exact .refuse σ.retains_refl ..
    case some i =>
      exact .ite (.misuse σ.retains_refl _) (.check σ.retains_refl fun _ _ => .of_ok rfl)

-- Looking for the name comes last, when the definition is there already.
theorem follows_enter {before : List Change} {r : RegistryId} (name : String) (d : Definition)
    (hτ : σ.applyAll before = τ) (hr : τ.registry r = σ.registry r) (hb : σ.Retains τ) :
    Follows (enter r name d) τ (σ.enter r before name d)
      (fun p => (p.answer, σ.applyAll p.changes)) σ.Retains := by
  refine .look ?_
  unfold Store.enter
  rw [hr]
  refine .ite (.of_error rfl hb) (.of_ok ?_)
  simp only [Store.applyAll_append, hτ]
  rfl

theorem realizes_register (k : DefinitionKind) :
    Realizes (register v k w) σ (σ.register v k w) := by
  refine .look ?_
  unfold Store.register
  cases σ.registry? v
  case none => exact .lacks σ.retains_refl ..
  case some r =>
    cases w
    case object o =>
      cases o
      case definition d =>
        exact .ite (follows_enter _ d rfl rfl σ.retains_refl) (.refuse σ.retains_refl ..)
      all_goals exact .refuse σ.retains_refl ..
    all_goals exact .refuse σ.retains_refl ..

theorem realizes_clear : Realizes (clear v) σ (σ.clear v) := by
  refine .look ?_
  unfold Store.clear
  cases σ.registryOf? v
  case none => exact .lacks σ.retains_refl ..
  case some r => exact .of_ok rfl

theorem realizes_builder : Realizes (builder v) σ (σ.newBuilder v) := by
  refine .look ?_
  unfold Store.newBuilder
  cases v
  case null => exact .of_ok rfl
  case object o =>
    cases o
    case builder => exact .of_ok rfl
    case config => exact .of_error rfl σ.retains_refl
    case registry r =>
      dsimp only
      cases σ.registry? (.object (.registry r))
      case none => exact .lacks σ.retains_refl ..
      case some => exact .of_ok rfl
    all_goals exact .lacks σ.retains_refl ..
  all_goals exact .lacks σ.retains_refl ..

theorem realizes_scalarField (s : Scalar) : Realizes (scalarField v s) σ (σ.scalarField v s) := by
  refine .look ?_
  unfold Store.scalarField
  cases σ.builder? v
  case none => exact .lacks σ.retains_refl ..
  case some => exact realizes_scalar ..

theorem realizes_enumField : Realizes (enumField v w) σ (σ.enumField v w) := by
  refine .look ?_
  unfold Store.enumField
  cases σ.builder? v
  case none => exact .lacks σ.retains_refl ..
  case some => exact .check σ.retains_refl fun _ _ => realizes_scalar ..

theorem realizes_refField : Realizes (refField v w) σ (σ.refField v w) := by
  refine .look ?_
  unfold Store.refField
  cases σ.builder? v
  case none => exact .lacks σ.retains_refl ..
  case some =>
    cases w
    case text => exact .ite (realizes_scalar ..) (.misuse σ.retains_refl _)
    case object o =>
      cases o
      case definition d =>
        cases d
        case enum => exact .refuse σ.retains_refl ..
        all_goals exact realizes_scalar ..
      all_goals exact .refuse σ.retains_refl ..
    all_goals exact .refuse σ.retains_refl ..

theorem realizes_buildInterface (fields : Value) :
    Realizes (buildInterface v w fields) σ (σ.buildInterface v w fields) := by
  refine .look <| .check σ.retains_refl fun _ _ => .check σ.retains_refl fun i _ => ?_
  have h : σ.Retains (σ.apply (.addInterface i)) :=
    { σ.retains_refl with interfaces := Table.within_push }
  exact .congr (on_bind_ok rfl) (follows_enter i.name _ rfl rfl h)

theorem realizes_buildType (fields : Value) :
    Realizes (buildType v w fields) σ (σ.buildType v w fields) := by
  refine .look <| .check σ.retains_refl fun _ _ => .check σ.retains_refl fun t _ => ?_
  have h : σ.Retains (σ.apply (.addType t)) :=
    { σ.retains_refl with types := Table.within_push }
  exact .congr (on_bind_ok rfl) (follows_enter t.name _ rfl rfl h)

theorem realizes_buildEnum (values : Value) :
    Realizes (buildEnum v w values) σ (σ.buildEnum v w values) := by
  refine .look <| .check σ.retains_refl fun _ _ => .check σ.retains_refl fun e _ => ?_
  have h : σ.Retains (σ.apply (.addEnum e)) :=
    { σ.retains_refl with enums := Table.within_push }
  exact .congr (on_bind_ok rfl) (follows_enter e.name _ rfl rfl h)

theorem realizes_printer : Realizes (printer v) σ (σ.newPrinter v) :=
  .look <| .check σ.retains_refl fun _ _ => .of_ok rfl

theorem realizes_config : Realizes (config v w) σ (σ.configure v w) := by
  refine .look (.ite (.misuse σ.retains_refl _) ?_)
  cases σ.builder? v
  case none => exact .refuse σ.retains_refl ..
  case some b => exact .check σ.retains_refl fun _ _ => .of_ok rfl

end Course

end GraphSchema
