import GraphSchema.Auth.Rule
import GraphSchema.Definition.Basic

namespace GraphSchema

structure Config where
  definitions : List Definition
  indent : Value
  deriving Inhabited

inductive Record
  | registered (d : Definition) (name : String)
  | cleared (count : Nat)
  deriving DecidableEq

def Record.text : Record → String
  | registered d name => "Registered " ++ d.typeName ++ " " ++ name
  | cleared n => "Clearing " ++ toString n ++ " definition(s)"

-- In registration order, no name twice.
abbrev Registry := List (String × Definition)

structure Builder where
  registry : RegistryId
  -- The builder that stands between this one and the registry, if any does.
  through : Option BuilderId
  deriving Inhabited

-- Only flags of shapes, rule sets, operations of rules, interfaces and caches of types, and
-- registries ever change after they were made.
structure Store where
  shapes : Array Outline := #[]
  fields : Array Field := #[]
  rules : Array AuthRule := #[]
  ruleSets : Array (List RuleId) := #[]
  -- The three general policies are there from the start.
  invalidations : Array Invalidation :=
    #[.policy .entity .null, .policy .type .null, .policy .list .null]
  fieldCaches : Array FieldCache := #[]
  typeCaches : Array TypeCache := #[]
  interfaces : Array Interface := #[]
  types : Array ObjectType := #[]
  enums : Array EnumType := #[]
  registries : Array Registry := #[]
  builders : Array Builder := #[]
  printers : Array Value := #[]
  configs : Array Config := #[]
  log : List Record := []
  deriving Inhabited

inductive Change
  | addShape (o : Outline)
  | addField (f : Field)
  | makeNullable (s : ShapeId)
  | makeList (s : ShapeId)
  | addRule (r : AuthRule)
  | addRuleSet (rs : List RuleId)
  | extendRuleSet (s : RuleSetId) (r : RuleId)
  | narrowRule (r : RuleId) (o : Operation)
  | addInvalidation (i : Invalidation)
  | addFieldCache (c : FieldCache)
  | addTypeCache (c : TypeCache)
  | addInterface (i : Interface)
  | addType (t : ObjectType)
  | addEnum (e : EnumType)
  | implement (t : TypeId) (i : Numbered Interface)
  | setCache (t : TypeId) (c : Numbered TypeCache)
  | addRegistry
  | register (r : RegistryId) (name : String) (d : Definition)
  | clear (r : RegistryId)
  | addBuilder (b : Builder)
  | addPrinter (indent : Value)
  | addConfig (c : Config)

namespace Store

def apply (σ : Store) : Change → Store
  | .addShape o => { σ with shapes := σ.shapes.push o }
  | .addField f => { σ with fields := σ.fields.push f }
  | .makeNullable s => { σ with shapes := σ.shapes.modify s Outline.orNull }
  | .makeList s => { σ with shapes := σ.shapes.modify s Outline.listOf }
  | .addRule r => { σ with rules := σ.rules.push r }
  | .addRuleSet rs => { σ with ruleSets := σ.ruleSets.push rs }
  | .extendRuleSet s r => { σ with ruleSets := σ.ruleSets.modify s (· ++ [r]) }
  | .narrowRule r o => { σ with rules := σ.rules.modify r (·.narrow o) }
  | .addInvalidation i => { σ with invalidations := σ.invalidations.push i }
  | .addFieldCache c => { σ with fieldCaches := σ.fieldCaches.push c }
  | .addTypeCache c => { σ with typeCaches := σ.typeCaches.push c }
  | .addInterface i => { σ with interfaces := σ.interfaces.push i }
  | .addType t => { σ with types := σ.types.push t }
  | .addEnum e => { σ with enums := σ.enums.push e }
  | .implement t i => { σ with types := σ.types.modify t (·.implement i) }
  | .setCache t c => { σ with types := σ.types.modify t (·.withCache c) }
  | .addRegistry => { σ with registries := σ.registries.push [] }
  | .register r name d =>
    { σ with
      registries := σ.registries.modify r (· ++ [(name, d)])
      log := σ.log ++ [.registered d name] }
  | .clear r =>
    { σ with
      registries := σ.registries.modify r fun _ => []
      log := σ.log ++ [.cleared (σ.registries.getD r []).length] }
  | .addBuilder b => { σ with builders := σ.builders.push b }
  | .addPrinter i => { σ with printers := σ.printers.push i }
  | .addConfig c => { σ with configs := σ.configs.push c }

def applyAll (σ : Store) (cs : List Change) : Store := cs.foldl apply σ

@[simp]
theorem applyAll_nil (σ : Store) : σ.applyAll [] = σ := rfl

@[simp]
theorem applyAll_cons (σ : Store) (c : Change) (cs : List Change) :
    σ.applyAll (c :: cs) = (σ.apply c).applyAll cs := rfl

@[simp]
theorem applyAll_append (σ : Store) (cs ds : List Change) :
    σ.applyAll (cs ++ ds) = (σ.applyAll cs).applyAll ds := by simp [applyAll]

-- Looking things up. What was never made reads as some default.

def outline (σ : Store) (s : ShapeId) : Outline := σ.shapes.getD s default

def rule (σ : Store) (r : RuleId) : AuthRule := σ.rules.getD r default

def ruleIds (σ : Store) (s : RuleSetId) : List RuleId := σ.ruleSets.getD s []

def rulesOf (σ : Store) (s : RuleSetId) : List AuthRule := (σ.ruleIds s).map σ.rule

def registry (σ : Store) (r : RegistryId) : Registry := σ.registries.getD r []

def definitions (σ : Store) (r : RegistryId) : List Definition := (σ.registry r).map (·.2)

def nameOf (σ : Store) : Definition → String
  | .interface i => (σ.interfaces.getD i default).name
  | .type t => (σ.types.getD t default).name
  | .enum e => (σ.enums.getD e default).name

-- The objects that values refer to, with their numbers.

def field? (σ : Store) (v : Value) : Option (Numbered Field) := do
  let f ← v.field?
  return ⟨f, ← σ.fields[f]?⟩

def ruleSet? (σ : Store) : Value → Option RuleSetId
  | .object (.ruleSet s) => if s < σ.ruleSets.size then some s else none
  | _ => none

def invalidation? (σ : Store) : Value → Option (Numbered Invalidation)
  | .object (.invalidation i) => σ.invalidations[i]?.map (⟨i, ·⟩)
  | _ => none

def interface? (σ : Store) : Value → Option (Numbered Interface)
  | .object (.definition (.interface i)) => σ.interfaces[i]?.map (⟨i, ·⟩)
  | _ => none

def type? (σ : Store) : Value → Option (Numbered ObjectType)
  | .object (.definition (.type t)) => σ.types[t]?.map (⟨t, ·⟩)
  | _ => none

def enum? (σ : Store) : Value → Option (Numbered EnumType)
  | .object (.definition (.enum e)) => σ.enums[e]?.map (⟨e, ·⟩)
  | _ => none

def builder? (σ : Store) : Value → Option Builder
  | .object (.builder b) => σ.builders[b]?
  | _ => none

theorem field?_eq_some_iff {σ : Store} {v : Value} {f : Numbered Field} :
    σ.field? v = some f ↔ v = .field f.id ∧ σ.fields[f.id]? = some f.val := by
  obtain ⟨i, f⟩ := f
  constructor
  · intro h
    simp only [field?, Option.bind_eq_bind, Option.bind_eq_some_iff, Option.pure_def,
      Option.some.injEq, Numbered.mk.injEq] at h
    obtain ⟨j, hj, g, hg, rfl, rfl⟩ := h
    refine ⟨?_, hg⟩
    unfold Value.field? at hj
    split at hj <;> simp_all
  · rintro ⟨rfl, h⟩
    simp [field?, Value.field?, h]

end Store

end GraphSchema
