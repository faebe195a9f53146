import GraphSchema.Proofs.Step.Basic
import GraphSchema.Proofs.Table

namespace GraphSchema

open Store

-- How the tables of interfaces and types of one store come from those of the store before the call.
inductive DefinitionStep (σ : Store) (call : Call) (σ' : Store) : Prop
  | still (interfaces : σ'.interfaces = σ.interfaces) (types : σ'.types = σ.types)
  | interface {name fields : Value} {i : Interface}
      (checked : σ.checkInterface name fields = .ok i)
      (interfaces : σ'.interfaces = σ.interfaces.push i) (types : σ'.types = σ.types)
  | type {name fields : Value} {t : ObjectType} (checked : σ.checkType name fields = .ok t)
      (interfaces : σ'.interfaces = σ.interfaces) (types : σ'.types = σ.types.push t)
  | implement {v w : Value} {t : Numbered ObjectType} {i : Numbered Interface}
      (asked : call = .implement v w) (type : σ.type? v = some t)
      (interface : σ.interface? w = some i) (fresh : i.val.name ∉ t.val.interfaceNames)
      (agree : σ.checkConflicts t.val (t.val.interfaces ++ [i]) = .ok ())
      (interfaces : σ'.interfaces = σ.interfaces)
      (types : σ'.types = σ.types.modify t.id (·.implement i))
  | cache (t : TypeId) (c : Numbered TypeCache) (interfaces : σ'.interfaces = σ.interfaces)
      (types : σ'.types = σ.types.modify t (·.withCache c))

theorem Step.definitionStep {σ : Store} {call : Call} {cs : List Change} (s : Step σ call cs) :
    DefinitionStep σ call (σ.applyAll cs) := by
  cases s
  case wrap hc =>
    have ⟨_, _, _, e⟩ := hc.applyAll_eq
    rw [applyAll_append, e]
    exact .still rfl rfl
  case ruleSet | script => rw [applyAll_addRules]; exact .still rfl rfl
  case coerce h =>
    have ⟨_, e⟩ := applyAll_coerceInvalidation h
    exact e ▸ .still rfl rfl
  case typeCache h =>
    have ⟨_, e⟩ := applyAll_checkTypeCache h
    rw [applyAll_append, e]
    exact .still rfl rfl
  case cacheType t c _ _ h =>
    have ⟨_, e⟩ := applyAll_checkTypeCache h
    rw [applyAll_append, e]
    exact .cache t.id ⟨σ.typeCaches.size, c⟩ rfl rfl
  case interface h => exact .interface h rfl rfl
  case buildInterface h _ => exact .interface h rfl rfl
  case type h => exact .type h rfl rfl
  case buildType h _ => exact .type h rfl rfl
  case implement ha ht hi hn hc => exact .implement ha ht hi hn hc rfl rfl
  all_goals exact .still rfl rfl

namespace DefinitionStep

variable {σ σ' : Store} {call : Call}

theorem getElem?_interfaces (s : DefinitionStep σ call σ') {n : InterfaceId} {i : Interface}
    (h : σ.interfaces[n]? = some i) : σ'.interfaces[n]? = some i := by
  cases s
  case interface e _ => exact e ▸ Table.getElem?_push h
  case still e _ | type e _ | implement e _ | cache e _ => exact e ▸ h

theorem getElem?_types (s : DefinitionStep σ call σ') {n : TypeId} {t : ObjectType}
    (h : σ.types[n]? = some t) :
    ∃ t', σ'.types[n]? = some t' ∧ t'.name = t.name ∧ t'.fields = t.fields := by
  cases s
  case still e | interface e => exact ⟨t, e ▸ h, rfl, rfl⟩
  case type e => exact ⟨t, e ▸ Table.getElem?_push h, rfl, rfl⟩
  case implement e | cache e =>
    rw [e, Array.getElem?_modify, h]
    split
    case isTrue => exact ⟨_, rfl, rfl, rfl⟩
    case isFalse => exact ⟨t, rfl, rfl, rfl⟩

end DefinitionStep

-- Enums never change either.
theorem Step.enums_cases {σ : Store} {call : Call} {cs : List Change} (s : Step σ call cs) :
    (σ.applyAll cs).enums = σ.enums ∨ ∃ name values e, σ.checkEnum name values = .ok e ∧
      (σ.applyAll cs).enums = σ.enums.push e := by
  cases s
  case wrap hc =>
    have ⟨_, _, _, e⟩ := hc.applyAll_eq
    rw [applyAll_append, e]
    exact .inl rfl
  case ruleSet | script => rw [applyAll_addRules]; exact .inl rfl
  case coerce h =>
    have ⟨_, e⟩ := applyAll_coerceInvalidation h
    exact .inl (e ▸ rfl)
  case typeCache h | cacheType h =>
    have ⟨_, e⟩ := applyAll_checkTypeCache h
    rw [applyAll_append, e]
    exact .inl rfl
  case enum h | buildEnum h _ => exact .inr ⟨_, _, _, h, rfl⟩
  all_goals exact .inl rfl

theorem Step.getElem?_enums {σ : Store} {call : Call} {cs : List Change} (s : Step σ call cs)
    {n : EnumId} {e : EnumType} (h : σ.enums[n]? = some e) :
    (σ.applyAll cs).enums[n]? = some e := by
  cases s.enums_cases
  case inl he => exact he ▸ h
  case inr he =>
    have ⟨_, _, _, _, he⟩ := he
    exact he ▸ Table.getElem?_push h

end GraphSchema
