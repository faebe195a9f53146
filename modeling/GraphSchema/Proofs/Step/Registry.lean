import GraphSchema.Proofs.Step.Definition

namespace GraphSchema

-- Calls that put something into a registry or empty it.
def Call.registers : Call → Bool
  | .register .. | .clear _ | .buildInterface .. | .buildType .. | .buildEnum .. => true
  | _ => false

-- How the registries of one store come from those of the store before the call.
inductive RegistryStep (σ : Store) (call : Call) (σ' : Store) : Prop
  | still (registries : σ'.registries = σ.registries) (log : σ'.log = σ.log)
  | new (registries : σ'.registries = σ.registries.push []) (log : σ'.log = σ.log)
  | register (asked : call.registers) (r : RegistryId) (x : String × Definition)
      (registries : σ'.registries = σ.registries.modify r (· ++ [x]))
  | clear {v : Value} {r : RegistryId} (asked : call = .clear v) (given : σ.registryOf? v = some r)
      (registries : σ'.registries = σ.registries.modify r fun _ => [])

variable {σ : Store} {call : Call} {cs : List Change}

open Store in
theorem Step.registryStep (s : Step σ call cs) : RegistryStep σ call (σ.applyAll cs) := by
  cases s
  case register ha _ _ => exact .register (ha ▸ rfl) _ _ rfl
  case buildInterface ha _ _ _ | buildType ha _ _ _ | buildEnum ha _ _ _ =>
    exact .register (ha ▸ rfl) _ _ rfl
  case clear ha hr => exact .clear ha hr rfl
  case registry | builder => exact .new rfl rfl
  case wrap hc =>
    have ⟨_, _, _, e⟩ := hc.applyAll_eq
    rw [applyAll_append, e]
    exact .still rfl rfl
  case ruleSet | script => rw [applyAll_addRules]; exact .still rfl rfl
  case coerce h =>
    have ⟨_, e⟩ := applyAll_coerceInvalidation h
    exact e ▸ .still rfl rfl
  case typeCache h | cacheType h =>
    have ⟨_, e⟩ := applyAll_checkTypeCache h
    rw [applyAll_append, e]
    exact .still rfl rfl
  all_goals exact .still rfl rfl

theorem Step.registries_cases (s : Step σ call cs) (h : call.registers = false) :
    (σ.applyAll cs).log = σ.log ∧
      ((σ.applyAll cs).registries = σ.registries ∨
        (σ.applyAll cs).registries = σ.registries.push []) := by
  cases s.registryStep
  case still hr hl => exact ⟨hl, .inl hr⟩
  case new hr hl => exact ⟨hl, .inr hr⟩
  case register ha _ _ _ => exact absurd (h.symm.trans ha) Bool.false_ne_true
  case clear ha _ _ => cases ha; cases h

namespace Store

variable {σ σ' : Store} {call : Call} {d : Definition} {n : String} {r : RegistryId}

-- What was never registered anything in holds nothing, whether it has been made or not.
theorem registry_of_push (h : σ'.registries = σ.registries.push []) (r : RegistryId) :
    σ'.registry r = σ.registry r := by
  simp only [registry, h, Array.getD_eq_getD_getElem?, Array.getElem?_push]
  split
  case isTrue hr => simp [hr]
  case isFalse => rfl

theorem registry_of_modify {g : Registry → Registry} (h : σ'.registries = σ.registries.modify r g)
    (hr : r < σ.registries.size) : σ'.registry r = g (σ.registry r) := by
  simp [registry, h, hr, Array.getElem_modify_self]

-- The name of a definition that has been made.
def name? (σ : Store) : Definition → Option String
  | .interface i => σ.interfaces[i]?.map (·.name)
  | .type t => σ.types[t]?.map (·.name)
  | .enum e => σ.enums[e]?.map (·.name)

theorem nameOf_eq_of_name? (h : σ.name? d = some n) : σ.nameOf d = n := by
  cases d
  all_goals
    have ⟨_, hx, e⟩ := Option.map_eq_some_iff.mp (id h)
    simp [nameOf, hx, e]

end Store

theorem Step.name?_eq {σ : Store} {call : Call} {cs : List Change} (s : Step σ call cs)
    {d : Definition} {n : String} (h : σ.name? d = some n) : (σ.applyAll cs).name? d = some n := by
  cases d
  case interface i =>
    have ⟨x, hx, e⟩ := Option.map_eq_some_iff.mp h
    exact Option.map_eq_some_iff.mpr ⟨x, s.definitionStep.getElem?_interfaces hx, e⟩
  case type t =>
    have ⟨x, hx, e⟩ := Option.map_eq_some_iff.mp h
    have ⟨y, hy, e', _⟩ := s.definitionStep.getElem?_types hx
    exact Option.map_eq_some_iff.mpr ⟨y, hy, e'.trans e⟩
  case enum i =>
    have ⟨x, hx, e⟩ := Option.map_eq_some_iff.mp h
    exact Option.map_eq_some_iff.mpr ⟨x, s.getElem?_enums hx, e⟩

open Store in
theorem Step.nameOf_eq {σ : Store} {call : Call} {cs : List Change} (s : Step σ call cs)
    {d : Definition} (h : (σ.name? d).isSome) :
    ((σ.applyAll cs).name? d).isSome ∧ (σ.applyAll cs).nameOf d = σ.nameOf d := by
  have ⟨n, hn⟩ := Option.isSome_iff_exists.mp h
  have hn' := s.name?_eq hn
  exact ⟨hn' ▸ rfl, (nameOf_eq_of_name? hn').trans (nameOf_eq_of_name? hn).symm⟩

end GraphSchema
