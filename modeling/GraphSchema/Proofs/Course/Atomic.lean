import GraphSchema.Proofs.Course.Definition
import GraphSchema.Proofs.Plan.Look

namespace GraphSchema

open Course

-- What only looks is answered as decided, and makes nothing.
def Course.look (c : Call) : Course Value := do
  let p ← (← get).plan c
  return p.answer

-- What each call does, in the order in which it does it.
def Call.course : Call → Course Value
  | .shape b n l i => Course.shape b n l i
  | .leaf b n => Course.leaf b n
  | .optional f => Course.optional f
  | .list f => Course.list f
  | .length f min max => Course.length f min max
  | .unique f scope => Course.unique f scope
  | .default f v => Course.withDefault f v
  | .search f => Course.search f
  | .auth f rules => Course.auth f rules
  | .cache f age stale => Course.cache f age stale
  | .rule a groups => Course.rule a groups
  | .ruleSet => return .ruleSet (← emptySet)
  | .buildRuleSet script => Course.buildRuleSet script
  | .allow set a => Course.allow set a
  | .allowGroups set groups => Course.allowGroups set groups
  | .narrow r o => Course.narrow r o
  | .invalidation p f => Course.invalidation p f
  | .invalidationOf v => Course.invalidationOf v
  | .fieldCache age stale => Course.fieldCache age stale
  | .typeCache age stale i => Course.typeCache age stale i
  | .interface name fields => Course.interface name fields
  | .type name fields => Course.type name fields
  | .enum name values => Course.enum name values
  | .enumOf cls => Course.enumOf cls
  | .implement t i => Course.implement t i
  | .cacheType t age stale i => Course.cacheType t age stale i
  | .registry => return .object (.registry (← newRegistry))
  | .register r k d => Course.register r k d
  | .clear owner => Course.clear owner
  | .builder r => Course.builder r
  | .scalarField b s => Course.scalarField b s
  | .enumField b e => Course.enumField b e
  | .refField b t => Course.refField b t
  | .buildInterface b name fields => Course.buildInterface b name fields
  | .buildType b name fields => Course.buildType b name fields
  | .buildEnum b name values => Course.buildEnum b name values
  | .printer indent => Course.printer indent
  | .config b indent => Course.config b indent
  | c => Course.look c

variable {σ : Store} {c : Call}

theorem Course.realizes_look (h : c.looks) : Realizes (Course.look c) σ (σ.plan c) := by
  refine .look ?_
  cases hp : σ.plan c
  case error => exact .of_error rfl σ.retains_refl
  case ok p => exact .of_ok (by rw [Call.looks_plan h p hp]; rfl)

theorem Call.realizes_course (σ : Store) (c : Call) : Realizes c.course σ (σ.plan c) := by
  cases c
  case shape => exact realizes_shape ..
  case leaf => exact realizes_leaf
  case optional => exact realizes_optional
  case list => exact realizes_list
  case length => exact realizes_length ..
  case unique => exact realizes_unique
  case default => exact realizes_withDefault
  case search => exact realizes_search
  case auth => exact realizes_auth
  case cache => exact realizes_cache ..
  case rule => exact realizes_rule ..
  case ruleSet => exact realizes_emptySet
  case buildRuleSet => exact realizes_buildRuleSet
  case allow => exact realizes_allow ..
  case allowGroups => exact realizes_allowGroups ..
  case narrow => exact realizes_narrow ..
  case invalidation => exact realizes_invalidation
  case invalidationOf => exact realizes_invalidationOf
  case fieldCache => exact realizes_fieldCache
  case typeCache => exact realizes_typeCache ..
  case interface => exact realizes_interface
  case type => exact realizes_type
  case enum => exact realizes_enum
  case enumOf => exact realizes_enumOf
  case implement => exact realizes_implement
  case cacheType => exact realizes_cacheType ..
  case registry => exact .of_ok rfl
  case register => exact realizes_register ..
  case clear => exact realizes_clear
  case builder => exact realizes_builder
  case scalarField => exact realizes_scalarField ..
  case enumField => exact realizes_enumField
  case refField => exact realizes_refField
  case buildInterface => exact realizes_buildInterface ..
  case buildType => exact realizes_buildType ..
  case buildEnum => exact realizes_buildEnum ..
  case printer => exact realizes_printer
  case config => exact realizes_config
  all_goals exact realizes_look rfl

-- A call that succeeds does what was decided. One that is refused, wherever it is broken off,
-- leaves all objects as they were, and logs nothing.
theorem Call.retains_of_refused (σ : Store) (c : Call) :
    (∀ v τ, c.course.on σ = (.ok v, τ) ↔ σ.perform c = (.ok v, τ)) ∧
      ∀ e τ, c.course.on σ = (.error e, τ) → σ.perform c = (.error e, σ) ∧ σ.Retains τ := by
  have h := c.realizes_course σ
  cases hp : σ.plan c
  case ok p =>
    have hc := h.done p hp
    rw [hc, Store.perform_of_plan hp]
    refine ⟨fun _ _ => .rfl, fun e τ he => ?_⟩
    cases he
  case error e =>
    obtain ⟨τ, hc, hr⟩ := h.refused e hp
    rw [hc, Store.perform, hp]
    constructor
    case left =>
      intro v τ
      constructor <;> intro hv <;> cases hv
    case right =>
      intro e τ he
      cases he
      exact ⟨rfl, hr⟩

-- The second definition is made before its name turns out to be taken, and remains without one.
theorem Call.retains_of_taken_name :
    let σ := Store.run {} [.builder .null,
      .buildEnum (.object (.builder 0)) (.text "Color") (.list [.text "RED"])]
    let c := Call.buildEnum (.object (.builder 0)) (.text "Color") (.list [.text "BLUE"])
    let τ := σ.apply (.addEnum ⟨"Color", ["BLUE"]⟩)
    c.course.on σ = (.error (.duplicate "Color"), τ) ∧
      σ.perform c = (.error (.duplicate "Color"), σ) ∧ σ.Retains τ := by
  intro σ c τ
  have h : c.course.on σ = (.error (.duplicate "Color"), τ) := by rfl
  exact ⟨h, (Call.retains_of_refused σ c).2 _ _ h⟩

end GraphSchema
