import GraphSchema.Proofs.Plan.Field

namespace GraphSchema

def Decision.Looks (d : Decision) : Prop := ∀ p, d = .ok p → p.changes = []

namespace Decision.Looks

open Outcome

variable {σ : Store} {v : Value}

theorem say : Looks (pure (.say v)) := fun _ h => (pure_eq_ok.mp h) ▸ rfl

theorem throw {e : Error} : Looks (throw e) := fun _ h => absurd h throw_ne_ok

theorem lacks {property : String} : Looks (σ.lacks v property) :=
  fun _ h => absurd h Store.lacks_ne_ok

theorem refuse {display : Value → Except Error String} {reason : String → Misuse} :
    Looks (v.refuse display reason) :=
  fun _ h => absurd h Value.refuse_ne_ok

theorem refusal {m : Misuse} : Looks m.refusal := fun _ h => absurd h Misuse.refusal_ne_ok

theorem bind {α : Type} {x : Except Error α} {f : α → Decision} (h : ∀ a, Looks (f a)) :
    Looks (x >>= f) := by
  intro p hp
  have ⟨a, _, hp⟩ := bind_eq_ok.mp hp
  exact h a p hp

end Decision.Looks

namespace Store

open Decision

variable {σ : Store} {v w : Value}

-- Texts and values.

theorem looks_sayText {t : Except Error String} : Looks (sayText t) := .bind fun _ => .say

theorem looks_quoteItems : Looks (σ.quoteItems v) := .bind fun _ => .bind fun _ => .say

theorem looks_dedentOf : Looks (σ.dedentOf v) := by
  unfold dedentOf
  split
  · exact .say
  all_goals exact .throw

theorem looks_scalarNamed : Looks (σ.scalarNamed v) := by
  unfold scalarNamed
  split
  · exact .say
  · split
    · exact .say
    · exact .bind fun _ => .throw

theorem looks_sizeOf : Looks (σ.sizeOf v) := by
  unfold sizeOf
  split
  · split
    · exact .say
    · exact .throw
  · exact .throw

theorem looks_itemsOf : Looks (σ.itemsOf v) := .bind fun _ => .say

theorem looks_contains : Looks (σ.contains v w) := .bind fun _ => .say

theorem looks_equality : Looks (σ.equality v w) := .bind fun _ => .say

theorem looks_countDistinct {vs : List Value} : Looks (σ.countDistinct vs) := by
  unfold countDistinct
  split
  · exact .throw
  · exact .say

theorem looks_property {p : String} : Looks (σ.property v p) := .bind fun _ => .say

-- Shapes and fields.

theorem looks_newEnumRef : Looks (σ.newEnumRef v w) := by
  unfold newEnumRef
  split
  · split
    · exact .refusal
    · split
      · exact .say
      · exact .bind fun _ => .say
  · exact .refuse

theorem looks_newObjectRef : Looks (σ.newObjectRef v) := by
  unfold newObjectRef
  split
  · split
    · exact .say
    · exact .refusal
  · exact .refuse

theorem looks_kinds : Looks (σ.kinds v) := by
  unfold kinds
  split
  · exact .lacks
  · exact .say

theorem looks_render : Looks (σ.render v) := by
  unfold render
  split
  · exact .lacks
  · exact .bind fun _ => .say

theorem looks_directive : Looks (σ.directive v) := by
  unfold directive
  split
  · exact .lacks
  · split
    · exact .lacks
    · exact .bind fun _ => .say

theorem looks_checkDefault : Looks (σ.checkDefault v w) := by
  unfold checkDefault
  split
  · exact .refusal
  · split
    · exact .bind fun _ => .say
    · exact .lacks

-- Caches and definitions.

theorem looks_cacheArguments : Looks (σ.cacheArguments v) := by
  unfold cacheArguments
  split
  · exact .say
  · exact .say
  · exact .lacks

theorem looks_reference : Looks (σ.reference v) := by
  unfold reference
  split
  · exact .say
  · exact .say
  · exact .lacks

theorem looks_refuseFields : Looks (σ.refuseFields v) := by
  unfold refuseFields
  split
  · exact .bind fun _ => .bind fun _ => .lacks
  · exact .bind fun _ => .lacks

theorem looks_refuseType : Looks (σ.refuseType v) :=
  .bind fun _ => .bind fun _ => .bind fun _ => .bind fun _ => .lacks

theorem looks_checkTypeFields : Looks (σ.checkTypeFields v) := by
  unfold checkTypeFields
  split
  · exact looks_refuseType
  · exact .bind fun _ => .say

theorem looks_mergeFields : Looks (σ.mergeFields v) := by
  unfold mergeFields
  split
  · exact looks_refuseFields
  · exact .say

theorem looks_interfaceNames : Looks (σ.interfaceNames v) := by
  unfold interfaceNames
  split
  · exact .bind fun _ => .bind fun _ => .lacks
  · exact .say

-- Registries, builders, printers and configurations.

theorem looks_get : Looks (σ.get v w) := by
  unfold get
  split
  · exact .lacks
  · exact .bind fun _ => .say

theorem looks_definitionsOf : Looks (σ.definitionsOf v) := by
  unfold definitionsOf
  split
  · exact .say
  · exact .lacks

theorem looks_builderText : Looks (σ.builderText v w) := by
  unfold builderText
  split
  · exact .lacks
  · exact .bind fun _ => .bind fun _ => .say

theorem looks_print {what : Printout} : Looks (σ.print what v w) :=
  .bind fun _ => .bind fun _ => .say

theorem looks_printWith {what : Printout} : Looks (σ.printWith v what w) := by
  unfold printWith
  split
  · exact .lacks
  · exact .bind fun _ => .say

theorem looks_configText : Looks (σ.configText v) := by
  unfold configText
  split
  · exact .bind fun _ => .say
  · exact .lacks

end Store

-- All of them together.
def Call.looks : Call → Bool
  | .isName _ | .quote _ | .quoteItems _ | .dedent _ | .literal .. | .scalarNamed _ | .text _
  | .display _ | .size _ | .items _ | .contains .. | .equal .. | .distinct _ | .property ..
  | .enumRef .. | .objectRef _ | .kinds _ | .directive _ | .render _ | .checkDefault ..
  | .wrapTable | .generalPolicy _ | .cacheArguments _ | .reference _ | .checkFields _
  | .mergeFields _ | .interfaceNames _ | .get .. | .definitions _ | .builderText .. | .printWith ..
  | .print .. | .configText _ => true
  | _ => false

open Store in
theorem Call.looks_plan {σ : Store} {c : Call} (h : c.looks) : Decision.Looks (σ.plan c) := by
  cases c
  case isName | wrapTable | generalPolicy => exact .say
  case quote | text | display | literal => exact looks_sayText
  case quoteItems => exact looks_quoteItems
  case dedent => exact looks_dedentOf
  case scalarNamed => exact looks_scalarNamed
  case size => exact looks_sizeOf
  case items => exact looks_itemsOf
  case contains => exact looks_contains
  case equal => exact looks_equality
  case distinct => exact looks_countDistinct
  case property => exact looks_property
  case enumRef => exact looks_newEnumRef
  case objectRef => exact looks_newObjectRef
  case kinds => exact looks_kinds
  case directive => exact looks_directive
  case render => exact looks_render
  case checkDefault => exact looks_checkDefault
  case cacheArguments => exact looks_cacheArguments
  case reference => exact looks_reference
  case checkFields => exact looks_checkTypeFields
  case mergeFields => exact looks_mergeFields
  case interfaceNames => exact looks_interfaceNames
  case get => exact looks_get
  case definitions => exact looks_definitionsOf
  case builderText => exact looks_builderText
  case printWith => exact looks_printWith
  case print => exact looks_print
  case configText => exact looks_configText
  all_goals exact nomatch h

end GraphSchema
