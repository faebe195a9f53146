import GraphSchema.Proofs.Decoding.Basic
import GraphSchema.Proofs.Field.Chain
import GraphSchema.Proofs.Step.Definition

namespace GraphSchema

def Spelled (s : String) : Prop := ∀ c ∈ s.toList, Name.isChar c

theorem spelled_of_isName {s : String} (h : isName s) : Spelled s := Name.isChar_of_isName h

-- Scalars come with the program, and references with a name.
def Call.Named : Call → Prop
  | .leaf (.enumRef n _) _ | .leaf (.objectRef n) _ => GraphSchema.isName n
  | _ => True

theorem Call.Named.spelled {base nullable : Value} {b : Base} (h : Named (.leaf base nullable))
    (hb : Base.ofValue? base = some b) : Spelled b.name := by
  cases base
  case scalar s =>
    cases hb
    cases s <;> exact spelled_of_isName (by decide)
  case enumRef | objectRef =>
    cases hb
    exact spelled_of_isName h
  all_goals exact nomatch hb

namespace Store

structure AllSpelled (σ : Store) : Prop where
  interfaces : ∀ (n : InterfaceId) (i : Interface), σ.interfaces[n]? = some i → isName i.name
  types : ∀ (n : TypeId) (t : ObjectType), σ.types[n]? = some t → isName t.name
  enums : ∀ (n : EnumId) (e : EnumType), σ.enums[n]? = some e → isName e.name
  fields : ∀ (n : FieldId) (f : Field), σ.fields[n]? = some f →
    Spelled (σ.outline f.shape).base.name

variable {σ σ' : Store} {call : Call} {cs : List Change}

namespace AllSpelled

-- What was never made has no name, and so nothing in it to be spelled.
theorem getD {α : Type} [Inhabited α] {as : Array α} {name : α → String}
    (h : ∀ (n : Nat) (a : α), as[n]? = some a → isName (name a)) (he : Spelled (name default))
    (n : Nat) : Spelled (name (as.getD n default)) := by
  rw [Array.getD_eq_getD_getElem?]
  cases ha : as[n]?
  case none => exact he
  case some a => exact spelled_of_isName (h n a ha)

theorem nameOf (h : σ.AllSpelled) (d : Definition) : Spelled (σ.nameOf d) := by
  cases d
  case interface i => exact getD h.interfaces nofun i
  case type t => exact getD h.types nofun t
  case enum e => exact getD h.enums nofun e

theorem offers {b : Base} (h : σ.AllSpelled) (hc : call.Named) (ho : σ.Offers call b) :
    Spelled b.name := by
  cases ho
  case given asked read => exact (asked ▸ hc : Call.Named (.leaf ..)).spelled read
  case scalar s => cases s <;> exact spelled_of_isName (by decide)
  case enum e => exact getD h.enums nofun e
  case name hn => exact spelled_of_isName hn
  case definition d => exact h.nameOf d

theorem interfaces_preserved (h : σ.AllSpelled) (s : DefinitionStep σ call σ') {n : InterfaceId}
    {i : Interface} (hi : σ'.interfaces[n]? = some i) : isName i.name := by
  cases s
  case interface hc e _ =>
    cases Table.of_getElem?_push (e ▸ hi)
    case inl hi => exact h.interfaces n i hi
    case inr e => exact e ▸ (checkInterface_eq_ok hc).left
  case still e _ | type e _ | implement e _ | cache e _ => exact h.interfaces n i (e ▸ hi)

theorem types_preserved (h : σ.AllSpelled) (s : DefinitionStep σ call σ') {n : TypeId}
    {t : ObjectType} (ht : σ'.types[n]? = some t) : isName t.name := by
  cases s
  case still _ e | interface _ e => exact h.types n t (e ▸ ht)
  case type hc _ e =>
    cases Table.of_getElem?_push (e ▸ ht)
    case inl ht => exact h.types n t ht
    case inr e => exact e ▸ (checkType_eq_ok hc).left
  case implement _ e | cache _ e =>
    rcases Table.of_getElem?_modify (e ▸ ht) with ht | ⟨t', hn, rfl⟩
    · exact h.types n t ht
    · exact h.types n t' hn

theorem fields_preserved (h : σ.AllSpelled) (hf : σ.Formed) (hc : call.Named)
    (s : FieldStep σ call σ') {n : FieldId} {f : Field} (hn : σ'.fields[n]? = some f) :
    Spelled (σ'.outline f.shape).base.name := by
  have old {m : FieldId} {g : Field} (hg : σ.fields[m]? = some g) :
      Spelled (σ'.outline g.shape).base.name :=
    s.base_outline (hf m g hg).shape_lt ▸ h.fields m g hg
  cases s.origin hn
  case old hn => exact old hn
  case leaf ho _ _ hs =>
    rw [outline_of_push_size hs]
    exact h.offers hc ho
  case wrap inner _ _ hw _ _ _ =>
    have ⟨hi, _⟩ := checkWrap_eq_ok.mp hw
    exact old (g := inner.val) (field?_eq_some hi)

theorem preserved (h : σ.AllSpelled) (hf : σ.Formed) (hc : call.Named) (s : Step σ call cs) :
    (σ.applyAll cs).AllSpelled where
  interfaces _ _ := h.interfaces_preserved s.definitionStep
  types _ _ := h.types_preserved s.definitionStep
  enums n e he := by
    rcases s.enums_cases with hs | ⟨_, _, _, hc, hs⟩
    case inl => exact h.enums n e (hs ▸ he)
    case inr =>
      cases Table.of_getElem?_push (hs ▸ he)
      case inl he => exact h.enums n e he
      case inr e => exact e ▸ (checkEnum_eq_ok hc).left
  fields _ _ := h.fields_preserved hf hc s.fieldStep

end AllSpelled

end Store

end GraphSchema
