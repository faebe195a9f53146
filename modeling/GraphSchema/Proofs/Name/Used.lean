import GraphSchema.Proofs.Decoding.Name
import GraphSchema.Proofs.Definition.Conformance
import GraphSchema.Proofs.Field.Keyed
import GraphSchema.Proofs.Name.Grammar

namespace GraphSchema

open Outcome Name

def Interface.names (i : Interface) : List String := i.name :: i.fields.map (·.1)

def ObjectType.names (t : ObjectType) : List String :=
  t.name :: (t.interfaceNames ++ t.fields.map (·.1))

def EnumType.names (e : EnumType) : List String := e.name :: e.values

namespace Store

variable {σ σ' : Store} {call : Call} {cs : List Change} {v w : Value}

-- Checks only let names through.

theorem isName_of_checkFieldList {owner n : String} {fs : Fields}
    (h : σ.checkFieldList owner v = .ok fs) (hn : n ∈ fs.val.map (·.1)) : isName n := by
  obtain ⟨p, hp, rfl⟩ := List.mem_map.mp hn
  exact (mem_of_checkFieldList h hp).left

theorem isName_of_checkEnumValues {seen ns : List String} {vs : List Value}
    (hs : ∀ n ∈ seen, isName n) (h : σ.checkEnumValues seen vs = .ok ns) : ∀ n ∈ ns, isName n := by
  induction vs generalizing seen
  case nil =>
    cases h
    exact hs
  case cons v vs hi =>
    have ⟨n, hn, h⟩ := bind_eq_ok.mp h
    split at h
    · exact absurd h Misuse.refusal_ne_ok
    · split at h
      · exact absurd h Misuse.refusal_ne_ok
      · refine hi (List.forall_mem_append.mpr ⟨hs, ?_⟩) h
        exact List.forall_mem_singleton.mpr (checkName_eq_ok_iff.mp hn).right

theorem isName_of_checkEnum {e : EnumType} (h : σ.checkEnum v w = .ok e) :
    ∀ n ∈ e.names, isName n := by
  refine List.forall_mem_cons.mpr ⟨(checkEnum_eq_ok h).left, ?_⟩
  have ⟨_, _, h⟩ := bind_eq_ok.mp h
  split at h
  · exact absurd h Value.refuse_ne_ok
  · have ⟨_, _, h⟩ := bind_eq_ok.mp h
    have ⟨ns, hn, h⟩ := bind_eq_ok.mp h
    split at h
    · exact absurd h Misuse.refusal_ne_ok
    · cases pure_eq_ok.mp h
      exact isName_of_checkEnumValues (fun _ h => absurd h List.not_mem_nil) hn

-- References to what was never made read as if it had no name.
def Accepted (s : String) : Prop := s = "" ∨ isName s

structure AllAccepted (σ : Store) : Prop where
  interfaces : ∀ (n : InterfaceId) (i : Interface), σ.interfaces[n]? = some i →
    ∀ s ∈ i.names, isName s
  types : ∀ (n : TypeId) (t : ObjectType), σ.types[n]? = some t → ∀ s ∈ t.names, isName s
  enums : ∀ (n : EnumId) (e : EnumType), σ.enums[n]? = some e → ∀ s ∈ e.names, isName s
  fields : ∀ (n : FieldId) (f : Field), σ.fields[n]? = some f →
    Accepted (σ.outline f.shape).base.name

namespace AllAccepted

theorem getD {α : Type} [Inhabited α] {as : Array α} {name : α → String}
    (h : ∀ (n : Nat) (a : α), as[n]? = some a → isName (name a)) (he : name default = "")
    (n : Nat) : Accepted (name (as.getD n default)) := by
  rw [Array.getD_eq_getD_getElem?]
  cases ha : as[n]?
  case none => exact .inl he
  case some a => exact .inr (h n a ha)

theorem enum (h : σ.AllAccepted) (e : EnumId) : Accepted (σ.enums.getD e default).name :=
  getD (fun n a ha => h.enums n a ha a.name List.mem_cons_self) rfl e

theorem nameOf (h : σ.AllAccepted) (d : Definition) : Accepted (σ.nameOf d) := by
  cases d
  case interface i => exact getD (fun n a ha => h.interfaces n a ha a.name List.mem_cons_self) rfl i
  case type t => exact getD (fun n a ha => h.types n a ha a.name List.mem_cons_self) rfl t
  case enum e => exact h.enum e

theorem offers {b : Base} (h : σ.AllAccepted) (hc : call.Named) (ho : σ.Offers call b) :
    Accepted b.name := by
  cases ho
  case given base nullable asked read =>
    subst asked
    cases base
    case scalar s =>
      cases read
      cases s <;> exact .inr (by decide)
    case enumRef | objectRef =>
      cases read
      exact .inr hc
    all_goals exact nomatch read
  case scalar s => cases s <;> exact .inr (by decide)
  case enum e => exact h.enum e
  case name hn => exact .inr hn
  case definition d => exact h.nameOf d

theorem interfaces_preserved (h : σ.AllAccepted) (s : DefinitionStep σ call σ') {n : InterfaceId}
    {i : Interface} (hi : σ'.interfaces[n]? = some i) : ∀ s ∈ i.names, isName s := by
  cases s
  case interface hc e _ =>
    cases Table.of_getElem?_push (e ▸ hi)
    case inl hi => exact h.interfaces n i hi
    case inr e =>
      have ⟨hn, hf, _⟩ := checkInterface_eq_ok (e ▸ hc)
      exact List.forall_mem_cons.mpr ⟨hn, fun _ => isName_of_checkFieldList hf⟩
  case still e _ | type e _ | implement e _ | cache e _ => exact h.interfaces n i (e ▸ hi)

theorem types_preserved (h : σ.AllAccepted) (s : DefinitionStep σ call σ') {n : TypeId}
    {t : ObjectType} (ht : σ'.types[n]? = some t) : ∀ s ∈ t.names, isName s := by
  cases s
  case still _ e | interface _ e => exact h.types n t (e ▸ ht)
  case type hc _ e =>
    cases Table.of_getElem?_push (e ▸ ht)
    case inl ht => exact h.types n t ht
    case inr e =>
      have ⟨hn, hf, hi, _⟩ := checkType_eq_ok (e ▸ hc)
      rw [ObjectType.names, ObjectType.interfaceNames, hi]
      exact List.forall_mem_cons.mpr ⟨hn, fun _ => isName_of_checkFieldList hf⟩
  case implement i _ _ hi _ _ _ e =>
    rcases Table.of_getElem?_modify (e ▸ ht) with ht | ⟨u, hu, rfl⟩
    · exact h.types n t ht
    · have hn : isName i.val.name :=
        h.interfaces i.id i.val (interface?_eq_some hi) _ List.mem_cons_self
      have hu := h.types n u hu
      simp only [ObjectType.names, List.forall_mem_cons, List.forall_mem_append] at hu
      simp only [ObjectType.names, ObjectType.interfaceNames_implement, List.forall_mem_cons,
        List.forall_mem_append]
      exact ⟨hu.left, ⟨hu.right.left, hn, List.forall_mem_nil _⟩, hu.right.right⟩
  case cache _ e =>
    rcases Table.of_getElem?_modify (e ▸ ht) with ht | ⟨u, hu, rfl⟩
    · exact h.types n t ht
    · exact h.types n u hu

theorem fields_preserved (h : σ.AllAccepted) (hf : σ.Formed) (hc : call.Named)
    (s : FieldStep σ call σ') {n : FieldId} {f : Field} (hn : σ'.fields[n]? = some f) :
    Accepted (σ'.outline f.shape).base.name := by
  have old {m : FieldId} {g : Field} (hg : σ.fields[m]? = some g) :
      Accepted (σ'.outline g.shape).base.name :=
    s.base_outline (hf m g hg).shape_lt ▸ h.fields m g hg
  cases s.origin hn
  case old hn => exact old hn
  case leaf ho _ _ hs =>
    rw [outline_of_push_size hs]
    exact h.offers hc ho
  case wrap inner _ _ hw _ _ _ =>
    have ⟨hi, _⟩ := checkWrap_eq_ok.mp hw
    exact old (g := inner.val) (field?_eq_some hi)

theorem preserved (h : σ.AllAccepted) (hf : σ.Formed) (hc : call.Named) (s : Step σ call cs) :
    (σ.applyAll cs).AllAccepted where
  interfaces _ _ := h.interfaces_preserved s.definitionStep
  types _ _ := h.types_preserved s.definitionStep
  enums n e he := by
    rcases s.enums_cases with hs | ⟨_, _, _, hc, hs⟩
    case inl => exact h.enums n e (hs ▸ he)
    case inr =>
      cases Table.of_getElem?_push (hs ▸ he)
      case inl he => exact h.enums n e he
      case inr e => exact isName_of_checkEnum (e ▸ hc)
  fields _ _ := h.fields_preserved hf hc s.fieldStep

end AllAccepted

theorem allAccepted_run {cs : List Call} (h : ∀ c ∈ cs, c.Named) :
    (({} : Store).run cs).AllAccepted := by
  refine (run_induction_on (P := fun σ => σ.Formed ∧ σ.AllAccepted) h ⟨?_, ?_⟩ ?_).right
  · exact formed_run []
  · exact ⟨fun _ _ h => absurd h (by simp), fun _ _ h => absurd h (by simp),
      fun _ _ h => absurd h (by simp), fun _ _ h => absurd h (by simp)⟩
  · intro σ c p hc ⟨hf, hs⟩ hp
    have s := step_of_plan hp
    exact ⟨hf.preserved s.fieldStep, hs.preserved hf hc s⟩

-- What a printed schema takes its names from.
inductive InUse (σ : Store) (s : String) : Prop
  | interface {n : InterfaceId} {i : Interface} (made : σ.interfaces[n]? = some i)
      (holds : s ∈ i.names)
  | type {n : TypeId} {t : ObjectType} (made : σ.types[n]? = some t) (holds : s ∈ t.names)
  | enum {n : EnumId} {e : EnumType} (made : σ.enums[n]? = some e) (holds : s ∈ e.names)
  | reference {n : FieldId} {f : Field} (made : σ.fields[n]? = some f)
      (holds : s = (σ.outline f.shape).base.name)
  | key {n : FieldId} {f : Field} {v : Value} (made : σ.fields[n]? = some f)
      (default : .default v ∈ f.directives) (holds : s ∈ (σ.settle v).keys)

theorem InUse.accepted {cs : List Call} (h : ∀ c ∈ cs, c.Named) {s : String}
    (hs : (({} : Store).run cs).InUse s) : Accepted s := by
  have ha := allAccepted_run h
  cases hs
  case interface hm hs => exact .inr (ha.interfaces _ _ hm s hs)
  case type hm hs => exact .inr (ha.types _ _ hm s hs)
  case enum hm hs => exact .inr (ha.enums _ _ hm s hs)
  case reference hm hs => exact hs ▸ ha.fields _ _ hm
  case key v hm hd hs =>
    have hk := allKeyed_run cs _ _ hm v hd
    exact .inr (Value.isName_of_mem_keys _ (isKeyed_settle v ▸ hk) hs)

theorem Accepted.exists_isBlank_iff {s : String} (h : Accepted s) :
    (∃ c ∈ s.toList, isBlank c) ↔ IsBroken s := by
  rcases h with rfl | h
  case inl => exact iff_of_false (by simp) fun h => absurd h.exists_isBlank (by simp)
  case inr => exact Name.exists_isBlank_iff h

-- What passes for a name is a text in the grammar, or such a text with a line break behind it; the
-- latter is where the answer and the grammar differ. In a schema under construction the names with
-- anything blank in them are those with this line break.
theorem isName_run {cs : List Call} (h : ∀ c ∈ cs, c.Named) :
    (∀ (σ : Store) (v : Value), ∃ b, σ.perform (.isName v) = (.ok (.bool b), σ) ∧
      (b = true ↔ ∃ s, v = .text s ∧ (InGrammar s ∨ IsBroken s)) ∧
      ((b = true ↔ ∃ s, v = .text s ∧ InGrammar s) ↔ ∀ s, v = .text s → ¬ IsBroken s)) ∧
    ∀ s, (({} : Store).run cs).InUse s → ((∃ c ∈ s.toList, isBlank c) ↔ IsBroken s) := by
  refine ⟨fun σ v => ⟨v.isNameText, rfl, Value.isNameText_iff, ?_⟩, fun s hs => ?_⟩
  · rw [Value.isNameText_iff]
    constructor
    · rintro h s rfl hb
      have ⟨_, e, hg⟩ := h.mp ⟨s, rfl, .inr hb⟩
      cases e
      exact hb.not_inGrammar hg
    · exact fun h => exists_congr fun s => and_congr_right fun e => or_iff_left (h s e)
  · exact (hs.accepted h).exists_isBlank_iff

def broken : List Call := [.enum (.text "Color") (.list [.text "RED\n", .text "GREEN"])]

theorem isName_broken :
    let σ := ({} : Store).run broken
    σ.InUse "RED\n" ∧ IsBroken "RED\n" ∧ σ.InUse "GREEN" ∧ ¬ IsBroken "GREEN" := by
  intro σ
  have named : ∀ c ∈ broken, c.Named := List.forall_mem_singleton.mpr trivial
  have made : σ.enums[0]? = some ⟨"Color", ["RED\n", "GREEN"]⟩ := rfl
  have red : σ.InUse "RED\n" := .enum made (by decide)
  have green : σ.InUse "GREEN" := .enum made (by decide)
  have word : InGrammar "GREEN" := inGrammar_iff.mpr (by decide)
  have ⟨_, h⟩ := isName_run named
  exact ⟨red, (h _ red).mp ⟨'\n', by decide, rfl⟩, green, (h _ green).not.mp word.not_isBlank⟩

theorem not_isName_iff_inGrammar :
    ¬ ∀ (σ : Store) (v : Value), (σ.perform (.isName v)).1 = .ok (.bool true) ↔
      ∃ s, v = .text s ∧ InGrammar s := by
  intro h
  have ⟨s, e, hg⟩ := (h {} (.text "a\n")).mp rfl
  cases e
  exact absurd (inGrammar_iff.mp hg) (by decide)

end Store

end GraphSchema
