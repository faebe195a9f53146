import GraphSchema.Proofs.Definition.Merge
import GraphSchema.Proofs.Step.Field
import GraphSchema.Proofs.Step.Definition

namespace GraphSchema

namespace ObjectType

variable {t : ObjectType}

theorem flatten_sources (t : ObjectType) :
    t.sources.flatten = t.interfaces.flatMap (·.val.fields) ++ t.fields := by
  rw [sources, List.flatten_append, ← List.flatMap_def, List.flatten_singleton]

theorem mem_sources {p : String × Numbered Field} :
    p ∈ t.sources.flatten ↔ (∃ i ∈ t.interfaces, p ∈ i.val.fields) ∨ p ∈ t.fields := by
  rw [flatten_sources, List.mem_append, List.mem_flatMap]

theorem flatten_sources_ne_nil (hf : t.interfaces = [] → t.fields ≠ [])
    (hi : ∀ i ∈ t.interfaces, i.val.fields ≠ []) : t.sources.flatten ≠ [] := by
  cases ht : t.interfaces
  case nil =>
    have ⟨p, hp⟩ := List.exists_mem_of_ne_nil _ (hf ht)
    exact List.ne_nil_of_mem (mem_sources.mpr (.inr hp))
  case cons i is =>
    have hm : i ∈ t.interfaces := ht ▸ List.mem_cons_self
    have ⟨p, hp⟩ := List.exists_mem_of_ne_nil _ (hi i hm)
    exact List.ne_nil_of_mem (mem_sources.mpr (.inl ⟨i, hm, hp⟩))

end ObjectType

namespace Store

open Outcome Declaration

variable {σ σ' : Store} {call : Call} {t : ObjectType} {p q : String × Numbered Field}

-- What definitions hold of fields and interfaces is what is in the tables.

def HasFields (σ : Store) (fs : FieldList) : Prop := ∀ p ∈ fs, σ.fields[p.2.id]? = some p.2.val

structure Linked (σ : Store) : Prop where
  interfaces : ∀ (n : InterfaceId) (i : Interface), σ.interfaces[n]? = some i →
    i.fields ≠ [] ∧ σ.HasFields i.fields
  types : ∀ (n : TypeId) (t : ObjectType), σ.types[n]? = some t →
    σ.HasFields t.fields ∧ ∀ i ∈ t.interfaces, σ.interfaces[i.id]? = some i.val

theorem HasFields.preserved {fs : FieldList} (h : σ.HasFields fs) (s : FieldStep σ call σ') :
    σ'.HasFields fs :=
  fun p hp => s.getElem?_fields (h p hp)

theorem hasFields_of_checkFieldList {owner : String} {fields : Value} {fs : Fields}
    (h : σ.checkFieldList owner fields = .ok fs) : σ.HasFields fs.val :=
  fun _ hp => (mem_of_checkFieldList h hp).right

theorem Linked.preserved (h : σ.Linked) (hf : FieldStep σ call σ')
    (hd : DefinitionStep σ call σ') : σ'.Linked := by
  -- Whatever was linked before stays linked.
  have old {t : ObjectType} (ht : σ.HasFields t.fields ∧
      ∀ i ∈ t.interfaces, σ.interfaces[i.id]? = some i.val) : σ'.HasFields t.fields ∧
      ∀ i ∈ t.interfaces, σ'.interfaces[i.id]? = some i.val :=
    ⟨ht.left.preserved hf, fun i hi => hd.getElem?_interfaces (ht.right i hi)⟩
  constructor
  case interfaces =>
    intro n i hi
    cases hd
    case interface hc e _ =>
      cases Table.of_getElem?_push (e ▸ hi)
      case inl hi => exact (h.interfaces n i hi).imp_right (·.preserved hf)
      case inr e =>
        have ⟨_, hl, hn⟩ := checkInterface_eq_ok (e ▸ hc)
        exact ⟨hn, (hasFields_of_checkFieldList hl).preserved hf⟩
    case still e _ | type e _ | implement e _ | cache e _ =>
      exact (h.interfaces n i (e ▸ hi)).imp_right (·.preserved hf)
  case types =>
    intro n t ht
    cases hd
    case still e | interface e => exact old (h.types n t (e ▸ ht))
    case type hc _ e =>
      cases Table.of_getElem?_push (e ▸ ht)
      case inl ht => exact old (h.types n t ht)
      case inr e =>
        have ⟨_, hl, hn, _⟩ := checkType_eq_ok (e ▸ hc)
        exact ⟨(hasFields_of_checkFieldList hl).preserved hf, by simp [hn]⟩
    case implement u i _ hu hi _ _ he e =>
      rcases Table.of_getElem?_modify (e ▸ ht) with ht | ⟨t', ht', rfl⟩
      case inl => exact old (h.types n t ht)
      case inr =>
        have ⟨hf', hi'⟩ := old (h.types n t' ht')
        refine ⟨hf', fun j hj => ?_⟩
        cases List.mem_append.mp hj
        case inl hj => exact hi' j hj
        case inr hj => rw [List.mem_singleton.mp hj, he, interface?_eq_some hi]
    case cache e =>
      rcases Table.of_getElem?_modify (e ▸ ht) with ht | ⟨t', ht', rfl⟩
      case inl => exact old (h.types n t ht)
      case inr => exact old (h.types n t' ht')

theorem linked_run (cs : List Call) : (({} : Store).run cs).Linked := by
  apply run_induction cs
  case start => exact ⟨fun n i h => absurd h (by simp), fun n t h => absurd h (by simp)⟩
  case step =>
    exact fun σ c p h hp => h.preserved (step_of_plan hp).fieldStep (step_of_plan hp).definitionStep

theorem Linked.hasFields_sources (h : σ.Linked) {n : TypeId} (ht : σ.types[n]? = some t) :
    σ.HasFields t.sources.flatten := by
  have ⟨hf, hi⟩ := h.types n t ht
  intro p hp
  rcases ObjectType.mem_sources.mp hp with ⟨i, him, hp⟩ | hp
  · exact (h.interfaces i.id i.val (hi i him)).right p hp
  · exact hf p hp

-- The check.

theorem checkConflicts_eq_ok_iff {is : List (Numbered Interface)} :
    σ.checkConflicts t is = .ok () ↔ Agree (σ.declarations t is) := by
  have hc : conflict? [] (σ.declarations t is) = none ↔ Agree (σ.declarations t is) :=
    conflict?_eq_none_iff nofun
  rw [← hc, checkConflicts]
  split <;> simp [*]

theorem checkFields_eq_ok_iff :
    σ.checkFields t = .ok () ↔
      Agree (σ.declarations t t.interfaces) ∧ (t.interfaces = [] → t.fields ≠ []) := by
  rw [← checkConflicts_eq_ok_iff]
  refine bind_eq_ok.trans ⟨fun ⟨_, hc, h⟩ => ⟨hc, fun hi hf => ?_⟩, fun ⟨hc, hn⟩ => ⟨(), hc, ?_⟩⟩
  · simp [hi, hf] at h
  · exact if_neg fun ⟨hf, hi⟩ => hn (List.isEmpty_iff.mp hi) (List.isEmpty_iff.mp hf)

theorem exists_declaration (σ : Store) (h : p ∈ t.sources.flatten) :
    ∃ d ∈ σ.declarations t t.interfaces, d.field = p.1 ∧ d.type = σ.shapeText p.2.val := by
  cases ObjectType.mem_sources.mp h
  case inl h =>
    have ⟨i, hi, hp⟩ := h
    refine ⟨⟨i.val.name, p.1, σ.shapeText p.2.val⟩, List.mem_append_left _ ?_, rfl, rfl⟩
    exact List.mem_flatMap.mpr ⟨i, hi, List.mem_map.mpr ⟨p, hp, rfl⟩⟩
  case inr hp =>
    refine ⟨⟨t.name, p.1, σ.shapeText p.2.val⟩, List.mem_append_right _ ?_, rfl, rfl⟩
    exact List.mem_map.mpr ⟨p, hp, rfl⟩

theorem shapeText_eq_of_agree (h : Agree (σ.declarations t t.interfaces))
    (hp : p ∈ t.sources.flatten) (hq : q ∈ t.sources.flatten) (e : p.1 = q.1) :
    σ.shapeText p.2.val = σ.shapeText q.2.val := by
  have ⟨d, hd, hdf, hdt⟩ := exists_declaration σ hp
  have ⟨c, hc, hcf, hct⟩ := exists_declaration σ hq
  rw [← hdt, ← hct]
  exact h d hd c hc (hdf.trans (e.trans hcf.symm))

-- The only field of the name that is printed has the type that the given one has now.
def PrintedAs (σ : Store) (t : ObjectType) (p : String × Numbered Field) : Prop :=
  σ.fields[p.2.id]? = some p.2.val ∧ ∃ g : Numbered Field,
    (merge t.sources).filter (·.1 == p.1) = [(p.1, g)] ∧ σ.shapeText g.val = σ.shapeText p.2.val

theorem printedAs_of_agree (h : Agree (σ.declarations t t.interfaces))
    (hp : p ∈ t.sources.flatten) (hf : σ.fields[p.2.id]? = some p.2.val) : σ.PrintedAs t p := by
  have ⟨g, hg, e⟩ := filter_merge hp
  exact ⟨hf, g, e, shapeText_eq_of_agree h hg hp rfl⟩

-- Nothing is printed of a type that does not pass, and of one that does the merged fields are.

theorem printType_of_checkFields (h : σ.checkFields t = .ok ()) (indent : Indent) :
    σ.printType indent t = block (typeHead t) <$> σ.fieldLines indent (merge t.sources) := by
  rw [printType, h]
  cases σ.fieldLines indent (merge t.sources) <;> rfl

-- Along every run, whatever happens to the shapes of shared fields, a type that passes its check is
-- printed with each field of its interfaces, and each of its own, once and as it is declared.
theorem conforms_run (cs : List Call) (n : TypeId) (t : ObjectType)
    (ht : (({} : Store).run cs).types[n]? = some t)
    (hc : (({} : Store).run cs).checkFields t = .ok ()) :
    let σ := ({} : Store).run cs
    merge t.sources ≠ [] ∧ ((merge t.sources).map (·.1)).Nodup ∧
      (∀ i ∈ t.interfaces, σ.interfaces[i.id]? = some i.val ∧
        ∀ p ∈ i.val.fields, σ.PrintedAs t p) ∧
      (∀ p ∈ t.fields, σ.PrintedAs t p) ∧
      (∀ p ∈ merge t.sources, (∃ i ∈ t.interfaces, p ∈ i.val.fields) ∨ p ∈ t.fields) ∧
      ∀ indent, σ.printType indent t =
        block (typeHead t) <$> σ.fieldLines indent (merge t.sources) := by
  intro σ
  have hl : σ.Linked := linked_run cs
  have ⟨hf, hi⟩ := hl.types n t ht
  have ⟨ha, hn⟩ := checkFields_eq_ok_iff.mp hc
  have interface {i : Numbered Interface} (h : i ∈ t.interfaces) :=
    hl.interfaces i.id i.val (hi i h)
  refine ⟨?nonempty, nodup_merge, ?interfaces, ?own, ?declared, printType_of_checkFields hc⟩
  case nonempty =>
    exact merge_ne_nil (ObjectType.flatten_sources_ne_nil hn fun i h => (interface h).left)
  case interfaces =>
    refine fun i him => ⟨hi i him, fun p hp => ?_⟩
    exact printedAs_of_agree ha (ObjectType.mem_sources.mpr (.inl ⟨i, him, hp⟩))
      ((interface him).right p hp)
  case own =>
    exact fun p hp => printedAs_of_agree ha (ObjectType.mem_sources.mpr (.inr hp)) (hf p hp)
  case declared => exact fun p hp => ObjectType.mem_sources.mp (mem_of_mem_merge hp)

-- A field that a type shares with its interface, and that became optional after all.

def shared : List Call :=
  [.leaf (.scalar .id) (.bool false), .interface (.text "Node") (.dict [(.text "id", .field 0)]),
    .type (.text "User") (.dict [(.text "id", .field 0)]),
    .implement (.definition (.type 0)) (.definition (.interface 0)), .optional (.field 0)]

def sharedId : String × Numbered Field := ("id", ⟨0, 0, 0, none, []⟩)

def sharedNode : Numbered Interface := ⟨0, "Node", [sharedId], by decide⟩

def sharing : ObjectType := ⟨"User", [sharedId], [sharedNode], none, by decide⟩

theorem conforms_shared : (({} : Store).run shared).PrintedAs sharing sharedId := by
  have ⟨_, _, hi, _⟩ := conforms_run shared 0 sharing rfl rfl
  exact (hi sharedNode List.mem_cons_self).right sharedId List.mem_cons_self

end Store

end GraphSchema
