import GraphSchema.Proofs.Definition.Conflict
import GraphSchema.Proofs.Field.Admitted
import GraphSchema.Proofs.Printing.Schema
import GraphSchema.Proofs.Step.Registry

namespace GraphSchema

open Outcome

namespace Store

variable {σ σ' : Store} {c : Call} {d : Definition} {f : Field} {s : String} {p : Plan}

-- Where the fields of a definition come from.
def sourcesOf (σ : Store) : Definition → List FieldList
  | .interface i => [(σ.interfaces.getD i default).fields]
  | .type t => (σ.types.getD t default).sources
  | .enum _ => []

-- The definition has been made, and no other object is part of the shapes of its fields.
def Grounded (σ : Store) (d : Definition) : Prop :=
  (σ.name? d).isSome ∧ ∀ p ∈ (σ.sourcesOf d).flatten, σ.Steady p.2.val

instance (σ : Store) (d : Definition) : Decidable (σ.Grounded d) :=
  inferInstanceAs <| Decidable (_ ∧ ∀ p ∈ _, _)

-- What a definition says before any of its fields.
def framed (σ : Store) : Definition → List (String × String) → Block
  | .interface i, fs => .interface (σ.interfaces.getD i default).name fs
  | .type t, fs =>
    let t := σ.types.getD t default
    .type t.name t.interfaceNames (t.cache.map (·.val.text)) fs
  | .enum e, _ =>
    let e := σ.enums.getD e default
    .enum e.name e.values

theorem blockOf_eq (σ : Store) (d : Definition) :
    σ.blockOf d = (σ.fieldTexts (merge (σ.sourcesOf d))).map (σ.framed d) := by
  cases d
  case interface i =>
    simp only [blockOf, sourcesOf]
    cases σ.fieldTexts (merge [(σ.interfaces.getD i default).fields]) <;> rfl
  case type t =>
    simp only [blockOf, sourcesOf]
    cases σ.fieldTexts (merge (σ.types.getD t default).sources) <;> rfl
  case enum e => rfl

-- Definitions are made and registered, and nothing else is.
structure Files (σ σ' : Store) : Prop where
  shapes : σ'.shapes = σ.shapes
  rules : σ'.rules = σ.rules
  ruleSets : σ'.ruleSets = σ.ruleSets
  interfaces : Table.Within σ.interfaces σ'.interfaces
  types : Table.Within σ.types σ'.types
  enums : Table.Within σ.enums σ'.enums

open Table in
theorem files_of_plan (hc : c.registers) (h : σ.plan c = .ok p) :
    σ.Files (σ.applyAll p.changes) := by
  cases c
  case register =>
    have ⟨_, _, _, _, _, _, e⟩ := register_eq_ok h
    exact e ▸ ⟨rfl, rfl, rfl, within_refl _, within_refl _, within_refl _⟩
  case clear =>
    have ⟨_, _, e⟩ := clear_eq_ok h
    exact e ▸ ⟨rfl, rfl, rfl, within_refl _, within_refl _, within_refl _⟩
  case buildInterface =>
    have ⟨_, _, _, _, _, e⟩ := buildInterface_eq_ok h
    exact e ▸ ⟨rfl, rfl, rfl, within_push, within_refl _, within_refl _⟩
  case buildType =>
    have ⟨_, _, _, _, _, e⟩ := buildType_eq_ok h
    exact e ▸ ⟨rfl, rfl, rfl, within_refl _, within_push, within_refl _⟩
  case buildEnum =>
    have ⟨_, _, _, _, _, e⟩ := buildEnum_eq_ok h
    exact e ▸ ⟨rfl, rfl, rfl, within_refl _, within_refl _, within_push⟩
  all_goals exact nomatch hc

-- A table that goes on after what is looked up.
theorem getD_of_within {α : Type} {as bs : Array α} {n : Nat} {a : α} (h : Table.Within as bs)
    (hn : as[n]?.isSome) : bs.getD n a = as.getD n a := by
  have ⟨b, hb⟩ := Option.isSome_iff_exists.mp hn
  rw [Array.getD_eq_getD_getElem?, Array.getD_eq_getD_getElem?, h n b hb, hb]

namespace Files

theorem ownList?_eq (h : σ.Files σ') {r : Ref} (hr : (σ.ownList? r).isSome) :
    σ'.ownList? r = σ.ownList? r := by
  cases r
  case operations | rules => simp only [ownList?, h.rules, h.ruleSets]
  case interfaces t =>
    rw [ownList?, Option.isSome_map] at hr
    obtain ⟨t, ht⟩ := Option.isSome_iff_exists.mp hr
    rw [ownList?, ownList?, h.types _ t ht, ht]
  all_goals simp [ownList?] at hr

theorem outline_eq (h : σ.Files σ') (s : ShapeId) : σ'.outline s = σ.outline s := by
  simp only [outline, h.shapes]

theorem rulesOf_eq (h : σ.Files σ') (s : RuleSetId) : σ'.rulesOf s = σ.rulesOf s := by
  simp only [rulesOf, ruleIds, h.ruleSets, List.map_inj_left, rule, h.rules, implies_true]

theorem shape_eq (h : σ.Files σ') (hs : σ.Steady f) : σ'.shape f.shape = σ.shape f.shape :=
  shape_eq_of_flags (fun _ hr => nomatch hs _ hr) (h.outline_eq f.shape)

-- Definitions.

theorem getD_interfaces {i : InterfaceId} (h : σ.Files σ') (hd : (σ.name? (.interface i)).isSome) :
    σ'.interfaces.getD i default = σ.interfaces.getD i default :=
  getD_of_within h.interfaces (by simpa only [name?, Option.isSome_map] using hd)

theorem getD_types {t : TypeId} (h : σ.Files σ') (hd : (σ.name? (.type t)).isSome) :
    σ'.types.getD t default = σ.types.getD t default :=
  getD_of_within h.types (by simpa only [name?, Option.isSome_map] using hd)

theorem getD_enums {e : EnumId} (h : σ.Files σ') (hd : (σ.name? (.enum e)).isSome) :
    σ'.enums.getD e default = σ.enums.getD e default :=
  getD_of_within h.enums (by simpa only [name?, Option.isSome_map] using hd)

theorem sourcesOf_eq (h : σ.Files σ') (hd : (σ.name? d).isSome) :
    σ'.sourcesOf d = σ.sourcesOf d := by
  cases d
  case interface => simp only [sourcesOf, h.getD_interfaces hd]
  case type => simp only [sourcesOf, h.getD_types hd]
  case enum => rfl

theorem framed_eq (h : σ.Files σ') (hd : (σ.name? d).isSome) : σ'.framed d = σ.framed d := by
  funext fs
  cases d
  case interface => simp only [framed, h.getD_interfaces hd]
  case type => simp only [framed, h.getD_types hd]
  case enum => simp only [framed, h.getD_enums hd]

theorem checkOf_eq (h : σ.Files σ') (hd : σ.Grounded d) : σ'.checkOf d = σ.checkOf d := by
  cases d
  case type t =>
    have e := declarations_congr (t := σ.types.getD t default) fun p hp =>
      congrArg Shape.text (h.shape_eq (hd.right p hp))
    simp only [checkOf, h.getD_types hd.left, checkFields, checkConflicts, e]
  all_goals rfl

theorem printDefinition_eq (h : σ.Files σ') (hd : σ.Grounded d)
    (hf : ∀ p ∈ (σ.sourcesOf d).flatten, σ'.fieldText p.2.val = σ.fieldText p.2.val) :
    σ'.printDefinition (.ofText s) d = σ.printDefinition (.ofText s) d := by
  have texts : σ'.fieldTexts (merge (σ.sourcesOf d)) = σ.fieldTexts (merge (σ.sourcesOf d)) :=
    mapM_congr fun p hp => by simp only [hf p (mem_of_mem_merge hp)]
  rw [Store.printDefinition_eq, Store.printDefinition_eq, blockOf_eq, blockOf_eq, h.checkOf_eq hd,
    h.sourcesOf_eq hd.left, h.framed_eq hd.left, texts]

theorem toOption_printDefinition_eq (h : σ.Files σ') (hd : σ.Grounded d)
    (hf : ∀ p ∈ (σ.sourcesOf d).flatten,
      (σ'.fieldText p.2.val).toOption = (σ.fieldText p.2.val).toOption) :
    (σ'.printDefinition (.ofText s) d).toOption = (σ.printDefinition (.ofText s) d).toOption := by
  have texts : (σ'.fieldTexts (merge (σ.sourcesOf d))).toOption =
      (σ.fieldTexts (merge (σ.sourcesOf d))).toOption :=
    toOption_mapM_congr _ fun p hp => by
      simp only [toOption_bind, hf p (mem_of_mem_merge hp)]
  rw [Store.printDefinition_eq, Store.printDefinition_eq, blockOf_eq, blockOf_eq, h.checkOf_eq hd,
    h.sourcesOf_eq hd.left, h.framed_eq hd.left]
  simp only [toOption_bind, toOption_map, texts]

theorem toOption_fieldText_eq (h : σ.Files σ') (hw : σ.AllWorded) (hw' : σ'.AllWorded)
    (hk : σ.AllKeyed) (ha : σ.AllAdmitted) {n : FieldId} (hf : σ.fields[n]? = some f)
    (hs : σ.Steady f) : (σ'.fieldText f).toOption = (σ.fieldText f).toOption := by
  refine Store.toOption_fieldText_eq (h.shape_eq hs) fun d hd bare => ?_
  refine toOption_directiveText_eq hw hw' ?_ (fun a _ => h.rulesOf_eq a) bare
  rintro v rfl
  exact ⟨hk n f hf v hd, (ha n f hf v hd).settle_eq fun _ => h.ownList?_eq⟩

end Files

-- Registering what is there already, or emptying a registry, does not even make a definition.

def refiled (σ : Store) (rs : Array Registry) (log : List Record) : Store :=
  { σ with registries := rs, log := log }

theorem exists_refiled (hc : (∃ v k w, c = .register v k w) ∨ ∃ v, c = .clear v) :
    ∃ rs log, (σ.perform c).2 = σ.refiled rs log := by
  cases hp : σ.plan c
  case error e => exact ⟨σ.registries, σ.log, by rw [perform_of_refusal hp]; rfl⟩
  case ok p =>
    rw [perform_of_plan hp]
    rcases hc with ⟨v, k, w, rfl⟩ | ⟨v, rfl⟩
    case inl =>
      have ⟨_, _, _, _, _, _, e⟩ := register_eq_ok hp
      exact e ▸ ⟨_, _, rfl⟩
    case inr =>
      have ⟨_, _, e⟩ := clear_eq_ok hp
      exact e ▸ ⟨_, _, rfl⟩

variable (rs : Array Registry) (log : List Record)

open Table in
theorem files_refiled (σ : Store) : σ.Files (σ.refiled rs log) :=
  ⟨rfl, rfl, rfl, within_refl _, within_refl _, within_refl _⟩

theorem directiveText_refiled (bare : Bool) (d : Directive) :
    (σ.refiled rs log).directiveText bare d = σ.directiveText bare d := by
  cases d <;> rfl

theorem fieldText_refiled (hs : σ.Steady f) : (σ.refiled rs log).fieldText f = σ.fieldText f := by
  have h := (files_refiled rs log σ).shape_eq hs
  simp only [fieldText, h, funext (directiveText_refiled rs log _)]

theorem printDefinition_refiled (hd : σ.Grounded d) :
    (σ.refiled rs log).printDefinition (.ofText s) d = σ.printDefinition (.ofText s) d :=
  (files_refiled rs log σ).printDefinition_eq hd fun p hp =>
    fieldText_refiled rs log (hd.right p hp)

-- The fields of a definition that was made have been made before.
theorem Linked.hasFields_sourcesOf (h : σ.Linked) (hd : (σ.name? d).isSome) :
    σ.HasFields (σ.sourcesOf d).flatten := by
  cases d
  case interface i =>
    rw [name?, Option.isSome_map] at hd
    obtain ⟨i, hi⟩ := Option.isSome_iff_exists.mp hd
    simpa [sourcesOf, hi] using (h.interfaces _ i hi).right
  case type t =>
    rw [name?, Option.isSome_map] at hd
    obtain ⟨t, ht⟩ := Option.isSome_iff_exists.mp hd
    simpa [sourcesOf, ht] using h.hasFields_sources ht
  case enum => exact List.forall_mem_nil _

-- However definitions are registered, with or without making them, or discarded.
theorem toOption_printDefinition_registers (cs : List Call) (hc : c.registers)
    (hd : (({} : Store).run cs).Grounded d) :
    ((({} : Store).run (cs ++ [c])).printDefinition (.ofText s) d).toOption =
      ((({} : Store).run cs).printDefinition (.ofText s) d).toOption := by
  rw [run_concat]
  cases hp : (({} : Store).run cs).plan c
  case error e => rw [perform_of_refusal hp]
  case ok p =>
    have worded := allWorded_run (cs ++ [c])
    rw [run_concat, perform_of_plan hp] at worded
    rw [perform_of_plan hp]
    have h := files_of_plan hc hp
    refine h.toOption_printDefinition_eq hd fun p hp => ?_
    exact h.toOption_fieldText_eq (allWorded_run cs) worded (allKeyed_run cs) (allAdmitted_run cs)
      ((linked_run cs).hasFields_sourcesOf hd.left p hp) (hd.right p hp)

end Store

end GraphSchema
