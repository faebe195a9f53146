import GraphSchema.Proofs.Definition.Conformance
import GraphSchema.Proofs.Printing.Block
import GraphSchema.Proofs.Printing.Field

namespace GraphSchema

open Outcome

namespace Store

variable {σ σ' : Store} {call : Call} {cs : List Change} {d : Definition} {s t : String}

-- The block of a definition.

def fieldTexts (σ : Store) (fs : FieldList) : Except Error (List (String × String)) :=
  fs.mapM fun (n, f) => return (n, ← σ.fieldText f.val)

def blockOf (σ : Store) : Definition → Except Error Block
  | .interface i => do
    let i := σ.interfaces.getD i default
    return .interface i.name (← σ.fieldTexts (merge [i.fields]))
  | .type t => do
    let t := σ.types.getD t default
    let fields ← σ.fieldTexts (merge t.sources)
    return .type t.name t.interfaceNames (t.cache.map (·.val.text)) fields
  | .enum e => do
    let e := σ.enums.getD e default
    return .enum e.name e.values

-- What is looked at before anything of a definition is written.
def checkOf (σ : Store) : Definition → Except Error Unit
  | .type t => σ.checkFields (σ.types.getD t default)
  | _ => .ok ()

theorem fieldLines_eq (fs : FieldList) :
    σ.fieldLines (.ofText s) fs = (σ.fieldTexts fs).map (List.map (Block.fieldLine s)) := by
  rw [fieldTexts, ← mapM_map, fieldLines]
  congr 1
  funext ⟨n, f⟩
  simp only
  cases σ.fieldText f.val <;> rfl

theorem typeHead_eq (t : ObjectType) (fs : List (String × String)) :
    typeHead t = (Block.type t.name t.interfaceNames (t.cache.map (·.val.text)) fs).head := by
  obtain ⟨name, fields, is, cache⟩ := t
  cases is <;> cases cache <;> rfl

theorem printDefinition_eq (d : Definition) :
    σ.printDefinition (.ofText s) d = σ.checkOf d >>= fun _ => (σ.blockOf d).map (·.text s) := by
  cases d
  case interface i =>
    simp only [printDefinition, printInterface, printFieldsAs, fieldLines_eq, blockOf]
    cases σ.fieldTexts (merge [(σ.interfaces.getD i default).fields]) <;> rfl
  case type i =>
    simp only [printDefinition, printType, fieldLines_eq, blockOf, checkOf]
    cases σ.checkFields (σ.types.getD i default)
    case error => rfl
    case ok =>
      cases σ.fieldTexts (merge (σ.types.getD i default).sources)
      case error => rfl
      case ok fs => exact congrArg (fun head => Except.ok (block head _)) (typeHead_eq _ fs)
  case enum e =>
    simp only [printDefinition, printEnum, printValuesAs, valueLines_texts]
    rfl

theorem exists_block_of_print (h : σ.printDefinition (.ofText s) d = .ok t) :
    ∃ b, σ.blockOf d = .ok b ∧ t = b.text s := by
  rw [printDefinition_eq] at h
  have ⟨_, _, h⟩ := bind_eq_ok.mp h
  have ⟨b, hb, e⟩ := map_eq_ok.mp h
  exact ⟨b, hb, e.symm⟩

-- Enums never have no values.

def Valued (σ : Store) : Prop :=
  ∀ (n : EnumId) (e : EnumType), σ.enums[n]? = some e → e.values ≠ []

theorem Valued.preserved (h : σ.Valued) (s : Step σ call cs) : (σ.applyAll cs).Valued := by
  intro n e he
  rcases s.enums_cases with hs | ⟨_, _, _, hc, hs⟩
  case inl => exact h n e (hs ▸ he)
  case inr =>
    cases Table.of_getElem?_push (hs ▸ he)
    case inl he => exact h n e he
    case inr e => exact e ▸ (checkEnum_eq_ok hc).right

-- What keeps blocks from being mistaken for others.
structure Presentable (σ : Store) : Prop where
  granted : σ.AllRules AuthRule.Granted
  keyed : σ.AllKeyed
  linked : σ.Linked
  valued : σ.Valued

def FieldsInWords (σ : Store) (fs : FieldList) : Prop :=
  ∀ p ∈ fs, IsWord p.1 ∧ σ.FieldInWords p.2.val

def InWords (σ : Store) : Definition → Prop
  | .interface i =>
    let i := σ.interfaces.getD i default
    IsWord i.name ∧ σ.FieldsInWords (merge [i.fields])
  | .type t =>
    let t := σ.types.getD t default
    IsWord t.name ∧ (∀ i ∈ t.interfaceNames, IsWord i) ∧ σ.FieldsInWords (merge t.sources)
  | .enum e =>
    let e := σ.enums.getD e default
    IsWord e.name ∧ ∀ v ∈ e.values, IsWord v

instance (σ : Store) (fs : FieldList) : Decidable (σ.FieldsInWords fs) :=
  inferInstanceAs <| Decidable (∀ p ∈ fs, _ ∧ _)

instance (σ : Store) : (d : Definition) → Decidable (σ.InWords d)
  | .interface _ | .type _ | .enum _ => inferInstanceAs <| Decidable (_ ∧ _)

theorem HasFields.merge {sources : List FieldList} (h : σ.HasFields sources.flatten) :
    σ.HasFields (merge sources) := fun p hp => h p (mem_of_mem_merge hp)

namespace Presentable

theorem fieldTexts (h : σ.Presentable) {fs : FieldList} (hf : σ.HasFields fs)
    (hw : σ.FieldsInWords fs) (hn : fs ≠ []) {ts : List (String × String)}
    (ht : σ.fieldTexts fs = .ok ts) : ts ≠ [] ∧ ∀ f ∈ ts, Block.IsField f := by
  constructor
  case left =>
    have ⟨p, fs, e⟩ := List.exists_cons_of_ne_nil hn
    have ⟨_, _, _, _, e⟩ := mapM_cons_eq_ok.mp (e ▸ ht)
    simp [e]
  case right =>
    intro f hm
    have ⟨p, hp, hf'⟩ := mem_of_mapM_eq_ok ht hm
    have ⟨t, ht, hf'⟩ := bind_eq_ok.mp hf'
    cases pure_eq_ok.mp hf'
    have ⟨hn, hw⟩ := hw p hp
    exact ⟨hn, continued_fieldText h.granted hw (h.keyed p.2.id p.2.val (hf p hp)) ht⟩

end Presentable

-- Printing.

theorem spaces_int {n : Int} {v : Value} (h : Indent.spaces (.int n) = .ok v) :
    ∃ s, v = .text s ∧ ∀ c ∈ s.toList, c = ' ' := by
  simp only [Indent.spaces] at h
  split at h
  · exact nomatch h
  · split at h
    · exact nomatch h
    · cases h
      refine ⟨_, rfl, fun c hc => ?_⟩
      rw [String.toList_ofList] at hc
      exact List.eq_of_mem_replicate hc

theorem perform_print {indent : Value} (hs : Indent.spaces indent = .ok (.text s))
    (what : Printout) (v : Value) :
    (σ.perform (.print what indent v)).1 = (σ.printout what (.ofText s) v).map .text := by
  rw [answer_eq, plan, print, hs]
  change (σ.printout what (.ofText s) v >>= fun t => pure (Plan.say (.text t))).map _ = _
  cases σ.printout what (.ofText s) v <;> rfl

theorem printAll_definitions (i : Indent) (ds : List Definition) :
    σ.printAll i (.list (ds.map .definition)) = σ.printDefinitions i ds := by
  have h : (ds.map Value.definition).mapM (σ.printOne i) = ds.mapM (σ.printDefinition i) := by
    rw [List.mapM_map]
    rfl
  rw [printDefinitions, ← h]
  rfl

def PrintsBlock (σ : Store) (s : String) (d : Definition) (t : String) : Prop :=
  σ.printDefinition (.ofText s) d = .ok t ∧ ∃ b, σ.blockOf d = .ok b ∧ b.Formed ∧ t = b.text s

theorem PrintsBlock.solid (h : σ.PrintsBlock s d t) (hs : ∀ c ∈ s.toList, c = ' ') :
    Solid t.toList := by
  have ⟨_, b, _, hf, e⟩ := h
  exact e ▸ Block.solid_text hs hf

end Store

end GraphSchema
