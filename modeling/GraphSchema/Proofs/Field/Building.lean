import GraphSchema.Proofs.Value.Plain
import GraphSchema.Proofs.Step.Field

namespace GraphSchema

inductive FieldCall
  | leaf (base nullable : Value)
  | optional (field : Value)
  | list (field : Value)
  | wrap (field : Value) (w : Wrapping)

namespace FieldCall

def call : FieldCall → Call
  | leaf b n => .leaf b n
  | optional v => .optional v
  | list v => .list v
  | wrap v w => w.call v

-- What each of the calls does to the tables of shapes and fields if it succeeds.
inductive Does (σ σ' : Store) : FieldCall → Prop
  | leaf {b n : Value} {base : Base} (read : Base.ofValue? b = some base)
      (shapes : σ'.shapes = σ.shapes.push (.single base n))
      (fields : σ'.fields = σ.fields.push ⟨σ.shapes.size, σ.fields.size, none, []⟩) :
      Does σ σ' (leaf b n)
  | optional {v : Value} {f : Numbered Field} (given : σ.field? v = some f)
      (shapes : σ'.shapes = σ.shapes.modify f.val.shape Outline.orNull)
      (fields : σ'.fields = σ.fields) : Does σ σ' (optional v)
  | list {v : Value} {f : Numbered Field} (given : σ.field? v = some f)
      (bare : f.val.directives = []) (single : (σ.shape f.val.shape).isList = false)
      (shapes : σ'.shapes = σ.shapes.modify f.val.shape Outline.listOf)
      (fields : σ'.fields = σ.fields) : Does σ σ' (list v)
  | wrap {v : Value} {w : Wrapping} {f : Numbered Field} {before : List Change} {d : Directive}
      (fits : σ.checkWrap d.kind v = .ok f) (checked : σ.Checked (σ.shape f.val.shape) before d)
      (held : ∀ r, d = .auth r → σ'.ruleIds r ≠ [])
      (shapes : σ'.shapes = σ.shapes) (fields : σ'.fields = σ.fields.push (.wrap f d)) :
      Does σ σ' (wrap v w)

theorem Does.fieldStep {σ σ' : Store} {c : FieldCall} : Does σ σ' c → FieldStep σ c.call σ'
  | leaf hr hs hf => .leaf (.given rfl hr) _ hs hf
  | optional hg hs hf => .optional rfl hg hs hf
  | list hg hb hl hs hf => .list rfl hg hb hl hs hf
  | wrap hw hc hr hs hf => .wrap hw hc hr hs hf

end FieldCall

namespace Store

-- Rules and rule sets are only added, and types and registries stay as they are.
structure Keeps (σ σ' : Store) : Prop where
  rules : ∀ (r : RuleId) (a : AuthRule), σ.rules[r]? = some a → σ'.rules[r]? = some a
  ruleSets : ∀ (s : RuleSetId) (rs : List RuleId), σ.ruleSets[s]? = some rs →
    σ'.ruleSets[s]? = some rs
  types : σ'.types = σ.types
  registries : σ'.registries = σ.registries

namespace Keeps

variable {σ σ' σ'' : Store}

theorem of_eq (rules : σ'.rules = σ.rules) (ruleSets : σ'.ruleSets = σ.ruleSets)
    (types : σ'.types = σ.types) (registries : σ'.registries = σ.registries) : Keeps σ σ' :=
  ⟨fun _ _ h => rules ▸ h, fun _ _ h => ruleSets ▸ h, types, registries⟩

theorem trans (h : Keeps σ σ') (h' : Keeps σ' σ'') : Keeps σ σ'' where
  rules r a ha := h'.rules r a (h.rules r a ha)
  ruleSets s rs hs := h'.ruleSets s rs (h.ruleSets s rs hs)
  types := h'.types.trans h.types
  registries := h'.registries.trans h.registries

theorem addRules (rs : List AuthRule) : Keeps σ (σ.applyAll (σ.addRules rs)) := by
  rw [applyAll_addRules]
  exact ⟨fun _ _ h => Table.getElem?_append h, fun _ _ h => Table.getElem?_push h, rfl, rfl⟩

theorem checked {s : Shape} {before : List Change} {d : Directive} :
    σ.Checked s before d → Keeps σ (σ.applyAll before)
  | .script _ => addRules _
  | .length .. | .unique _ | .default _ | .search | .ruleSet .. | .cache _ =>
    .of_eq rfl rfl rfl rfl

end Keeps

-- The object that a value refers to was made, as far as that makes a difference to the size of it.
def Has (σ : Store) : Ref → Prop
  | .ruleSet s | .rules s => s < σ.ruleSets.size
  | .operations r => r < σ.rules.size
  | _ => True

def Knows (σ : Store) (v : Value) : Prop := ∀ r, v = .object r → σ.Has r

structure KnowsFlags (σ : Store) (o : Outline) : Prop where
  nullable : σ.Knows o.nullable
  isList : σ.Knows o.isList
  itemNullable : σ.Knows o.itemNullable

namespace KnowsFlags

variable {σ : Store} {o : Outline}

theorem single {b : Base} {n : Value} (h : σ.Knows n) : σ.KnowsFlags (.single b n) :=
  ⟨h, nofun, nofun⟩

theorem orNull (h : σ.KnowsFlags o) : σ.KnowsFlags o.orNull := ⟨nofun, h.isList, h.itemNullable⟩

theorem listOf (h : σ.KnowsFlags o) : σ.KnowsFlags o.listOf := ⟨nofun, nofun, h.nullable⟩

end KnowsFlags

namespace Keeps

variable {σ σ' : Store} {r : Ref} {v : Value} {o : Outline}

theorem getElem?_eq {α : Type} {as bs : Array α} {n : Nat}
    (h : ∀ (n : Nat) (a : α), as[n]? = some a → bs[n]? = some a) (hn : n < as.size) :
    bs[n]? = as[n]? := by
  rw [Array.getElem?_eq_getElem hn]
  exact h n _ (Array.getElem?_eq_getElem hn)

theorem size_le {α : Type} {as bs : Array α}
    (h : ∀ (n : Nat) (a : α), as[n]? = some a → bs[n]? = some a) : as.size ≤ bs.size := by
  refine Nat.le_of_not_lt fun hl => ?_
  have := h _ _ (Array.getElem?_eq_getElem hl)
  simp at this

theorem has (h : Keeps σ σ') (hr : σ.Has r) : σ'.Has r := by
  cases r
  case ruleSet | rules => exact Nat.lt_of_lt_of_le hr (size_le h.ruleSets)
  case operations => exact Nat.lt_of_lt_of_le hr (size_le h.rules)
  all_goals trivial

theorem knowsFlags (h : Keeps σ σ') (ho : σ.KnowsFlags o) : σ'.KnowsFlags o :=
  ⟨fun r e => h.has (ho.nullable r e), fun r e => h.has (ho.isList r e),
    fun r e => h.has (ho.itemNullable r e)⟩

theorem ownList? (h : Keeps σ σ') {xs : List Value} (hr : σ.ownList? r = some xs) :
    σ'.ownList? r = some xs := by
  cases r
  case operations r =>
    have ⟨a, ha, e⟩ := Option.map_eq_some_iff.mp hr
    exact Option.map_eq_some_iff.mpr ⟨a, h.rules r a ha, e⟩
  case rules s =>
    have ⟨rs, hs, e⟩ := Option.map_eq_some_iff.mp hr
    exact Option.map_eq_some_iff.mpr ⟨rs, h.ruleSets s rs hs, e⟩
  case interfaces t =>
    simp only [Store.ownList?, h.types]
    exact hr
  all_goals exact nomatch hr

theorem refItems?_eq (h : Keeps σ σ') (hr : σ.Has r) : σ'.refItems? r = σ.refItems? r := by
  cases r
  case ruleSet s | rules s =>
    simp only [refItems?, ruleIds, Store.ownList?, Array.getD_eq_getD_getElem?,
      getElem?_eq h.ruleSets hr]
  case operations => simp only [refItems?, Store.ownList?, getElem?_eq h.rules hr]
  case registry => simp only [refItems?, definitions, registry, h.registries]
  case interfaces => simp only [refItems?, Store.ownList?, h.types]
  all_goals rfl

theorem isTrue_eq (h : Keeps σ σ') (hv : σ.Knows v) : σ'.isTrue v = σ.isTrue v := by
  cases v
  case object r => simp only [isTrue, Value.isTrue, h.refItems?_eq (hv r rfl)]
  all_goals rfl

theorem shape_eq (h : Keeps σ σ') (ho : σ.KnowsFlags o) :
    o.shape σ'.isTrue = o.shape σ.isTrue := by
  simp only [Outline.shape, h.isTrue_eq ho.nullable, h.isTrue_eq ho.isList,
    h.isTrue_eq ho.itemNullable]

-- A default that was accepted holds what it held then.
theorem settle_eq (h : Keeps σ σ') (hv : (σ.settle v).isPlain) : σ'.settle v = σ.settle v :=
  Value.settle_mono (fun _ _ => h.ownList?) v hv

end Keeps

end Store

open Store

namespace FieldCall

variable {σ : Store} {c : FieldCall} {p : Plan}

theorem does_of_plan (h : σ.plan c.call = .ok p) :
    Does σ (σ.applyAll p.changes) c ∧ Keeps σ (σ.applyAll p.changes) := by
  cases c
  case leaf =>
    have ⟨base, hb, e⟩ := newLeaf_eq_ok h
    exact e ▸ ⟨.leaf hb rfl rfl, .of_eq rfl rfl rfl rfl⟩
  case optional =>
    have ⟨f, hf, e⟩ := optional_eq_ok.mp h
    exact e ▸ ⟨.optional hf rfl rfl, .of_eq rfl rfl rfl rfl⟩
  case list =>
    have ⟨f, hf, hb, hl, e⟩ := list_eq_ok.mp h
    exact e ▸ ⟨.list hf hb hl rfl rfl, .of_eq rfl rfl rfl rfl⟩
  case wrap v w =>
    have ⟨f, before, d, hf, hk, hc, e⟩ := w.plan_eq_ok h
    subst e
    rw [wrapPlan, applyAll_append]
    exact ⟨.wrap (hk ▸ hf) hc (fun _ e => (e ▸ hc).ruleIds_ne_nil) hc.shapes_eq
        (congrArg (·.push (Field.wrap f d)) hc.fields_eq),
      (Keeps.checked hc).trans (.of_eq rfl rfl rfl rfl)⟩

end FieldCall

end GraphSchema
