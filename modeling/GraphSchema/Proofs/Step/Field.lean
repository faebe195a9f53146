import GraphSchema.Proofs.Table
import GraphSchema.Proofs.Step.Basic

namespace GraphSchema

namespace Store.Checked

variable {σ : Store} {s : Shape} {before : List Change} {d : Directive} {r : RuleSetId}

theorem shapes_eq (h : σ.Checked s before d) : (σ.applyAll before).shapes = σ.shapes := by
  have ⟨_, _, _, e⟩ := h.applyAll_eq
  rw [e]

theorem fields_eq (h : σ.Checked s before d) : (σ.applyAll before).fields = σ.fields := by
  have ⟨_, _, _, e⟩ := h.applyAll_eq
  rw [e]

-- The rule set of a directive is there already, or is made right before it, and it has a rule.
theorem ruleIds_ne_nil (h : σ.Checked s before (.auth r)) : (σ.applyAll before).ruleIds r ≠ [] := by
  cases h
  case ruleSet hr => exact hr
  case script hr =>
    have ⟨_, _, _, hne⟩ := checkScript_eq_ok.mp hr
    simpa [applyAll_addRules, ruleIds] using hne

end Store.Checked

-- How the tables of shapes and fields of one store come from those of the store before the call.
inductive FieldStep (σ : Store) (call : Call) (σ' : Store) : Prop
  | still (shapes : σ'.shapes = σ.shapes) (fields : σ'.fields = σ.fields)
  | shape (o : Outline) (shapes : σ'.shapes = σ.shapes.push o) (fields : σ'.fields = σ.fields)
  | leaf {b : Base} (offered : σ.Offers call b) (nullable : Value)
      (shapes : σ'.shapes = σ.shapes.push (.single b nullable))
      (fields : σ'.fields = σ.fields.push ⟨σ.shapes.size, σ.fields.size, none, []⟩)
  | optional {v : Value} {f : Numbered Field} (asked : call = .optional v)
      (given : σ.field? v = some f)
      (shapes : σ'.shapes = σ.shapes.modify f.val.shape Outline.orNull)
      (fields : σ'.fields = σ.fields)
  | list {v : Value} {f : Numbered Field} (asked : call = .list v) (given : σ.field? v = some f)
      (bare : f.val.directives = []) (single : (σ.shape f.val.shape).isList = false)
      (shapes : σ'.shapes = σ.shapes.modify f.val.shape Outline.listOf)
      (fields : σ'.fields = σ.fields)
  | wrap {v : Value} {f : Numbered Field} {before : List Change} {d : Directive}
      (fits : σ.checkWrap d.kind v = .ok f)
      (checked : σ.Checked (σ.shape f.val.shape) before d)
      (held : ∀ r, d = .auth r → σ'.ruleIds r ≠ [])
      (shapes : σ'.shapes = σ.shapes) (fields : σ'.fields = σ.fields.push (.wrap f d))

theorem Step.fieldStep {σ : Store} {call : Call} {cs : List Change} (s : Step σ call cs) :
    FieldStep σ call (σ.applyAll cs) := by
  cases s
  case shape o => exact .shape o rfl rfl
  case leaf ho n => exact .leaf ho n rfl rfl
  case optional ha h => exact .optional ha h rfl rfl
  case list ha h hb hs => exact .list ha h hb hs rfl rfl
  case wrap f before d _ _ hf hc =>
    rw [Store.applyAll_append]
    exact .wrap hf hc (fun _ e => (e ▸ hc).ruleIds_ne_nil) hc.shapes_eq
      (congrArg (·.push (.wrap f d)) hc.fields_eq)
  case script => exact Store.applyAll_addRules _ ▸ .still rfl rfl
  case coerce h =>
    have ⟨_, e⟩ := Store.applyAll_coerceInvalidation h
    exact e ▸ .still rfl rfl
  case typeCache h | cacheType h =>
    have ⟨_, e⟩ := Store.applyAll_checkTypeCache h
    rw [Store.applyAll_append, e]
    exact .still rfl rfl
  all_goals exact .still rfl rfl

namespace Store

variable {σ σ' : Store} {s t : ShapeId}

theorem outline_of_push {o : Outline} (h : σ'.shapes = σ.shapes.push o) (hs : s < σ.shapes.size) :
    σ'.outline s = σ.outline s := by
  have hn : s ≠ σ.shapes.size := Nat.ne_of_lt hs
  simp [outline, h, Array.getElem?_push, hn]

theorem outline_of_push_size {o : Outline} (h : σ'.shapes = σ.shapes.push o) :
    σ'.outline σ.shapes.size = o := by
  simp [outline, h]

-- The shape and the node of a field that is made.

theorem outline_leafPlan (σ : Store) (b : Base) (nullable : Value) :
    (σ.applyAll (σ.leafPlan b nullable).changes).outline σ.shapes.size = .single b nullable :=
  outline_of_push_size rfl

theorem getElem?_leafPlan (σ : Store) (b : Base) (nullable : Value) :
    (σ.applyAll (σ.leafPlan b nullable).changes).fields[σ.fields.size]? =
      some ⟨σ.shapes.size, σ.fields.size, none, []⟩ :=
  Array.getElem?_push_size

theorem outline_of_modify {g : Outline → Outline} (h : σ'.shapes = σ.shapes.modify t g)
    (hs : s < σ.shapes.size) :
    σ'.outline s = if t = s then g (σ.outline s) else σ.outline s := by
  simp only [outline, h, Array.getD_eq_getD_getElem?, Array.getElem?_modify]
  split <;> simp [hs]

end Store

namespace FieldStep

variable {σ σ' : Store} {call : Call} {n : FieldId} {s : ShapeId} {f : Field}

-- Shapes are never taken away, and they stay shapes of the same named type.

theorem size_le (h : FieldStep σ call σ') : σ.shapes.size ≤ σ'.shapes.size := by
  cases h
  case still e _ | wrap e _ => exact Nat.le_of_eq (congrArg Array.size e).symm
  case shape e _ | leaf e _ =>
    rw [e, Array.size_push]
    exact Nat.le_succ _
  case optional e _ | list e _ => simp [e]

theorem base_outline (h : FieldStep σ call σ') (hs : s < σ.shapes.size) :
    (σ'.outline s).base = (σ.outline s).base := by
  cases h
  case still e _ | wrap e _ => simp only [Store.outline, e]
  case shape e _ | leaf e _ => rw [Store.outline_of_push e hs]
  case optional e _ | list e _ =>
    rw [Store.outline_of_modify e hs]
    split <;> rfl

-- Fields never change.
theorem getElem?_fields (h : FieldStep σ call σ') (hf : σ.fields[n]? = some f) :
    σ'.fields[n]? = some f := by
  cases h
  case still e | shape e | optional e | list e => rw [e, hf]
  case leaf e | wrap e => exact e ▸ Table.getElem?_push hf

-- A field that was not there before is a scalar with a shape of its own, or a directive around a
-- field that was there.
inductive Origin (σ : Store) (call : Call) (σ' : Store) (n : FieldId) : Field → Prop
  | old {f : Field} (there : σ.fields[n]? = some f) : Origin σ call σ' n f
  | leaf {b : Base} (offered : σ.Offers call b) (nullable : Value) (last : n = σ.fields.size)
      (shapes : σ'.shapes = σ.shapes.push (.single b nullable)) :
      Origin σ call σ' n ⟨σ.shapes.size, σ.fields.size, none, []⟩
  | wrap {v : Value} {f : Numbered Field} {before : List Change} {d : Directive}
      (fits : σ.checkWrap d.kind v = .ok f)
      (checked : σ.Checked (σ.shape f.val.shape) before d)
      (held : ∀ r, d = .auth r → σ'.ruleIds r ≠ []) (shapes : σ'.shapes = σ.shapes) :
      Origin σ call σ' n (.wrap f d)

theorem origin (h : FieldStep σ call σ') (hf : σ'.fields[n]? = some f) : Origin σ call σ' n f := by
  cases h
  case still e | shape e | optional e | list e => exact .old (e ▸ hf)
  case leaf ho nullable hs e =>
    rcases Table.getElem?_push_cases (e ▸ hf) with hf | ⟨hn, rfl⟩
    · exact .old hf
    · exact .leaf ho nullable hn hs
  case wrap hw hc hr hs e =>
    rcases Table.of_getElem?_push (e ▸ hf) with hf | rfl
    · exact .old hf
    · exact .wrap hw hc hr hs

end FieldStep

end GraphSchema
