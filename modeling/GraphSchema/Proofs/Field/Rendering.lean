import Mathlib.Data.List.Nodup
import GraphSchema.Proofs.Auth.Worded
import GraphSchema.Proofs.Field.Chain
import GraphSchema.Proofs.Field.Listing
import GraphSchema.Proofs.Value.Literal

namespace GraphSchema

open Outcome

namespace Field

variable {f : Field}

-- No directive occurs twice in a chain.
theorem eq_of_kind_eq {r : Bool} (h : Grammatical r f.kinds.reverse) {d e : Directive}
    (hd : d ∈ f.directives) (he : e ∈ f.directives) (hk : d.kind = e.kind) : d = e := by
  have hn : f.kinds.Nodup := List.nodup_reverse.mp (h.pairwise.imp And.left)
  exact List.inj_on_of_nodup_map (List.nodup_append.mp hn).left hd he hk

end Field

namespace Store

variable {σ : Store} {f : Field} {v : Value}

theorem succeeds_directiveText_iff (h : σ.AllWorded) {bare : Bool} {d : Directive} :
    Succeeds (σ.directiveText bare d) ↔
      ∀ v, d = .default v → Succeeds ((σ.settle v).literal σ.names bare) := by
  cases d
  case default v =>
    simp only [Directive.default.injEq, forall_eq']
    exact succeeds_bind_pure
  case auth s =>
    exact iff_of_true (succeeds_bind_pure.mpr (h.succeeds_rulesText s)) fun _ e => by cases e
  all_goals exact iff_of_true succeeds_pure fun _ e => by cases e

theorem succeeds_fieldText_iff (h : σ.AllWorded) :
    Succeeds (σ.fieldText f) ↔ ∀ v, .default v ∈ f.directives →
      Succeeds ((σ.settle v).literal σ.names (σ.shape f.shape).isEnum) := by
  have he : Succeeds (σ.fieldText f) ↔
      Succeeds (f.directives.reverse.mapM (σ.directiveText (σ.shape f.shape).isEnum)) :=
    succeeds_bind_pure
  rw [he, succeeds_mapM]
  simp only [List.mem_reverse, succeeds_directiveText_iff h]
  exact ⟨fun h v hv => h _ hv v rfl, fun h d hd v e => h v (e ▸ hd)⟩

theorem succeeds_render_iff {n : FieldId} (hf : σ.fields[n]? = some f) :
    Succeeds (σ.plan (.render (.field n))) ↔ Succeeds (σ.fieldText f) := by
  rw [plan_render hf]
  exact succeeds_bind_pure

theorem lacksLiteral_settle (own : Ref → Option (List Value)) :
    (v.settle own).lacksLiteral = v.lacksLiteral := by
  cases v
  case object r => cases hr : own r <;> simp [Value.settle, hr, Value.lacksLiteral]
  all_goals rfl

-- As long as a default holds what it held when it was accepted, the fields that it is in can be
-- written out exactly if it has a literal at all.
theorem succeeds_fieldText_iff_of_accepts {s : Shape} (hw : σ.AllWorded)
    (hg : Grammatical (σ.shape f.shape).isObject f.kinds.reverse) (hv : .default v ∈ f.directives)
    (ha : s.accepts (σ.settle v)) : Succeeds (σ.fieldText f) ↔ v.lacksLiteral = false := by
  rw [succeeds_fieldText_iff hw, ← lacksLiteral_settle σ.ownList?]
  have hl : Succeeds ((σ.settle v).literal σ.names (σ.shape f.shape).isEnum) ↔ _ :=
    Shape.succeeds_literal_iff_of_accepts ha
  refine ⟨fun h => hl.mp (h v hv), fun h w hw => ?_⟩
  cases Field.eq_of_kind_eq hg hw hv rfl
  exact hl.mpr h

theorem fields_run (cs : List Call) {n : FieldId} (hf : σ.fields[n]? = some f) :
    (σ.run cs).fields[n]? = some f :=
  run_induction (P := fun σ => σ.fields[n]? = some f) cs hf fun _ _ _ h hp =>
    (step_of_plan hp).fieldStep.getElem?_fields h

-- What an accepted default leaves behind: a field that holds it, and has a shape that accepts it.
theorem default_of_perform {field : Value} {n : FieldId} {σ' : Store}
    (h : σ.perform (.default field v) = (.ok (.field n), σ')) :
    ∃ f, σ'.fields[n]? = some f ∧ .default v ∈ f.directives ∧
      (σ'.shape f.shape).accepts (σ'.settle v) := by
  cases hp : σ.plan (.default field v)
  case error e => simp [perform, hp] at h
  case ok p =>
    obtain ⟨f, _, ha, e⟩ := withDefault_eq_ok hp
    rw [perform_of_plan hp, e] at h
    cases h
    exact ⟨.wrap f (.default v), Array.getElem?_push_size, List.mem_cons_self, ha⟩

-- The check and the printer agree on all values but those that count as lists without being one: on
-- a value alone, and on any field that has an accepted default in its chain. Of such values there
-- are progressions and growable bytes here; other kinds would have to be added to both.
theorem succeeds_literal_iff_of_checked (v : Value) :
    (∀ (σ : Store) (s : ShapeId), Succeeds (σ.plan (.checkDefault (.object (.shape s)) v)) →
      (Succeeds (σ.plan (.literal v (.bool (σ.shape s).isEnum))) ↔ v.lacksLiteral = false)) ∧
    ∀ (cs : List Call) (field : Value) (n : FieldId) (σ : Store),
      (({} : Store).run cs).perform (.default field v) = (.ok (.field n), σ) →
        ∀ ds : List Call, (σ.run ds).settle v = σ.settle v →
          (∃ f, (σ.run ds).fields[n]? = some f ∧ .default v ∈ f.directives) ∧
          ∀ (m : FieldId) (f : Field), (σ.run ds).fields[m]? = some f → .default v ∈ f.directives →
            (Succeeds ((σ.run ds).plan (.render (.field m))) ↔ v.lacksLiteral = false) := by
  constructor
  case left =>
    intro σ s h
    rw [← lacksLiteral_settle σ.ownList?]
    have hp : Succeeds (σ.plan (.literal v (.bool (σ.shape s).isEnum))) ↔
        Succeeds ((σ.settle v).literal σ.reading (σ.shape s).isEnum) :=
      succeeds_bind_pure
    exact hp.trans (Shape.succeeds_literal_iff_of_accepts (suits_default_iff.mp h))
  case right =>
    intro cs field n σ h ds hs
    have hr : ({} : Store).run (cs ++ .default field v :: ds) = σ.run ds := by
      rw [run_append, run_cons, h]
    have ⟨g, hg, hv, ha⟩ := default_of_perform h
    refine ⟨⟨g, fields_run ds hg, hv⟩, fun m f hf hm => ?_⟩
    rw [succeeds_render_iff hf]
    refine succeeds_fieldText_iff_of_accepts (hr ▸ allWorded_run _) ?_ hm (hs ▸ ha)
    exact (hr ▸ formed_run _ : (σ.run ds).Formed) m f hf |>.grammatical

def listOfInts : List Call := [.leaf (.scalar .int) (.bool false), .list (.field 0)]

theorem succeeds_literal_listOfInts :
    let σ := ({} : Store).run listOfInts
    Succeeds (σ.plan (.literal (.list [.int 1]) (.bool false))) ∧
      Succeeds ((σ.run [.default (.field 0) (.list [.int 1]), .search (.field 1)]).plan
        (.render (.field 2))) := by
  have ⟨hl, hr⟩ := succeeds_literal_iff_of_checked (.list [.int 1])
  constructor
  · exact (hl (({} : Store).run listOfInts) 0 (suits_default_iff.mpr (by decide))).mpr rfl
  · exact ((hr listOfInts (.field 0) 1 _ rfl [.search (.field 1)] rfl).right 2 _ rfl
      (List.mem_cons_of_mem _ List.mem_cons_self)).mpr rfl

theorem not_succeeds_literal_of_checked :
    ¬ ∀ (σ : Store) (s : ShapeId) (v : Value),
      Succeeds (σ.plan (.checkDefault (.object (.shape s)) v)) →
        Succeeds (σ.plan (.literal v (.bool (σ.shape s).isEnum))) := by
  intro h
  have ⟨_, h⟩ := h (({} : Store).run listOfInts) 0 (.progression ⟨0, 3, 1⟩)
    (suits_default_iff.mpr (by decide))
  exact nomatch h

end Store

end GraphSchema
