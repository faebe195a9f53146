import GraphSchema.Proofs.Field.Grammar
import GraphSchema.Proofs.Step.Field

namespace GraphSchema

namespace Field

variable {s : Shape} {k : NodeKind} {f : Field}

theorem getLast?_reverse_kinds (f : Field) : f.kinds.reverse.getLast? = some f.kind := by
  rw [List.getLast?_reverse, head?_kinds]

theorem wrapFault?_eq_none_iff :
    f.wrapFault? s k = none ↔
      f.kind ∈ k.wraps ∧ k ∉ f.kinds.reverse ∧ (k.leafOnly → s.isObject = false) := by
  unfold wrapFault?
  by_cases hw : f.kind ∈ k.wraps <;> by_cases hk : k ∈ f.kinds <;> simp [hw, hk]

-- Looking at the outermost node and for a repetition is as good as looking at the whole chain.
theorem wrapFault?_eq_none_iff_grammatical (h : Grammatical s.isObject f.kinds.reverse) :
    f.wrapFault? s k = none ↔ Grammatical s.isObject (f.kinds.reverse ++ [k]) := by
  rw [wrapFault?_eq_none_iff]
  have hl := f.getLast?_reverse_kinds
  constructor
  · intro ⟨hw, hn, hr⟩
    exact h.append (fun _ => h.mayPrecede_of_last hl hw hn) hr
  · exact fun h => h.fits_of_append hl

end Field

namespace Store

-- What holds of a field of a store from when it is made.
structure Holds (σ : Store) (f : Field) : Prop where
  shape_lt : f.shape < σ.shapes.size
  grammatical : Grammatical (σ.shape f.shape).isObject f.kinds.reverse

def Formed (σ : Store) : Prop := ∀ (n : FieldId) (f : Field), σ.fields[n]? = some f → σ.Holds f

variable {σ σ' : Store} {call : Call} {f : Field}

theorem Holds.preserved (h : σ.Holds f) (s : FieldStep σ call σ') : σ'.Holds f where
  shape_lt := Nat.lt_of_lt_of_le h.shape_lt s.size_le
  grammatical := by
    have e : (σ'.shape f.shape).isObject = (σ.shape f.shape).isObject :=
      congrArg Base.isObject (s.base_outline h.shape_lt)
    exact e ▸ h.grammatical

theorem Holds.wrap {inner : Numbered Field} {d : Directive} (h : σ.Holds inner.val)
    (hd : inner.val.wrapFault? (σ.shape inner.val.shape) d.kind = none) :
    σ.Holds (.wrap inner d) where
  shape_lt := h.shape_lt
  grammatical := by
    rw [Field.kinds_wrap, List.reverse_cons]
    exact (Field.wrapFault?_eq_none_iff_grammatical h.grammatical).mp hd

theorem Formed.preserved (h : σ.Formed) (s : FieldStep σ call σ') : σ'.Formed := by
  intro n f hf
  cases s.origin hf
  case old hf => exact (h n f hf).preserved s
  case leaf hs => exact ⟨by simp [hs], .scalar _⟩
  case wrap hw _ _ _ =>
    have ⟨hi, hd⟩ := checkWrap_eq_ok.mp hw
    exact ((h _ _ (field?_eq_some hi)).wrap hd).preserved s

theorem formed_run (cs : List Call) : (({} : Store).run cs).Formed := by
  apply run_induction cs
  case start => exact fun n f hf => absurd hf (by simp)
  case step => exact fun σ c p h hp => h.preserved (step_of_plan hp).fieldStep

end Store

end GraphSchema
