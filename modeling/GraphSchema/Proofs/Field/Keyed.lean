import GraphSchema.Proofs.Value.Keyed
import GraphSchema.Proofs.Step.Field

namespace GraphSchema.Store

def AllKeyed (σ : Store) : Prop :=
  ∀ (n : FieldId) (f : Field), σ.fields[n]? = some f → ∀ v, .default v ∈ f.directives → v.isKeyed

variable {σ σ' : Store} {call : Call}

theorem AllKeyed.preserved (h : σ.AllKeyed) (s : FieldStep σ call σ') : σ'.AllKeyed := by
  intro n f hf v hv
  cases s.origin hf
  case old hf => exact h n f hf v hv
  case leaf => cases hv
  case wrap hw hc _ _ =>
    rcases List.mem_cons.mp hv with rfl | hv
    case inl =>
      cases hc
      case default ha => exact isKeyed_settle v ▸ Shape.isKeyed_of_accepts ha
    case inr =>
      have ⟨hi, _⟩ := checkWrap_eq_ok.mp hw
      exact h _ _ (field?_eq_some hi) v hv

theorem allKeyed_run (cs : List Call) : (({} : Store).run cs).AllKeyed := by
  apply run_induction cs
  case start => exact fun n f hf => absurd hf (by simp)
  case step => exact fun σ c p h hp => h.preserved (step_of_plan hp).fieldStep

end GraphSchema.Store
