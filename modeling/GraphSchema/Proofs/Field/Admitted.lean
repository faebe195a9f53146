import GraphSchema.Proofs.Field.Building
import GraphSchema.Proofs.Field.Chain
import GraphSchema.Proofs.Step.Definition
import GraphSchema.Proofs.Step.Rule

namespace GraphSchema

-- Objects are never taken away, and so are none of the lists that belong to them.

theorem RuleStep.size_le {σ σ' : Store} {call : Call} (s : RuleStep σ call σ') :
    σ.rules.size ≤ σ'.rules.size ∧ σ.ruleSets.size ≤ σ'.ruleSets.size := by
  cases s
  case still er es | rule er es | ruleSet er es | extend er es | narrow er es => simp [er, es]

theorem DefinitionStep.types_size_le {σ σ' : Store} {call : Call} (s : DefinitionStep σ call σ') :
    σ.types.size ≤ σ'.types.size := by
  cases s
  case still e | interface e | type e | implement e | cache e => simp [e]

namespace Store

variable {σ σ' : Store} {call : Call} {cs : List Change} {v : Value} {b : Base}

theorem isSome_ownList?_of_le (rules : σ.rules.size ≤ σ'.rules.size)
    (ruleSets : σ.ruleSets.size ≤ σ'.ruleSets.size) (types : σ.types.size ≤ σ'.types.size) {r : Ref}
    (h : (σ.ownList? r).isSome) : (σ'.ownList? r).isSome := by
  cases r
  case operations | rules | interfaces =>
    simp only [ownList?, Option.isSome_map, isSome_getElem?] at h ⊢
    omega
  all_goals simp [ownList?] at h

theorem isSome_ownList?_step (s : Step σ call cs) {r : Ref} (h : (σ.ownList? r).isSome) :
    ((σ.applyAll cs).ownList? r).isSome :=
  isSome_ownList?_of_le s.ruleStep.size_le.left s.ruleStep.size_le.right
    s.definitionStep.types_size_le h

-- At some time, for some field of the type, with the lists that were there by then.
def Admits (σ : Store) (b : Base) (v : Value) : Prop :=
  ∃ (τ : Store) (s : Shape), s.base = b ∧ s.accepts (τ.settle v) ∧
    ∀ r, (τ.ownList? r).isSome → (σ.ownList? r).isSome

theorem Admits.of_accepts {s : Shape} (h : s.accepts (σ.settle v)) : σ.Admits s.base v :=
  ⟨σ, s, rfl, h, fun _ => id⟩

theorem Admits.mono (h : σ.Admits b v)
    (hr : ∀ r, (σ.ownList? r).isSome → (σ'.ownList? r).isSome) : σ'.Admits b v :=
  have ⟨τ, s, hb, ha, hk⟩ := h
  ⟨τ, s, hb, ha, fun r h => hr r (hk r h)⟩

-- Lists that have not changed since then read as they did.
theorem Admits.settle_eq (h : σ.Admits b v)
    (hr : ∀ r, (σ.ownList? r).isSome → σ'.ownList? r = σ.ownList? r) :
    σ'.settle v = σ.settle v :=
  have ⟨_, _, _, ha, hk⟩ := h
  Value.settle_congr (fun r h => hr r (hk r h)) v (Shape.isPlain_of_accepts ha)

def AllAdmitted (σ : Store) : Prop :=
  ∀ (n : FieldId) (f : Field), σ.fields[n]? = some f →
    ∀ v, .default v ∈ f.directives → σ.Admits (σ.outline f.shape).base v

theorem AllAdmitted.preserved (h : σ.AllAdmitted) (hσ : σ.Formed) (s : Step σ call cs) :
    (σ.applyAll cs).AllAdmitted := by
  intro n f hf v hv
  have old {m : FieldId} {g : Field} (hg : σ.fields[m]? = some g) (hv : .default v ∈ g.directives) :
      (σ.applyAll cs).Admits ((σ.applyAll cs).outline g.shape).base v := by
    rw [s.fieldStep.base_outline (hσ m g hg).shape_lt]
    exact (h m g hg v hv).mono fun _ => isSome_ownList?_step s
  cases s.fieldStep.origin hf
  case old hf => exact old hf hv
  case leaf => cases hv
  case wrap g before d hw hc _ hs =>
    have hg := field?_eq_some (checkWrap_eq_ok.mp hw).left
    cases List.mem_cons.mp hv
    case inl e =>
      subst e
      cases hc
      case default ha =>
        rw [outline, hs]
        exact (Admits.of_accepts ha).mono fun _ => isSome_ownList?_step s
    case inr hv =>
      have admits := old hg hv
      exact admits

theorem allAdmitted_run (cs : List Call) : (({} : Store).run cs).AllAdmitted := by
  refine (run_induction (P := fun σ => σ.Formed ∧ σ.AllAdmitted) cs ⟨formed_run [], ?_⟩ ?_).right
  · exact fun n f hf => absurd hf (by simp)
  · intro σ c p ⟨hf, ha⟩ hp
    have s := step_of_plan hp
    exact ⟨hf.preserved s.fieldStep, ha.preserved hf s⟩

end Store

end GraphSchema
