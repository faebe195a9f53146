import GraphSchema.Proofs.Step.Registry

namespace GraphSchema

namespace Store

variable {σ σ' : Store} {c : Call} {cs : List Call} {q r : RegistryId} {n : String} {d : Definition}

theorem prefix_of_modify {g : Registry → Registry} (h : σ'.registries = σ.registries.modify q g)
    (hg : q = r → ∀ a, a <+: g a) : σ.registry r <+: σ'.registry r := by
  simp only [registry, h, Array.getD_eq_getD_getElem?, Array.getElem?_modify]
  split
  case isFalse => exact List.prefix_rfl
  case isTrue hq =>
    cases σ.registries[r]?
    case none => exact List.prefix_rfl
    case some a => exact hg hq a

-- The call does not empty the registry, be it through a builder.
def Sparing (σ : Store) (r : RegistryId) (c : Call) : Prop :=
  ∀ v, c = .clear v → σ.registryOf? v ≠ some r

theorem prefix_step (s : RegistryStep σ c σ') (h : σ.Sparing r c) :
    σ.registry r <+: σ'.registry r := by
  cases s
  case still e _ => simp [registry, e]
  case new e _ => simp [registry_of_push e]
  case register e => exact prefix_of_modify e fun _ _ => List.prefix_append ..
  case clear ha hq e => exact prefix_of_modify e fun eq => absurd (eq ▸ hq) (h _ ha)

theorem prefix_perform (h : σ.Sparing r c) : σ.registry r <+: (σ.perform c).2.registry r := by
  cases hp : σ.plan c
  case error e => exact perform_of_refusal hp ▸ List.prefix_rfl
  case ok p =>
    rw [perform_of_plan hp]
    exact prefix_step (step_of_plan hp).registryStep h

-- So does no call of a run.
def Uncleared (r : RegistryId) (σ : Store) : List Call → Prop
  | [] => True
  | c :: cs => σ.Sparing r c ∧ Uncleared r (σ.perform c).2 cs

theorem prefix_run (h : Uncleared r σ cs) : σ.registry r <+: (σ.run cs).registry r := by
  induction cs generalizing σ
  case nil => exact List.prefix_rfl
  case cons c cs hi => exact (prefix_perform h.left).trans (hi h.right)

theorem get?_of_prefix {a b : Registry} (h : a <+: b) (hd : a.get? n = some d) :
    b.get? n = some d := by
  have ⟨t, e⟩ := h
  have ⟨p, hp, ep⟩ := Option.map_eq_some_iff.mp hd
  rw [Registry.get?, ← e, List.find?_append, hp]
  exact congrArg some ep

theorem get?_run (h : Uncleared r σ cs) (hd : (σ.registry r).get? n = some d) :
    ((σ.run cs).registry r).get? n = some d :=
  get?_of_prefix (prefix_run h) hd

end Store

end GraphSchema
