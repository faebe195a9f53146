import GraphSchema.Proofs.Field.Chain
import GraphSchema.Proofs.Step.Rule

namespace GraphSchema

open Store

namespace Store

theorem lt_of_ruleIds_ne_nil {σ : Store} {s : RuleSetId} (h : σ.ruleIds s ≠ []) :
    s < σ.ruleSets.size :=
  Nat.lt_of_not_le fun hs => h (by simp [ruleIds, Array.getElem?_eq_none hs])

end Store

-- No rule is ever taken out of a set.
theorem RuleStep.ruleIds_ne_nil {σ σ' : Store} {call : Call} (h : RuleStep σ call σ')
    {s : RuleSetId} (hs : σ.ruleIds s ≠ []) : σ'.ruleIds s ≠ [] := by
  have hlt := lt_of_ruleIds_ne_nil hs
  cases h
  case still e | rule e | narrow e => simpa only [ruleIds, e] using hs
  case ruleSet e => simpa [ruleIds, e, Array.getElem?_push, Nat.ne_of_lt hlt] using hs
  case extend e =>
    simp only [ruleIds, e, Array.getD_eq_getD_getElem?, Array.getElem?_modify]
    split
    case isTrue => simp [hlt]
    case isFalse => simpa [ruleIds] using hs

-- A field is built around a scalar that was there, or is a new scalar.
theorem FieldStep.Origin.leaf_cases {σ σ' : Store} {call : Call} {n : FieldId} {f : Field}
    (h : Origin σ call σ' n f) :
    (∃ (m : FieldId) (g : Field), σ.fields[m]? = some g ∧ g.shape = f.shape ∧ g.leaf = f.leaf) ∨
      f.shape = σ.shapes.size ∧ f.leaf = σ.fields.size := by
  cases h
  case old hf => exact .inl ⟨n, f, hf, rfl, rfl⟩
  case leaf => exact .inr ⟨rfl, rfl⟩
  case wrap inner _ _ hw _ _ _ =>
    have ⟨hi, _⟩ := checkWrap_eq_ok.mp hw
    exact .inl ⟨inner.id, inner.val, field?_eq_some hi, rfl, rfl⟩

namespace Store

structure Rooted (σ : Store) : Prop where
  -- A scalar is what it is built around itself.
  bare : ∀ (n : FieldId) (f : Field), σ.fields[n]? = some f → f.directives = [] → f.leaf = n
  leaf_eq : ∀ (m n : FieldId) (f g : Field), σ.fields[m]? = some f → σ.fields[n]? = some g →
    f.shape = g.shape → f.leaf = g.leaf
  held : ∀ (n : FieldId) (f : Field), σ.fields[n]? = some f →
    ∀ s, .auth s ∈ f.directives → σ.ruleIds s ≠ []

variable {σ σ' : Store} {call : Call}

namespace Rooted

theorem bare_preserved (h : σ.Rooted) (s : FieldStep σ call σ') {n : FieldId} {f : Field}
    (hf : σ'.fields[n]? = some f) (hd : f.directives = []) : f.leaf = n := by
  cases s.origin hf
  case old hf => exact h.bare n f hf hd
  case leaf hn _ => exact hn.symm
  case wrap => exact nomatch hd

theorem leaf_eq_preserved (h : σ.Rooted) (hσ : σ.Formed) (s : FieldStep σ call σ')
    {m n : FieldId} {f g : Field} (hf : σ'.fields[m]? = some f) (hg : σ'.fields[n]? = some g)
    (hs : f.shape = g.shape) : f.leaf = g.leaf := by
  -- The shape of a new scalar is no shape of a field that was there.
  have new {k : FieldId} {e : Field} (he : σ.fields[k]? = some e) : e.shape ≠ σ.shapes.size :=
    Nat.ne_of_lt (hσ k e he).shape_lt
  rcases (s.origin hf).leaf_cases with ⟨i, a, ha, hsa, hla⟩ | ⟨hsf, hlf⟩
  case inl =>
    rcases (s.origin hg).leaf_cases with ⟨j, b, hb, hsb, hlb⟩ | ⟨hsg, hlg⟩
    case inl =>
      rw [← hla, ← hlb]
      exact h.leaf_eq i j a b ha hb (by rw [hsa, hsb, hs])
    case inr => exact absurd (by rw [hsa, hs, hsg]) (new ha)
  case inr =>
    rcases (s.origin hg).leaf_cases with ⟨j, b, hb, hsb, hlb⟩ | ⟨hsg, hlg⟩
    case inl => exact absurd (by rw [hsb, ← hs, hsf]) (new hb)
    case inr => rw [hlf, hlg]

theorem held_preserved (h : σ.Rooted) (s : FieldStep σ call σ') (r : RuleStep σ call σ')
    {n : FieldId} {f : Field} (hf : σ'.fields[n]? = some f) {a : RuleSetId}
    (ha : .auth a ∈ f.directives) : σ'.ruleIds a ≠ [] := by
  cases s.origin hf
  case old hf => exact r.ruleIds_ne_nil (h.held n f hf a ha)
  case leaf => cases ha
  case wrap inner _ d hw _ hh _ =>
    cases List.mem_cons.mp ha
    case inl e => exact hh a e.symm
    case inr ha =>
      have ⟨hi, _⟩ := checkWrap_eq_ok.mp hw
      exact r.ruleIds_ne_nil (h.held _ inner.val (field?_eq_some hi) a ha)

theorem preserved (h : σ.Rooted) (hσ : σ.Formed) (s : FieldStep σ call σ')
    (r : RuleStep σ call σ') : σ'.Rooted where
  bare _ _ := h.bare_preserved s
  leaf_eq _ _ _ _ := h.leaf_eq_preserved hσ s
  held _ _ hf _ := h.held_preserved s r hf

end Rooted

theorem rooted_run (cs : List Call) : (({} : Store).run cs).Rooted := by
  refine (run_induction (P := fun σ => σ.Formed ∧ σ.Rooted) cs ⟨?_, ?_⟩ ?_).right
  · exact formed_run []
  · exact ⟨fun _ _ h => absurd h (by simp), fun _ _ _ _ h => absurd h (by simp),
      fun _ _ h => absurd h (by simp)⟩
  · intro σ c p ⟨hf, hr⟩ hp
    have s := step_of_plan hp
    exact ⟨hf.preserved s.fieldStep, hr.preserved hf s.fieldStep s.ruleStep⟩

-- The scalar that a field is built around is there, and it has the same shape.
def Anchored (σ : Store) : Prop :=
  ∀ (n : FieldId) (f : Field), σ.fields[n]? = some f →
    ∃ g, σ.fields[f.leaf]? = some g ∧ g.shape = f.shape

theorem Anchored.preserved (h : σ.Anchored) (s : FieldStep σ call σ') : σ'.Anchored := by
  intro n f hf
  have kept {m : FieldId} {i : ShapeId} (hm : ∃ g, σ.fields[m]? = some g ∧ g.shape = i) :
      ∃ g, σ'.fields[m]? = some g ∧ g.shape = i :=
    have ⟨g, hg, e⟩ := hm
    ⟨g, s.getElem?_fields hg, e⟩
  cases s.origin hf
  case old hf => exact kept (h n f hf)
  case leaf hn _ => exact ⟨_, hn ▸ hf, rfl⟩
  case wrap inner _ _ hw _ _ _ =>
    have hi := field?_eq_some (checkWrap_eq_ok.mp hw).left
    have scalar := kept (h inner.id inner.val hi)
    exact scalar

theorem anchored_run (cs : List Call) : (({} : Store).run cs).Anchored := by
  apply run_induction cs
  case start => exact fun _ _ h => absurd h (by simp)
  case step => exact fun _ _ _ h hp => h.preserved (step_of_plan hp).fieldStep

end Store

end GraphSchema
