import GraphSchema.Call.Basic
import GraphSchema.Proofs.Outcome

namespace GraphSchema.Store

open Outcome

variable {σ : Store} {v : Value} {p : Plan} {f : Numbered Field} {k : NodeKind}

theorem lacks_ne_ok {α : Type} {property : String} {a : α} : σ.lacks v property ≠ .ok a := by
  unfold lacks
  split <;> simp

theorem field?_eq_some (h : σ.field? v = some f) : σ.fields[f.id]? = some f.val :=
  (field?_eq_some_iff.mp h).right

theorem ruleSet?_eq_some {s : RuleSetId} (h : σ.ruleSet? v = some s) :
    v = .ruleSet s ∧ s < σ.ruleSets.size := by
  unfold ruleSet? at h
  split at h
  · split at h
    · next hs => exact Option.some.inj h ▸ ⟨rfl, hs⟩
    · exact nomatch h
  · exact nomatch h

-- The core.

theorem newShape_eq_ok {b n l i : Value} (h : σ.newShape b n l i = .ok p) :
    ∃ base, p.changes = [.addShape ⟨base, n, l, i⟩] := by
  unfold newShape at h
  split at h
  · exact absurd h Value.refuse_ne_ok
  · next base _ => exact ⟨base, (pure_eq_ok.mp h) ▸ rfl⟩

theorem newLeaf_eq_ok {b n : Value} (h : σ.newLeaf b n = .ok p) :
    ∃ base, Base.ofValue? b = some base ∧ p = σ.leafPlan base n := by
  unfold newLeaf at h
  split at h
  · exact absurd h Value.refuse_ne_ok
  · next base hb => exact ⟨base, hb, (pure_eq_ok.mp h).symm⟩

theorem optional_eq_ok :
    σ.optional v = .ok p ↔ ∃ f, σ.field? v = some f ∧ p = ⟨[.makeNullable f.val.shape], v⟩ := by
  unfold optional
  split
  case h_1 h => simp [h, lacks_ne_ok]
  case h_2 f h => simp [h, @eq_comm _ p]

theorem list_eq_ok :
    σ.list v = .ok p ↔ ∃ f, σ.field? v = some f ∧ f.val.directives = [] ∧
      (σ.shape f.val.shape).isList = false ∧ p = ⟨[.makeList f.val.shape], v⟩ := by
  unfold list
  split
  case h_1 h => simp [h, lacks_ne_ok]
  case h_2 f h =>
    by_cases hd : f.val.directives = []
    case neg => simp [h, hd]
    case pos => cases hl : (σ.shape f.val.shape).isList <;> simp [h, hd, hl, @eq_comm _ p]

-- Directives.

theorem checkWrap_eq_ok :
    σ.checkWrap k v = .ok f ↔
      σ.field? v = some f ∧ f.val.wrapFault? (σ.shape f.val.shape) k = none := by
  unfold checkWrap
  split
  case h_1 h => simp [h]
  case h_2 g h =>
    rw [h, Option.some.injEq]
    split
    case h_1 m hm =>
      simp only [Misuse.refusal_ne_ok, false_iff, not_and]
      rintro rfl
      simp [hm]
    case h_2 hm =>
      simp only [Except.ok.injEq]
      exact ⟨fun e => ⟨e, e ▸ hm⟩, And.left⟩

theorem length_eq_ok {min max : Value} (h : σ.length v min max = .ok p) :
    ∃ f low high, σ.checkWrap .length v = .ok f ∧ (σ.shape f.val.shape).isString ∧
      (σ.shape f.val.shape).isList = false ∧ σ.checkBounds min max = .ok (low, high) ∧
      p = σ.wrapPlan f [] (.length low high) := by
  have ⟨f, hf, h⟩ := bind_eq_ok.mp h
  by_cases hs : (σ.shape f.val.shape).isString ∧ (σ.shape f.val.shape).isList = false
  case neg =>
    have hs : (! (σ.shape f.val.shape).isString || (σ.shape f.val.shape).isList) = true := by
      cases h₁ : (σ.shape f.val.shape).isString <;> simp_all
    rw [if_pos hs] at h
    exact absurd h Misuse.refusal_ne_ok
  case pos =>
    rw [if_neg (by simp [hs])] at h
    have ⟨⟨low, high⟩, hb, h⟩ := bind_eq_ok.mp h
    exact ⟨f, low, high, hf, hs.left, hs.right, hb, (pure_eq_ok.mp h).symm⟩

theorem unique_eq_ok {scope : Value} (h : σ.unique v scope = .ok p) :
    ∃ f names, σ.checkWrap .unique v = .ok f ∧ σ.checkScope scope = .ok names ∧
      p = σ.wrapPlan f [] (.unique names) := by
  have ⟨f, hf, h⟩ := bind_eq_ok.mp h
  have ⟨names, hn, h⟩ := bind_eq_ok.mp h
  exact ⟨f, names, hf, hn, (pure_eq_ok.mp h).symm⟩

theorem withDefault_eq_ok {value : Value} (h : σ.withDefault v value = .ok p) :
    ∃ f, σ.checkWrap .default v = .ok f ∧ (σ.shape f.val.shape).accepts (σ.settle value) ∧
      p = σ.wrapPlan f [] (.default value) := by
  have ⟨f, hf, h⟩ := bind_eq_ok.mp h
  have ⟨_, hc, h⟩ := bind_eq_ok.mp h
  exact ⟨f, hf, Shape.checkDefault_eq_ok_iff.mp hc, (pure_eq_ok.mp h).symm⟩

theorem search_eq_ok (h : σ.search v = .ok p) :
    ∃ f, σ.checkWrap .search v = .ok f ∧ p = σ.wrapPlan f [] .search := by
  have ⟨f, hf, h⟩ := bind_eq_ok.mp h
  exact ⟨f, hf, (pure_eq_ok.mp h).symm⟩

theorem auth_eq_ok {rules : Value} (h : σ.auth v rules = .ok p) :
    ∃ f, σ.checkWrap .auth v = .ok f ∧
      ((∃ s, σ.ruleSet? rules = some s ∧ σ.ruleIds s ≠ [] ∧ p = σ.wrapPlan f [] (.auth s)) ∨
        ∃ rs, σ.checkScript rules = .ok rs ∧
          p = σ.wrapPlan f (σ.addRules rs) (.auth σ.ruleSets.size)) := by
  have ⟨f, hf, h⟩ := bind_eq_ok.mp h
  refine ⟨f, hf, ?_⟩
  split at h
  case h_1 s hs =>
    by_cases he : σ.ruleIds s = []
    case pos => simp [he] at h
    case neg =>
      rw [if_neg (by simpa using he)] at h
      exact .inl ⟨s, hs, he, (pure_eq_ok.mp h).symm⟩
  case h_2 =>
    have ⟨rs, hr, h⟩ := bind_eq_ok.mp h
    exact .inr ⟨rs, hr, (pure_eq_ok.mp h).symm⟩

theorem cache_eq_ok {maxAge stale : Value} (h : σ.cache v maxAge stale = .ok p) :
    ∃ f c, σ.checkWrap .cache v = .ok f ∧ σ.checkFieldCache maxAge stale = .ok c ∧
      p = σ.wrapPlan f [.addFieldCache c] (.cache ⟨σ.fieldCaches.size, c⟩) := by
  have ⟨f, hf, h⟩ := bind_eq_ok.mp h
  have ⟨c, hc, h⟩ := bind_eq_ok.mp h
  exact ⟨f, c, hf, hc, (pure_eq_ok.mp h).symm⟩

-- Reading.

theorem plan_render {n : FieldId} {f : Field} (hf : σ.fields[n]? = some f) :
    σ.plan (.render (.field n)) = σ.fieldText f >>= fun t => pure (.say (.text t)) := by
  have hg : σ.field? (.field n) = some ⟨n, f⟩ := field?_eq_some_iff.mpr ⟨rfl, hf⟩
  simp only [plan, render, hg]

end GraphSchema.Store
