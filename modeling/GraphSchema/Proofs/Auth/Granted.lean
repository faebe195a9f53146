import GraphSchema.Proofs.Step.Rule
import GraphSchema.Proofs.Step.Field

namespace GraphSchema

namespace AuthRule

inductive Granted : AuthRule → Prop
  | audience (a : Audience) (os : List Operation) : Granted ⟨.text a.name, none, os⟩
  | groups (ts : List String) (os : List Operation) :
    Granted ⟨.text "groups", some (ts.map .text), os⟩

variable {r : AuthRule}

theorem Granted.narrow (h : r.Granted) (o : Operation) : (r.narrow o).Granted := by
  unfold AuthRule.narrow
  split
  case isTrue => exact h
  case isFalse => cases h <;> constructor

theorem exists_texts {vs : List Value} (h : ∀ v ∈ vs, Store.isGroupName v) :
    ∃ ts : List String, vs = ts.map .text := by
  induction vs
  case nil => exact ⟨[], rfl⟩
  case cons v vs hi =>
    have ⟨ts, e⟩ := hi fun w hw => h w (List.mem_cons_of_mem v hw)
    have hv := h v List.mem_cons_self
    cases v
    case text t => exact ⟨t :: ts, congrArg (_ :: ·) e⟩
    all_goals exact nomatch hv

theorem Made.granted {σ : Store} (h : Made σ r) : r.Granted := by
  induction h
  case of a => exact .audience a []
  case groups v r h =>
    have ⟨names, _, hn, e⟩ := Store.groupRule_eq_ok h
    -- What is left of an iterator is nothing.
    have ⟨ts, ht⟩ : ∃ ts : List String, v.rest names = ts.map .text := by
      cases v
      case stream => exact ⟨[], rfl⟩
      all_goals exact exists_texts hn
    rw [e, AuthRule.ofGroups, ht]
    exact .groups ts []
  case narrow o hi => exact hi.narrow o

end AuthRule

namespace Store

open AuthRule (Made Granted)

-- Every rule of a set is there, and is of some kind.
def AllRules (P : AuthRule → Prop) (σ : Store) : Prop :=
  ∀ (s : RuleSetId) (rs : List RuleId), σ.ruleSets[s]? = some rs → ∀ r ∈ rs,
    ∃ a, σ.rules[r]? = some a ∧ P a

variable {P Q : AuthRule → Prop} {σ σ' : Store} {call : Call}

theorem AllRules.preserved (made : ∀ σ a, Made σ a → P a) (narrow : ∀ a o, P a → P (a.narrow o))
    (h : σ.AllRules P) (hs : RuleStep σ call σ') : σ'.AllRules P := by
  intro s rs hrs r hr
  cases hs
  case still er es =>
    rw [er]
    exact h s rs (es ▸ hrs) r hr
  case rule a er es =>
    have ⟨a', ha, hw⟩ := h s rs (es ▸ hrs) r hr
    exact ⟨a', er ▸ Table.getElem?_push ha, hw⟩
  case ruleSet as hm er es =>
    cases Table.of_getElem?_push (es ▸ hrs)
    case inl hrs =>
      have ⟨a, ha, hw⟩ := h s rs hrs r hr
      exact ⟨a, er ▸ Table.getElem?_append ha, hw⟩
    case inr e =>
      -- The newest set has the newest rules.
      subst e
      have ⟨i, hi, e⟩ := List.mem_map.mp hr
      have hi : i < as.length := List.mem_range.mp hi
      refine ⟨as[i], ?_, made σ _ (hm _ (List.getElem_mem hi))⟩
      simp [er, ← e, hi]
  case extend t a _ _ hm er es =>
    have old {r : RuleId} : (∃ a, σ.rules[r]? = some a ∧ P a) →
        ∃ a, σ'.rules[r]? = some a ∧ P a :=
      fun ⟨a, ha, hw⟩ => ⟨a, er ▸ Table.getElem?_push ha, hw⟩
    cases Table.of_getElem?_modify (es ▸ hrs)
    case inl hrs => exact old (h s rs hrs r hr)
    case inr hrs =>
      obtain ⟨rs', hrs', e⟩ := hrs
      subst e
      cases List.mem_append.mp hr
      case inl hr => exact old (h s rs' hrs' r hr)
      case inr hr =>
        rw [List.mem_singleton.mp hr, er]
        exact ⟨a, Array.getElem?_push_size, made σ a hm⟩
  case narrow t o _ er es =>
    have ⟨a, ha, hw⟩ := h s rs (es ▸ hrs) r hr
    rw [er, Array.getElem?_modify, ha]
    split
    · exact ⟨a.narrow o, rfl, narrow a o hw⟩
    · exact ⟨a, rfl, hw⟩

-- What holds of every rule that a set can be given holds of all rules in sets, at any time.
theorem allRules_run (made : ∀ σ a, Made σ a → P a) (narrow : ∀ a o, P a → P (a.narrow o))
    (cs : List Call) : (({} : Store).run cs).AllRules P := by
  apply run_induction cs
  case start => exact fun s rs h => absurd h (by simp)
  case step => exact fun σ c p h hp => h.preserved made narrow (step_of_plan hp).ruleStep

theorem AllRules.of_mem (h : σ.AllRules P) {s : RuleSetId} {a : AuthRule} (ha : a ∈ σ.rulesOf s) :
    P a := by
  have ⟨r, hr, e⟩ := List.mem_map.mp ha
  cases hs : σ.ruleSets[s]?
  case none => simp [ruleIds, hs] at hr
  case some rs =>
    have hr : r ∈ rs := by simpa [ruleIds, hs] using hr
    obtain ⟨a', ha', hw⟩ := h s rs hs r hr
    have e' : a = a' := by simp [← e, rule, ha']
    exact e' ▸ hw

theorem AllRules.imp (h : σ.AllRules P) (hi : ∀ a, P a → Q a) : σ.AllRules Q := fun s rs hs r hr =>
  have ⟨a, ha, hp⟩ := h s rs hs r hr
  ⟨a, ha, hi a hp⟩

theorem allGranted_run (cs : List Call) : (({} : Store).run cs).AllRules Granted :=
  allRules_run (fun _ _ => Made.granted) (fun _ o h => h.narrow o) cs

end Store

end GraphSchema
