import GraphSchema.Proofs.Step.Basic

namespace GraphSchema

open Outcome

-- Rules as scripts and rule sets make them.
inductive AuthRule.Made (σ : Store) : AuthRule → Prop
  | of (a : Audience) : Made σ (.of a)
  | groups {v : Value} {r : AuthRule} (checked : σ.groupRule v = .ok r) : Made σ r
  | narrow {r : AuthRule} (made : Made σ r) (o : Operation) : Made σ (r.narrow o)

namespace Store

open AuthRule (Made)

variable {σ : Store} {l : RuleLine} {r r' : AuthRule} {v : Value}

theorem made_of_lineRule (h : σ.lineRule l = .ok r) : Made σ r := by
  cases lineRule_eq_ok h
  case inl h =>
    have ⟨a, e⟩ := h
    exact e ▸ .of a
  case inr h =>
    have ⟨v, hv⟩ := h
    exact .groups hv

-- What narrowing keeps holds of a rule that was narrowed by names.
theorem holds_of_foldlM {P : AuthRule → Prop} (narrow : ∀ a o, P a → P (a.narrow o))
    {operations : List String} (h : P r) (hf : operations.foldlM narrowBy r = .ok r') : P r' := by
  induction operations generalizing r
  case nil => exact pure_eq_ok.mp hf ▸ h
  case cons o os hi =>
    have ⟨r₁, hr, hf⟩ := bind_eq_ok.mp (List.foldlM_cons.symm.trans hf)
    refine hi ?_ hf
    unfold narrowBy at hr
    split at hr
    · cases hr
      exact narrow _ _ h
    · exact nomatch hr

theorem made_of_scriptRule (h : σ.scriptRule l = .ok r) : Made σ r := by
  have ⟨r₁, hl, hf⟩ := bind_eq_ok.mp h
  exact holds_of_foldlM (fun _ o h => .narrow h o) (made_of_lineRule hl) hf

theorem made_of_checkScript {rs : List AuthRule} (h : σ.checkScript v = .ok rs) (hr : r ∈ rs) :
    Made σ r := by
  have ⟨lines, _, hm, _⟩ := checkScript_eq_ok.mp h
  have ⟨l, _, hl⟩ := mem_of_mapM_eq_ok hm hr
  exact made_of_scriptRule hl

end Store

-- How the tables of rules and rule sets of one store come from those of the store before the call.
inductive RuleStep (σ : Store) (call : Call) (σ' : Store) : Prop
  | still (rules : σ'.rules = σ.rules) (ruleSets : σ'.ruleSets = σ.ruleSets)
  | rule (r : AuthRule) (rules : σ'.rules = σ.rules.push r) (ruleSets : σ'.ruleSets = σ.ruleSets)
  | ruleSet (rs : List AuthRule) (made : ∀ r ∈ rs, r.Made σ)
      (rules : σ'.rules = σ.rules ++ rs.toArray)
      (ruleSets : σ'.ruleSets =
        σ.ruleSets.push ((List.range rs.length).map (σ.rules.size + ·)))
  | extend {v : Value} {s : RuleSetId} {r : AuthRule}
      (asked : (∃ a, call = .allow v a) ∨ ∃ groups, call = .allowGroups v groups)
      (given : σ.ruleSet? v = some s) (made : r.Made σ) (rules : σ'.rules = σ.rules.push r)
      (ruleSets : σ'.ruleSets = σ.ruleSets.modify s (· ++ [σ.rules.size]))
  | narrow {r : RuleId} {o : Operation} (asked : call = .narrow (.object (.rule r)) o)
      (rules : σ'.rules = σ.rules.modify r (·.narrow o))
      (ruleSets : σ'.ruleSets = σ.ruleSets)

open Store in
theorem RuleStep.of_addRules {σ : Store} {call : Call} {rs : List AuthRule}
    (h : ∀ r ∈ rs, r.Made σ) : RuleStep σ call (σ.applyAll (σ.addRules rs)) :=
  applyAll_addRules rs ▸ .ruleSet rs h rfl rfl

open Store in
theorem Step.ruleStep {σ : Store} {call : Call} {cs : List Change} (s : Step σ call cs) :
    RuleStep σ call (σ.applyAll cs) := by
  cases s
  case wrap hc =>
    rw [applyAll_append]
    cases hc
    case script hr _ _ =>
      rw [applyAll_addRules]
      exact .ruleSet _ (fun r h => made_of_checkScript hr h) rfl rfl
    all_goals exact .still rfl rfl
  case rule => exact .rule _ rfl rfl
  case ruleSet => exact .of_addRules nofun
  case script hr => exact .of_addRules fun r h => made_of_checkScript hr h
  case allow a ha hs => exact .extend (.inl ⟨a, ha⟩) hs (.of a) rfl rfl
  case allowGroups ha hs hr => exact .extend (.inr ⟨_, ha⟩) hs (.groups hr) rfl rfl
  case narrow ha => exact .narrow ha rfl rfl
  case coerce h =>
    have ⟨_, e⟩ := applyAll_coerceInvalidation h
    exact e ▸ .still rfl rfl
  case typeCache h | cacheType h =>
    have ⟨_, e⟩ := applyAll_checkTypeCache h
    rw [applyAll_append, e]
    exact .still rfl rfl
  all_goals exact .still rfl rfl

-- Calls that make rules or rule sets, or change them.
def Call.makesRules : Call → Bool
  | .rule .. | .ruleSet | .buildRuleSet _ | .auth .. | .allow .. | .allowGroups .. | .narrow .. =>
    true
  | _ => false

open Store in
theorem Step.rules_still {σ : Store} {call : Call} {cs : List Change} (s : Step σ call cs)
    (h : call.makesRules = false) :
    (σ.applyAll cs).rules = σ.rules ∧ (σ.applyAll cs).ruleSets = σ.ruleSets := by
  cases s
  case rule ha _ | ruleSet ha | script ha _ | narrow ha => exact nomatch ha ▸ h
  case allow ha _ | allowGroups ha _ _ => exact nomatch ha ▸ h
  case wrap w _ _ _ ha hk _ hc =>
    subst ha
    rw [applyAll_append]
    cases hc
    case script =>
      cases w
      case auth => exact nomatch h
      all_goals exact nomatch hk
    all_goals exact ⟨rfl, rfl⟩
  case coerce h =>
    have ⟨_, e⟩ := applyAll_coerceInvalidation h
    exact e ▸ ⟨rfl, rfl⟩
  case typeCache h | cacheType h =>
    have ⟨_, e⟩ := applyAll_checkTypeCache h
    rw [applyAll_append, e]
    exact ⟨rfl, rfl⟩
  all_goals exact ⟨rfl, rfl⟩

end GraphSchema
