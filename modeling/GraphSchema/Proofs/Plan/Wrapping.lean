import GraphSchema.Proofs.Plan.Auth

namespace GraphSchema

inductive Wrapping
  | length (min max : Value)
  | unique (scope : Value)
  | default (value : Value)
  | search
  | auth (rules : Value)
  | cache (maxAge stale : Value)

namespace Store

-- A directive that passed its own checks on a field of the given shape, and the changes that have
-- to come before it.
inductive Checked (σ : Store) (s : Shape) : List Change → Directive → Prop
  | length {min max : Value} {low high : Option Nat} (string : s.isString)
      (single : s.isList = false) (bounds : σ.checkBounds min max = .ok (low, high)) :
      Checked σ s [] (.length low high)
  | unique {v : Value} {scope : List String} (names : σ.checkScope v = .ok scope) :
      Checked σ s [] (.unique scope)
  | default {v : Value} (accepted : s.accepts (σ.settle v)) : Checked σ s [] (.default v)
  | search : Checked σ s [] .search
  | ruleSet {v : Value} {r : RuleSetId} (given : σ.ruleSet? v = some r) (rules : σ.ruleIds r ≠ []) :
      Checked σ s [] (.auth r)
  | script {v : Value} {rs : List AuthRule} (ran : σ.checkScript v = .ok rs) :
      Checked σ s (σ.addRules rs) (.auth σ.ruleSets.size)
  | cache {age stale : Value} {c : FieldCache} (times : σ.checkFieldCache age stale = .ok c) :
      Checked σ s [.addFieldCache c] (.cache ⟨σ.fieldCaches.size, c⟩)

-- What has to come before a directive is for rules and caches.
theorem Checked.applyAll_eq {σ : Store} {s : Shape} {before : List Change} {d : Directive}
    (h : σ.Checked s before d) : ∃ rules ruleSets fieldCaches,
      σ.applyAll before = { σ with rules, ruleSets, fieldCaches } := by
  cases h
  case script => exact ⟨_, _, σ.fieldCaches, applyAll_addRules _⟩
  all_goals exact ⟨σ.rules, σ.ruleSets, _, rfl⟩

end Store

namespace Wrapping

open Store

variable {σ : Store} {v : Value} {w : Wrapping}

def kind : Wrapping → NodeKind
  | length .. => .length
  | unique _ => .unique
  | default _ => .default
  | search => .search
  | auth _ => .auth
  | cache .. => .cache

def call (field : Value) : Wrapping → Call
  | length min max => .length field min max
  | unique scope => .unique field scope
  | default v => .default field v
  | search => .search field
  | auth rules => .auth field rules
  | cache age stale => .cache field age stale

-- Whether the directive fits is looked at first, and only then its arguments.
theorem plan_of_refused {e : Error} (h : σ.checkWrap w.kind v = .error e) :
    σ.plan (w.call v) = .error e := by
  cases w
  case search => exact congrArg (· >>= fun f => pure (σ.wrapPlan f [] .search)) h
  all_goals exact congrArg (· >>= _) h

-- What a call that puts a directive on a field comes to.
theorem plan_eq_ok {p : Plan} (h : σ.plan (w.call v) = .ok p) :
    ∃ f before d, σ.checkWrap w.kind v = .ok f ∧ d.kind = w.kind ∧
      σ.Checked (σ.shape f.val.shape) before d ∧ p = σ.wrapPlan f before d := by
  cases w
  case length =>
    have ⟨f, low, high, hf, hs, hl, hb, e⟩ := length_eq_ok h
    exact ⟨f, [], _, hf, rfl, .length hs hl hb, e⟩
  case unique =>
    have ⟨f, names, hf, hn, e⟩ := unique_eq_ok h
    exact ⟨f, [], _, hf, rfl, .unique hn, e⟩
  case default =>
    have ⟨f, hf, ha, e⟩ := withDefault_eq_ok h
    exact ⟨f, [], _, hf, rfl, .default ha, e⟩
  case search =>
    have ⟨f, hf, e⟩ := search_eq_ok h
    exact ⟨f, [], _, hf, rfl, .search, e⟩
  case auth =>
    have ⟨f, hf, h⟩ := auth_eq_ok h
    cases h
    case inl h =>
      have ⟨s, hs, hr, e⟩ := h
      exact ⟨f, [], _, hf, rfl, .ruleSet hs hr, e⟩
    case inr h =>
      have ⟨rs, hr, e⟩ := h
      exact ⟨f, _, _, hf, rfl, .script hr, e⟩
  case cache =>
    have ⟨f, c, hf, hc, e⟩ := cache_eq_ok h
    exact ⟨f, _, _, hf, rfl, .cache hc, e⟩

end Wrapping

end GraphSchema
