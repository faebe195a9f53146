import GraphSchema.Proofs.Course.Basic
import GraphSchema.Proofs.Plan.Auth

namespace GraphSchema

open Course

namespace Course

def newRule (r : AuthRule) : Course RuleId := do
  let σ ← get
  make (.addRule r)
  return σ.rules.size

def rule (allow groups : Value) : Course Value := do
  let σ ← get
  if groups.isNull then
    return .object (.rule (← newRule ⟨allow, none, []⟩))
  else
    let gs ← σ.listed groups
    return .object (.rule (← newRule ⟨allow, some gs, []⟩))

-- Makes an empty rule set.
def emptySet : Course RuleSetId := do
  let σ ← get
  make (.addRuleSet [])
  return σ.ruleSets.size

-- Makes a rule and puts it into a set.
def enroll (s : RuleSetId) (r : AuthRule) : Course RuleId := do
  let n ← newRule r
  make (.extendRuleSet s n)
  return n

def allow (set : Value) (a : Audience) : Course Value := do
  let σ ← get
  match σ.ruleSet? set with
  | none => σ.lacks set a.name
  | some s => return .object (.rule (← enroll s (.of a)))

def allowGroups (set groups : Value) : Course Value := do
  let σ ← get
  match σ.ruleSet? set with
  | none => σ.lacks set "groups"
  | some s =>
    let r ← σ.groupRule groups
    return .object (.rule (← enroll s r))

def narrow (rule : Value) (o : Operation) : Course Value := do
  let σ ← get
  match rule with
  | .object (.rule r) =>
    make (.narrowRule r o)
    return rule
  | v => σ.lacks v o.name

-- Scripts.

def operate (r : RuleId) (operation : String) : Course Unit :=
  match Operation.ofName? operation with
  | some o => make (.narrowRule r o)
  | none => throw (.noProperty "AuthRule" operation)

-- One line of a script: makes a rule in the set, then narrows it operation by operation. What is
-- given to the line is what it was when the script was called.
def line (σ : Store) (s : RuleSetId) (l : RuleLine) : Course Unit := do
  let r ← enroll s (← σ.lineRule l)
  forM l.operations (operate r)

-- Calls the value on a new rule set, which must not be empty after that.
def build (v : Value) : Course RuleSetId := do
  let σ ← get
  match v with
  | .script lines =>
    let s ← emptySet
    forM lines (line σ s)
    let τ ← get
    if (τ.ruleIds s).isEmpty then Misuse.noRules.refusal else return s
  | .object (.printer _) =>
    let _ ← emptySet
    Misuse.noRules.refusal
  | .enumClass _ name members => do
    let _ ← emptySet
    throw (Store.classFault name members)
  | v => v.refuse σ.display .notCallable

def buildRuleSet (v : Value) : Course Value := return .ruleSet (← build v)

end Course

namespace Store

variable {σ : Store} {rs : List AuthRule} {v : Value}

theorem retains_withRules (σ : Store) (rs : List AuthRule) : σ.Retains (σ.withRules rs) :=
  { σ.retains_refl with rules := Table.within_append, ruleSets := Table.within_push }

theorem on_emptySet (σ : Store) : emptySet.on σ = (.ok σ.ruleSets.size, σ.withRules []) := by
  change (_, σ.apply (.addRuleSet [])) = _
  simp [apply, withRules]

theorem on_enroll (σ : Store) (rs : List AuthRule) (r : AuthRule) :
    (enroll σ.ruleSets.size r).on (σ.withRules rs) =
      (.ok (σ.rules.size + rs.length), σ.withRules (rs ++ [r])) := by
  change (Except.ok (σ.withRules rs).rules.size,
    (σ.withRules rs).applyAll ((σ.withRules rs).extend σ.ruleSets.size r).changes) = _
  rw [(extend_withRules σ rs r).right]
  simp [withRules]

theorem apply_narrowRule (σ : Store) (rs : List AuthRule) (r : AuthRule) (o : Operation) :
    (σ.withRules (rs ++ [r])).apply (.narrowRule (σ.rules.size + rs.length) o) =
      σ.withRules (rs ++ [r.narrow o]) := by
  have last : (rs ++ [r]).modify rs.length (·.narrow o) = rs ++ [r.narrow o] := by
    simp [List.modify_eq_take_cons_drop]
  rw [narrow_withRules, last]

-- Scripts, line by line. Whatever happens, there is nothing new but rules in the set of the script.

def Scripted (σ τ : Store) : Prop := ∃ rs, τ = σ.withRules rs

theorem follows_operate (σ : Store) (rs : List AuthRule) (r : AuthRule) (os : List String) :
    Follows (forM os (operate (σ.rules.size + rs.length))) (σ.withRules (rs ++ [r]))
      (os.foldlM narrowBy r) (fun r' => ((), σ.withRules (rs ++ [r']))) σ.Scripted := by
  induction os generalizing r
  case nil => exact .of_ok rfl
  case cons o os hi =>
    rw [List.forM_cons, List.foldlM_cons]
    unfold operate narrowBy
    cases ho : Operation.ofName? o
    case none => exact .of_error rfl ⟨_, rfl⟩
    case some p =>
      refine .step ?_
      rw [apply_narrowRule]
      exact hi (r.narrow p)

theorem follows_line (σ : Store) (rs : List AuthRule) (l : RuleLine) :
    Follows (line σ σ.ruleSets.size l) (σ.withRules rs) (σ.scriptRule l)
      (fun r => ((), σ.withRules (rs ++ [r]))) σ.Scripted := by
  refine .check ⟨rs, rfl⟩ fun r _ => ?_
  exact (follows_operate σ rs r l.operations).congr (on_bind_ok (on_enroll σ rs r))

theorem follows_lines (σ : Store) (rs : List AuthRule) (lines : List RuleLine) :
    Follows (forM lines (line σ σ.ruleSets.size)) (σ.withRules rs) (lines.mapM σ.scriptRule)
      (fun rs' => ((), σ.withRules (rs ++ rs'))) σ.Scripted := by
  induction lines generalizing rs
  case nil =>
    rw [List.mapM_nil]
    exact .of_ok (by rw [List.append_nil]; rfl)
  case cons l lines hi =>
    rw [List.forM_cons, List.mapM_cons]
    refine .bind (follows_line σ rs l) fun r _ => .map ?_
    simpa only [List.append_assoc, List.singleton_append] using hi (rs ++ [r])

theorem isEmpty_ruleIds_withRules (σ : Store) (rs : List AuthRule) :
    ((σ.withRules rs).ruleIds σ.ruleSets.size).isEmpty = rs.isEmpty := by
  cases rs <;> simp [ruleIds_withRules]

theorem Scripted.retains {τ : Store} (h : σ.Scripted τ) : σ.Retains τ :=
  have ⟨rs, e⟩ := h
  e ▸ σ.retains_withRules rs

theorem follows_build (σ : Store) (v : Value) :
    Follows (build v) σ (σ.checkScript v)
      (fun rs => (σ.ruleSets.size, σ.applyAll (σ.addRules rs))) σ.Retains := by
  refine .look ?_
  cases v
  case script lines =>
    refine .congr (on_bind_ok (on_emptySet σ)) ?_
    refine .bind ((follows_lines σ [] lines).imp fun _ => Scripted.retains) fun rs _ => .look ?_
    rw [List.nil_append, isEmpty_ruleIds_withRules]
    cases rs
    case nil => exact .of_error rfl (σ.retains_withRules [])
    case cons r rs => exact .of_ok (by rw [applyAll_addRules]; rfl)
  case enumClass => exact .of_error rfl (by exact σ.retains_withRules [])
  case object r =>
    cases r
    case printer => exact .of_error rfl (by exact σ.retains_withRules [])
    all_goals exact .refuse σ.retains_refl ..
  all_goals exact .refuse σ.retains_refl ..

end Store

open Store

-- The calls.

namespace Course

variable {σ : Store} {v : Value}

theorem realizes_rule (w : Value) : Realizes (rule v w) σ (σ.newRule v w) := by
  refine .look ?_
  unfold Store.newRule
  cases w.isNull
  case true => exact .of_ok rfl
  case false =>
    simp only [Bool.false_eq_true, if_false]
    cases σ.listed w
    case error => exact .of_error rfl σ.retains_refl
    case ok => exact .of_ok rfl

theorem realizes_emptySet : Realizes (return .ruleSet (← emptySet)) σ (pure σ.newRuleSet) :=
  .of_ok rfl

theorem realizes_buildRuleSet : Realizes (buildRuleSet v) σ (σ.buildRuleSet v) :=
  .bind (follows_build σ v) fun _ _ => .of_ok rfl

theorem realizes_allow (a : Audience) : Realizes (allow v a) σ (σ.allow v a) := by
  refine .look ?_
  unfold Store.allow
  cases σ.ruleSet? v
  case none => exact .lacks σ.retains_refl ..
  case some s => exact .of_ok rfl

theorem realizes_allowGroups (groups : Value) :
    Realizes (allowGroups v groups) σ (σ.allowGroups v groups) := by
  refine .look ?_
  unfold Store.allowGroups
  cases σ.ruleSet? v
  case none => exact .lacks σ.retains_refl ..
  case some s => exact .check σ.retains_refl fun r _ => .of_ok rfl

theorem realizes_narrow (o : Operation) : Realizes (narrow v o) σ (σ.narrow v o) := by
  refine .look ?_
  cases v
  case object r =>
    cases r
    case rule => exact .of_ok rfl
    all_goals exact .lacks σ.retains_refl ..
  all_goals exact .lacks σ.retains_refl ..

end Course

end GraphSchema
