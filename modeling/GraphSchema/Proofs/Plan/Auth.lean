import GraphSchema.Proofs.Plan.Field
import GraphSchema.Proofs.Table

namespace GraphSchema.Store

open Outcome

variable {σ : Store} {v : Value} {p : Plan}

-- Rules.

theorem newRule_eq_ok {groups : Value} (h : σ.newRule v groups = .ok p) :
    ∃ gs, p.changes = [.addRule ⟨v, gs, []⟩] := by
  unfold newRule at h
  split at h
  · exact ⟨none, (pure_eq_ok.mp h) ▸ rfl⟩
  · have ⟨gs, _, h⟩ := bind_eq_ok.mp h
    exact ⟨gs, (pure_eq_ok.mp h) ▸ rfl⟩

theorem applyAll_addRule (rs : List AuthRule) :
    σ.applyAll (rs.map .addRule) = { σ with rules := σ.rules ++ rs.toArray } := by
  induction rs generalizing σ
  case nil => simp
  case cons r rs hi =>
    rw [List.map_cons, applyAll_cons, hi]
    simp [apply]

-- Adding rules changes the tables of rules and rule sets only.
theorem applyAll_addRules (rs : List AuthRule) :
    σ.applyAll (σ.addRules rs) = { σ with
      rules := σ.rules ++ rs.toArray
      ruleSets := σ.ruleSets.push ((List.range rs.length).map (σ.rules.size + ·)) } := by
  rw [addRules, applyAll_append, applyAll_addRule]
  rfl

-- The store with some more rules, in a set of their own.
def withRules (σ : Store) (rs : List AuthRule) : Store :=
  { σ with
    rules := σ.rules ++ rs.toArray
    ruleSets := σ.ruleSets.push ((List.range rs.length).map (σ.rules.size + ·)) }

theorem ruleIds_withRules (σ : Store) (rs : List AuthRule) :
    (σ.withRules rs).ruleIds σ.ruleSets.size =
      (List.range rs.length).map (σ.rules.size + ·) := by
  simp [ruleIds, withRules]

-- One more rule in this set is the last one of all.
theorem extend_withRules (σ : Store) (rs : List AuthRule) (r : AuthRule) :
    let p := (σ.withRules rs).extend σ.ruleSets.size r
    p.answer = .object (.rule (σ.rules.size + rs.length)) ∧
      (σ.withRules rs).applyAll p.changes = σ.withRules (rs ++ [r]) := by
  simp [withRules, extend, apply, Table.modify_push, List.range_succ]

theorem narrow_withRules (σ : Store) (rs : List AuthRule) (k : Nat) (o : Operation) :
    (σ.withRules rs).apply (.narrowRule (σ.rules.size + k) o) =
      σ.withRules (rs.modify k (·.narrow o)) := by
  simp [withRules, apply, Table.modify_append]

theorem buildRuleSet_eq_ok (h : σ.buildRuleSet v = .ok p) :
    ∃ rs, σ.checkScript v = .ok rs ∧ p = ⟨σ.addRules rs, .ruleSet σ.ruleSets.size⟩ := by
  have ⟨rs, hr, h⟩ := bind_eq_ok.mp h
  exact ⟨rs, hr, (pure_eq_ok.mp h).symm⟩

theorem allow_eq_ok {a : Audience} (h : σ.allow v a = .ok p) :
    ∃ s, σ.ruleSet? v = some s ∧ p = σ.extend s (.of a) := by
  unfold allow at h
  split at h
  case h_1 s hs => exact ⟨s, hs, (pure_eq_ok.mp h).symm⟩
  case h_2 => exact absurd h lacks_ne_ok

theorem allowGroups_eq_ok {groups : Value} (h : σ.allowGroups v groups = .ok p) :
    ∃ s r, σ.ruleSet? v = some s ∧ σ.groupRule groups = .ok r ∧ p = σ.extend s r := by
  unfold allowGroups at h
  split at h
  case h_1 s hs =>
    have ⟨r, hr, h⟩ := bind_eq_ok.mp h
    exact ⟨s, r, hs, hr, (pure_eq_ok.mp h).symm⟩
  case h_2 => exact absurd h lacks_ne_ok

theorem narrow_eq_ok {o : Operation} (h : σ.narrow v o = .ok p) :
    ∃ r, v = .object (.rule r) ∧ p = ⟨[.narrowRule r o], v⟩ := by
  unfold narrow at h
  split at h
  · next r => exact ⟨r, rfl, (pure_eq_ok.mp h).symm⟩
  · exact absurd h lacks_ne_ok

-- Rules are made for an audience, or for groups that are given as non-empty texts. Whatever the
-- groups are iterated from, only what is left of it after the check gets into the rule.

theorem groupRule_eq_ok {groups : Value} {r : AuthRule} (h : σ.groupRule groups = .ok r) :
    ∃ names, σ.items groups.front = .ok names ∧ (∀ n ∈ names, isGroupName n) ∧
      r = .ofGroups (groups.rest names) := by
  unfold groupRule at h
  split at h
  case isTrue => exact absurd h Value.refuse_ne_ok
  case isFalse =>
    have ⟨names, hn, h⟩ := bind_eq_ok.mp h
    split at h
    case h_1 => exact absurd h Value.refuse_ne_ok
    case h_2 hf =>
      refine ⟨names, hn, fun n hm => ?_, (pure_eq_ok.mp h).symm⟩
      simpa using List.find?_eq_none.mp hf n hm

theorem isTrue_of_groupRule {groups : Value} {r : AuthRule} (h : σ.groupRule groups = .ok r) :
    groups.text? = none ∧ σ.isTrue groups := by
  unfold groupRule at h
  split at h
  case isTrue => exact absurd h Value.refuse_ne_ok
  case isFalse hc => simpa using hc

theorem checkScript_eq_ok {rs : List AuthRule} :
    σ.checkScript v = .ok rs ↔
      ∃ lines, v = .script lines ∧ lines.mapM σ.scriptRule = .ok rs ∧ rs ≠ [] := by
  unfold checkScript
  split
  case h_1 lines =>
    simp only [bind_eq_ok, Value.script.injEq, exists_eq_left']
    constructor
    · rintro ⟨rs', hr, h⟩
      split at h
      · exact absurd h Misuse.refusal_ne_ok
      · next hne => exact pure_eq_ok.mp h ▸ ⟨hr, fun e => hne e⟩
    · rintro ⟨hr, hne⟩
      refine ⟨rs, hr, ?_⟩
      split
      · exact absurd rfl hne
      · rfl
  case h_2 | h_3 => simp
  case h_4 hs _ _ =>
    simp only [Value.refuse_ne_ok, false_iff]
    rintro ⟨l, e, _⟩
    exact hs l e

theorem lineRule_eq_ok {l : RuleLine} {r : AuthRule} (h : σ.lineRule l = .ok r) :
    (∃ a, r = .of a) ∨ ∃ groups, σ.groupRule groups = .ok r := by
  unfold lineRule at h
  split at h
  · next a _ _ => exact .inl ⟨a, (Except.ok.inj h).symm⟩
  · exact nomatch h
  · split at h
    · split at h
      · next groups _ => exact .inr ⟨groups, h⟩
      · exact nomatch h
      · exact nomatch h
    · exact nomatch h

-- Caches.

theorem newInvalidation_eq_ok {fieldName : Value} (h : σ.newInvalidation v fieldName = .ok p) :
    ∃ i, σ.checkInvalidation v fieldName = .ok i ∧
      p = ⟨[.addInvalidation i], .object (.invalidation σ.invalidations.size)⟩ := by
  have ⟨i, hi, h⟩ := bind_eq_ok.mp h
  exact ⟨i, hi, (pure_eq_ok.mp h).symm⟩

theorem invalidationOf_eq_ok (h : σ.invalidationOf v = .ok p) :
    ∃ i changes, σ.coerceInvalidation v = .ok (i, changes) ∧
      p = ⟨changes, .object (.invalidation i.id)⟩ := by
  have ⟨⟨i, changes⟩, hi, h⟩ := bind_eq_ok.mp h
  exact ⟨i, changes, hi, (pure_eq_ok.mp h).symm⟩

theorem newFieldCache_eq_ok {stale : Value} (h : σ.newFieldCache v stale = .ok p) :
    ∃ c, σ.checkFieldCache v stale = .ok c ∧
      p = ⟨[.addFieldCache c], .object (.fieldCache σ.fieldCaches.size)⟩ := by
  have ⟨c, hc, h⟩ := bind_eq_ok.mp h
  exact ⟨c, hc, (pure_eq_ok.mp h).symm⟩

theorem newTypeCache_eq_ok {stale i : Value} (h : σ.newTypeCache v stale i = .ok p) :
    ∃ c changes, σ.checkTypeCache v stale i = .ok (c, changes) ∧
      p = ⟨changes ++ [.addTypeCache c], .object (.typeCache σ.typeCaches.size)⟩ := by
  have ⟨⟨c, changes⟩, hc, h⟩ := bind_eq_ok.mp h
  exact ⟨c, changes, hc, (pure_eq_ok.mp h).symm⟩

-- Coercing an invalidation changes nothing, or adds the one that it makes.

theorem applyAll_coerceInvalidation {i : Numbered Invalidation} {changes : List Change}
    (h : σ.coerceInvalidation v = .ok (i, changes)) :
    ∃ is, σ.applyAll changes = { σ with invalidations := is } := by
  unfold coerceInvalidation at h
  split at h
  case h_1 =>
    cases h
    exact ⟨σ.invalidations, rfl⟩
  case h_2 =>
    have ⟨i', _, h⟩ := bind_eq_ok.mp h
    cases pure_eq_ok.mp h
    exact ⟨σ.invalidations.push i', rfl⟩

theorem applyAll_checkTypeCache {stale i : Value} {c : TypeCache} {changes : List Change}
    (h : σ.checkTypeCache v stale i = .ok (c, changes)) :
    ∃ is, σ.applyAll changes = { σ with invalidations := is } := by
  have ⟨params, _, h⟩ := bind_eq_ok.mp h
  split at h
  case isTrue =>
    cases pure_eq_ok.mp h
    exact ⟨σ.invalidations, rfl⟩
  case isFalse =>
    have ⟨⟨i, changes'⟩, hi, h⟩ := bind_eq_ok.mp h
    cases pure_eq_ok.mp h
    exact applyAll_coerceInvalidation hi

end GraphSchema.Store
