import GraphSchema.Proofs.Step.Basic
import GraphSchema.Proofs.Table

namespace GraphSchema

open Outcome

namespace Store

-- The invalidation that a type cache holds is there, with the number that it is known by.
def Backs (σ : Store) (c : TypeCache) : Prop :=
  ∀ i ∈ c.invalidation, σ.invalidations[i.id]? = some i.val

def AllBacked (σ : Store) : Prop :=
  ∀ (n : TypeCacheId) (c : TypeCache), σ.typeCaches[n]? = some c → σ.Backs c

variable {σ σ' : Store} {c : TypeCache} {v : Value}

theorem Backs.mono (h : σ.Backs c) (kept : Table.Within σ.invalidations σ'.invalidations) :
    σ'.Backs c :=
  fun i hi => kept _ _ (h i hi)

theorem coerceInvalidation_eq_ok {i : Numbered Invalidation} {changes : List Change}
    (h : σ.coerceInvalidation v = .ok (i, changes)) :
    changes = [] ∧ σ.invalidations[i.id]? = some i.val ∨
      changes = [.addInvalidation i.val] ∧ i.id = σ.invalidations.size := by
  unfold coerceInvalidation at h
  split at h
  case h_1 j hj =>
    cases h
    refine .inl ⟨rfl, ?_⟩
    unfold invalidation? at hj
    split at hj
    case h_1 =>
      have ⟨a, ha, e⟩ := Option.map_eq_some_iff.mp hj
      exact e ▸ ha
    case h_2 => exact nomatch hj
  case h_2 =>
    have ⟨_, _, h⟩ := bind_eq_ok.mp h
    cases pure_eq_ok.mp h
    exact .inr ⟨rfl, rfl⟩

theorem within_coerceInvalidation {i : Numbered Invalidation} {changes : List Change}
    (h : σ.coerceInvalidation v = .ok (i, changes)) :
    Table.Within σ.invalidations (σ.applyAll changes).invalidations ∧
      (σ.applyAll changes).invalidations[i.id]? = some i.val := by
  rcases coerceInvalidation_eq_ok h with ⟨rfl, there⟩ | ⟨rfl, new⟩
  · exact ⟨fun _ _ => id, there⟩
  · refine ⟨Table.within_push, ?_⟩
    rw [new]
    exact Array.getElem?_push_size

theorem checkTypeCache_eq_ok {stale i : Value} {changes : List Change}
    (h : σ.checkTypeCache v stale i = .ok (c, changes)) :
    Table.Within σ.invalidations (σ.applyAll changes).invalidations ∧
      (σ.applyAll changes).Backs c := by
  have ⟨params, _, h⟩ := bind_eq_ok.mp h
  split at h
  case isTrue =>
    cases pure_eq_ok.mp h
    exact ⟨fun _ _ => id, nofun⟩
  case isFalse =>
    have ⟨⟨j, changes⟩, hj, h⟩ := bind_eq_ok.mp h
    cases pure_eq_ok.mp h
    have ⟨kept, there⟩ := within_coerceInvalidation hj
    refine ⟨kept, fun i hi => ?_⟩
    cases hi
    exact there

end Store

-- How the tables of invalidations and type caches of one store come from those of the store before
-- the call.
inductive CacheStep (σ σ' : Store) : Prop
  | still (kept : Table.Within σ.invalidations σ'.invalidations)
      (typeCaches : σ'.typeCaches = σ.typeCaches)
  | typeCache (c : TypeCache) (kept : Table.Within σ.invalidations σ'.invalidations)
      (backed : σ'.Backs c) (typeCaches : σ'.typeCaches = σ.typeCaches.push c)

open Store

theorem Step.cacheStep {σ : Store} {call : Call} {cs : List Change} (s : Step σ call cs) :
    CacheStep σ (σ.applyAll cs) := by
  cases s
  case wrap hc =>
    have ⟨_, _, _, e⟩ := hc.applyAll_eq
    rw [applyAll_append, e]
    exact .still (Table.within_refl _) rfl
  case ruleSet | script => rw [applyAll_addRules]; exact .still (Table.within_refl _) rfl
  case invalidation => exact .still Table.within_push rfl
  case coerce h =>
    have ⟨_, e⟩ := applyAll_coerceInvalidation h
    exact .still (within_coerceInvalidation h).left (e ▸ rfl)
  case typeCache c _ h | cacheType c _ _ h =>
    have ⟨kept, backed⟩ := checkTypeCache_eq_ok h
    have ⟨_, e⟩ := applyAll_checkTypeCache h
    rw [e] at kept backed
    rw [applyAll_append, e]
    exact .typeCache c kept backed rfl
  all_goals exact .still (Table.within_refl _) rfl

theorem CacheStep.allBacked {σ σ' : Store} (s : CacheStep σ σ') (h : σ.AllBacked) :
    σ'.AllBacked := by
  intro n c hc
  cases s
  case still kept ht => exact (h n c (ht ▸ hc)).mono kept
  case typeCache kept backed ht =>
    rcases Table.of_getElem?_push (ht ▸ hc) with hc | rfl
    · exact (h n c hc).mono kept
    · exact backed

theorem Store.allBacked_run (cs : List Call) : (({} : Store).run cs).AllBacked := by
  apply run_induction cs
  case start => exact fun n c h => nomatch (Array.getElem?_empty (i := n)).symm.trans h
  case step => exact fun σ c p h hp => (step_of_plan hp).cacheStep.allBacked h

end GraphSchema
