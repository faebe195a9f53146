import Mathlib.Data.List.Nodup
import GraphSchema.Proofs.Step.Definition

namespace GraphSchema

open Outcome

namespace Store

-- A type that was never made has no interfaces.
def interfacesOf (σ : Store) (n : TypeId) : List (Numbered Interface) :=
  (σ.types.getD n default).interfaces

-- What a call adds to them.
def gained (σ : Store) (n : TypeId) (c : Call) : List (Numbered Interface) :=
  match c, σ.plan c with
  | .implement (.object (.definition (.type m))) w, .ok _ =>
    if m = n then (σ.interface? w).toList else []
  | _, _ => []

-- The interfaces that a type was told to implement with success, in the order of the calls.
def implemented (n : TypeId) (σ : Store) : List Call → List (Numbered Interface)
  | [] => []
  | c :: cs => σ.gained n c ++ implemented n (σ.perform c).2 cs

variable {σ σ' : Store} {c : Call} {n : TypeId} {t : ObjectType}

theorem interfacesOf_eq (h : σ.types[n]? = some t) : σ.interfacesOf n = t.interfaces := by
  simp [interfacesOf, h]

theorem interfacesOf_of_none (h : σ.types[n]? = none) : σ.interfacesOf n = [] := by
  rw [interfacesOf, Array.getD_eq_getD_getElem?, h]
  rfl

theorem type?_eq_some {v : Value} {t : Numbered ObjectType} (h : σ.type? v = some t) :
    v = .definition (.type t.id) ∧ σ.types[t.id]? = some t.val := by
  unfold type? at h
  split at h
  · have ⟨_, ht, e⟩ := Option.map_eq_some_iff.mp h
    exact e ▸ ⟨rfl, ht⟩
  · exact nomatch h

theorem gained_of_ne (h : ¬ ∃ v w, c = .implement v w) : σ.gained n c = [] := by
  unfold gained
  split
  · exact absurd ⟨_, _, rfl⟩ h
  · rfl

theorem gained_of_error {e : Error} (h : σ.plan c = .error e) : σ.gained n c = [] := by
  unfold gained
  split
  · next hp => exact nomatch hp.symm.trans h
  · rfl

theorem eq_implement_of_gained (h : σ.gained n c ≠ []) :
    ∃ w, c = .implement (.definition (.type n)) w ∧ Succeeds (σ.plan c) := by
  unfold gained at h
  split at h
  · next w p hp =>
    split at h
    case isTrue e => exact ⟨w, e ▸ rfl, p, hp⟩
    case isFalse => exact absurd rfl h
  · exact absurd rfl h

theorem gained_of_succeeds {w : Value}
    (h : Succeeds (σ.plan (.implement (.definition (.type n)) w))) :
    σ.gained n (.implement (.definition (.type n)) w) ≠ [] := by
  have ⟨p, hp⟩ := h
  have ⟨_, _, _, hi, _⟩ := implement_eq_ok hp
  simp [gained, hp, hi]

theorem interfacesOf_step (s : DefinitionStep σ c σ') (h : ¬ ∃ v w, c = .implement v w) :
    σ'.interfacesOf n = σ.interfacesOf n := by
  cases s
  case still e | interface e => simp only [interfacesOf, e]
  case type hc _ e =>
    -- A new type has no interfaces yet.
    have ⟨_, _, hi, _⟩ := checkType_eq_ok hc
    simp only [interfacesOf, e, Array.getD_eq_getD_getElem?, Array.getElem?_push]
    split
    case isTrue hn =>
      rw [hn, Array.getElem?_eq_none (Nat.le_refl _), Option.getD_some, hi]
      rfl
    case isFalse => rfl
  case implement ha _ _ _ _ _ _ => exact absurd ⟨_, _, ha⟩ h
  case cache e =>
    simp only [interfacesOf, e, Array.getD_eq_getD_getElem?, Array.getElem?_modify]
    split
    case isTrue => cases σ.types[n]? <;> rfl
    case isFalse => rfl

theorem interfacesOf_perform (σ : Store) (n : TypeId) (c : Call) :
    (σ.perform c).2.interfacesOf n = σ.interfacesOf n ++ σ.gained n c := by
  cases hp : σ.plan c
  case error e => rw [perform_of_refusal hp, gained_of_error hp, List.append_nil]
  case ok p =>
    rw [perform_of_plan hp]
    by_cases hc : ∃ v w, c = .implement v w
    case neg =>
      rw [gained_of_ne hc, List.append_nil]
      exact interfacesOf_step (step_of_plan hp).definitionStep hc
    case pos =>
      obtain ⟨v, w, rfl⟩ := hc
      have ⟨t, i, ht, hi, _, _, e⟩ := implement_eq_ok hp
      obtain ⟨rfl, hu⟩ := type?_eq_some ht
      rw [e]
      simp only [gained, hp, hi, interfacesOf, applyAll_cons, applyAll_nil, apply,
        Array.getD_eq_getD_getElem?, Array.getElem?_modify]
      split
      case isTrue hn =>
        rw [← hn, hu]
        rfl
      case isFalse => simp

theorem interfacesOf_run (σ : Store) (n : TypeId) (cs : List Call) :
    (σ.run cs).interfacesOf n = σ.interfacesOf n ++ implemented n σ cs := by
  induction cs generalizing σ
  case nil => exact (List.append_nil _).symm
  case cons c cs hi => rw [run_cons, hi, interfacesOf_perform, List.append_assoc, implemented]

theorem interfaces_eq_implemented {cs : List Call}
    (h : (({} : Store).run cs).types[n]? = some t) : t.interfaces = implemented n {} cs := by
  rw [← interfacesOf_eq h, interfacesOf_run, interfacesOf_of_none (by simp), List.nil_append]

-- If a type got interfaces at all, there was a call that gave it the last one.
theorem exists_last_of_implemented {cs : List Call} (h : implemented n σ cs ≠ []) :
    ∃ as c bs, cs = as ++ c :: bs ∧ (σ.run as).gained n c ≠ [] ∧
      implemented n (σ.run (as ++ [c])) bs = [] := by
  induction cs generalizing σ
  case nil => exact absurd rfl h
  case cons c cs hi =>
    by_cases hc : implemented n (σ.perform c).2 cs = []
    case pos =>
      have hg : σ.gained n c ≠ [] := fun hg => h (by rw [implemented, hg, hc]; rfl)
      exact ⟨[], c, cs, rfl, hg, hc⟩
    case neg =>
      have ⟨as, d, bs, e, hg, hb⟩ := hi hc
      exact ⟨c :: as, d, bs, congrArg _ e, hg, hb⟩

-- No interface twice.

def AllDistinct (σ : Store) : Prop :=
  ∀ (n : TypeId) (t : ObjectType), σ.types[n]? = some t → t.interfaceNames.Nodup

theorem AllDistinct.preserved (h : σ.AllDistinct) (s : DefinitionStep σ c σ') :
    σ'.AllDistinct := by
  intro n t ht
  cases s
  case still e | interface e => exact h n t (e ▸ ht)
  case type hc _ e =>
    cases Table.of_getElem?_push (e ▸ ht)
    case inl ht => exact h n t ht
    case inr e =>
      have ⟨_, _, hi, _⟩ := checkType_eq_ok hc
      simp [e, ObjectType.interfaceNames, hi]
  case implement u i _ hu _ hn _ _ e =>
    rw [e, Array.getElem?_modify] at ht
    split at ht
    case isFalse => exact h n t ht
    case isTrue hm =>
      have hu := (type?_eq_some hu).right
      rw [hm] at hu
      rw [hu] at ht
      cases ht
      rw [ObjectType.interfaceNames_implement]
      refine List.nodup_append.mpr ⟨h n u.val hu, by simp, fun a ha b hb e => hn ?_⟩
      rwa [← List.mem_singleton.mp hb, ← e]
  case cache e =>
    rcases Table.of_getElem?_modify (e ▸ ht) with ht | ⟨t', ht', rfl⟩
    case inl => exact h n t ht
    case inr => exact h n t' ht'

theorem allDistinct_run (cs : List Call) : (({} : Store).run cs).AllDistinct := by
  apply run_induction cs
  case start => exact fun n t h => absurd h (by simp)
  case step => exact fun σ c p h hp => h.preserved (step_of_plan hp).definitionStep

end Store

end GraphSchema
