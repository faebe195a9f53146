import GraphSchema.Field.Kind

namespace GraphSchema

namespace NodeKind

-- The directives that have a fixed order, and the ways in which the other two can follow them.
def ordered : List NodeKind := [length, unique, default, search]

def endings : List (List NodeKind) := [[], [auth], [cache], [auth, cache], [cache, auth]]

def rank : NodeKind → Nat
  | scalar => 0
  | length => 1
  | unique => 2
  | default => 3
  | search => 4
  | auth | cache => 5

theorem mem_wraps_iff {j k : NodeKind} : j ∈ k.wraps ↔ j ≠ k ∧ j.rank ≤ k.rank := by
  cases j <;> cases k <;> decide

-- What may stand somewhere below a node, not only right below it.
def MayPrecede (j k : NodeKind) : Prop := j ≠ k ∧ j.rank ≤ k.rank

instance : DecidableRel MayPrecede := fun _ _ => inferInstanceAs <| Decidable (_ ∧ _)

theorem leafOnly_of_mem_ordered {k : NodeKind} (h : k ∈ ordered) : k.leafOnly := by
  cases k <;> first | rfl | exact absurd h (by decide)

theorem pairwise_ordered :
    ∀ ending ∈ endings, (scalar :: ordered ++ ending).Pairwise MayPrecede := by
  decide

theorem leafOnly_of_mem_ending : ∀ ending ∈ endings, ∀ k ∈ ending, k.leafOnly = false := by
  decide

-- No ending can stand below a directive that has its place in the order, and of the other two
-- directives the one that is not there yet can always follow.

theorem ending_eq_nil : ∀ k ∈ ordered, ∀ ending ∈ endings,
    (∀ j ∈ ending, MayPrecede j k) → ending = [] := by
  decide

theorem append_mem_endings : ∀ k ∈ [auth, cache], ∀ ending ∈ endings,
    (∀ j ∈ ending, MayPrecede j k) → ending ++ [k] ∈ endings := by
  decide

end NodeKind

open NodeKind

-- The core, then some of the ordered directives, then an ending. References to other types take
-- no directive that makes sense on values only.
def Grammatical (isReference : Bool) (ks : List NodeKind) : Prop :=
  ∃ inner ending, ks = scalar :: inner ++ ending ∧ inner.Sublist ordered ∧ ending ∈ endings ∧
    (isReference → inner = [])

namespace Grammatical

variable {r : Bool} {ks : List NodeKind} {k last : NodeKind}

theorem scalar (r : Bool) : Grammatical r [scalar] :=
  ⟨[], [], rfl, List.nil_sublist _, List.mem_cons_self, fun _ => rfl⟩

theorem pairwise : Grammatical r ks → ks.Pairwise MayPrecede
  | ⟨_, _, h, hi, he, _⟩ => by
    rw [h]
    exact (pairwise_ordered _ he).sublist <| (hi.cons_cons _).append (List.Sublist.refl _)

theorem leafOnly (h : Grammatical true ks) (hk : k ∈ ks) : k.leafOnly = false := by
  have ⟨inner, ending, e, _, he, hr⟩ := h
  simp only [e, hr rfl, List.cons_append, List.nil_append, List.mem_cons] at hk
  cases hk
  case inl hk => rw [hk]; rfl
  case inr hk => exact leafOnly_of_mem_ending ending he k hk

-- A longer sequence keeps to the grammar only if the node on top fits on everything below it.
theorem fits_of_append (h : Grammatical r (ks ++ [k])) (hl : ks.getLast? = some last) :
    last ∈ k.wraps ∧ k ∉ ks ∧ (k.leafOnly → r = false) := by
  have hp := (List.pairwise_append.mp h.pairwise).right.right
  have hm : last ∈ ks := List.mem_of_getLast? hl
  refine ⟨mem_wraps_iff.mpr (hp last hm k (List.mem_singleton_self k)), fun hk => ?_, fun hk => ?_⟩
  · exact (hp k hk k (List.mem_singleton_self k)).left rfl
  · cases r
    case false => rfl
    case true =>
      have := h.leafOnly (List.mem_append_right _ (List.mem_singleton_self k))
      simp [this] at hk

-- It is enough to look at the last node, and whether the new one is there already.
theorem mayPrecede_of_last (h : Grammatical r ks) (hl : ks.getLast? = some last)
    (hw : last ∈ k.wraps) (hn : k ∉ ks) {j : NodeKind} (hj : j ∈ ks) : MayPrecede j k := by
  refine ⟨fun e => hn (e ▸ hj), ?_⟩
  have hlk : last.rank ≤ k.rank := (mem_wraps_iff.mp hw).right
  have ⟨below, e⟩ := List.getLast?_eq_some_iff.mp hl
  have hp := (List.pairwise_append.mp (e ▸ h.pairwise)).right.right
  rw [e, List.mem_append, List.mem_singleton] at hj
  cases hj
  case inl hj => exact Nat.le_trans (hp j hj last (List.mem_singleton_self last)).right hlk
  case inr hj => exact hj ▸ hlk

-- The directives in front of one that has its place in the order stay in order with it.
theorem sublist_append {inner : List NodeKind} (hk : k ∈ ordered) (hi : inner.Sublist ordered)
    (hp : ∀ j ∈ inner, MayPrecede j k) : (inner ++ [k]).Sublist ordered := by
  have hf : inner.filter (MayPrecede · k) = inner :=
    List.filter_eq_self.mpr fun j hj => decide_eq_true (hp j hj)
  have hs : (inner ++ [k]).Sublist (ordered.filter (MayPrecede · k) ++ [k]) :=
    (hf ▸ hi.filter _).append_right [k]
  refine hs.trans ?_
  cases k <;> first | decide | exact absurd hk (by decide)

theorem append (h : Grammatical r ks) (hp : ∀ j ∈ ks, MayPrecede j k)
    (hr : k.leafOnly → r = false) : Grammatical r (ks ++ [k]) := by
  have ⟨inner, ending, e, hi, he, hin⟩ := h
  subst e
  have hs : MayPrecede .scalar k := hp _ List.mem_cons_self
  have hi' : ∀ j ∈ inner, MayPrecede j k := fun j hj => hp j (by simp [hj])
  have he' : ∀ j ∈ ending, MayPrecede j k := fun j hj => hp j (by simp [hj])
  by_cases hk : k ∈ ordered
  case pos =>
    cases ending_eq_nil k hk ending he he'
    refine ⟨inner ++ [k], [], by simp, sublist_append hk hi hi', by decide, fun h => ?_⟩
    simp [hr (leafOnly_of_mem_ordered hk)] at h
  case neg =>
    have hk : k ∈ [NodeKind.auth, .cache] := by
      cases k <;> first | decide | exact absurd hs (by decide) | exact absurd (by decide) hk
    exact ⟨inner, ending ++ [k], by simp, hi, append_mem_endings k hk ending he he', hin⟩

end Grammatical

end GraphSchema
