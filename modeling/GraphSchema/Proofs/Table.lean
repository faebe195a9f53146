namespace GraphSchema.Table

variable {α : Type} {as bs : Array α} {n i : Nat} {a b : α} {g : α → α}

theorem getElem?_push (h : as[n]? = some a) : (as.push b)[n]? = some a := by
  have hn : n < as.size := (Array.getElem?_eq_some_iff.mp h).choose
  rw [Array.getElem?_push_lt hn, ← Array.getElem?_eq_getElem hn, h]

theorem getElem?_append (h : as[n]? = some a) : (as ++ bs)[n]? = some a := by
  rw [Array.getElem?_append_left (Array.getElem?_eq_some_iff.mp h).choose, h]

-- What is found was there before, or is what was added or changed.

theorem getElem?_push_cases (h : (as.push b)[n]? = some a) :
    as[n]? = some a ∨ n = as.size ∧ a = b := by
  rw [Array.getElem?_push] at h
  split at h
  case isTrue hn => exact .inr ⟨hn, (Option.some.inj h).symm⟩
  case isFalse => exact .inl h

theorem of_getElem?_push (h : (as.push b)[n]? = some a) : as[n]? = some a ∨ a = b :=
  (getElem?_push_cases h).imp_right And.right

theorem of_getElem?_modify (h : (as.modify i g)[n]? = some a) :
    as[n]? = some a ∨ ∃ b, as[n]? = some b ∧ a = g b := by
  rw [Array.getElem?_modify] at h
  split at h
  case isTrue =>
    have ⟨b, hb, e⟩ := Option.map_eq_some_iff.mp h
    exact .inr ⟨b, hb, e.symm⟩
  case isFalse => exact .inl h

-- What was added last can be changed before it is added as well.
theorem modify_push (as : Array α) (a : α) (g : α → α) :
    (as.push a).modify as.size g = as.push (g a) := by
  apply Array.ext_getElem?
  intro i
  rw [Array.getElem?_modify, Array.getElem?_push, Array.getElem?_push]
  by_cases h : i = as.size
  case pos => simp [h]
  case neg => rw [if_neg (Ne.symm h), if_neg h, if_neg h]

-- What was added is counted on from the size of the table before.
theorem modify_append (as : Array α) (bs : List α) (k : Nat) (g : α → α) :
    (as ++ bs.toArray).modify (as.size + k) g = as ++ (bs.modify k g).toArray := by
  apply Array.ext_getElem?
  intro i
  rw [Array.getElem?_modify, Array.getElem?_append, Array.getElem?_append]
  by_cases h : i < as.size
  case pos =>
    have hk : as.size + k ≠ i := by omega
    rw [if_neg hk, if_pos h, if_pos h]
  case neg =>
    obtain ⟨j, rfl⟩ := Nat.exists_eq_add_of_le (Nat.le_of_not_lt h)
    rw [if_neg h, if_neg h, Nat.add_sub_cancel_left]
    by_cases hk : k = j <;> simp [hk]

-- All that is in the first table is in the second one, at the same places.
def Within (as bs : Array α) : Prop := ∀ (n : Nat) (a : α), as[n]? = some a → bs[n]? = some a

theorem within_refl (as : Array α) : Within as as := fun _ _ h => h

theorem within_push : Within as (as.push b) := fun _ _ => getElem?_push

theorem within_append : Within as (as ++ bs) := fun _ _ => getElem?_append

end GraphSchema.Table
