import GraphSchema.Proofs.Printing.Paragraph

namespace GraphSchema

open Decoding

-- A name without a line break behind it. Two values of an enum with one between them would leave a
-- blank line in its block.
def IsWord (s : String) : Prop := Name.isWord s.toList

instance (s : String) : Decidable (IsWord s) := inferInstanceAs <| Decidable (_ = true)

variable {w : String} {v : List Char}

namespace IsWord

theorem isPart (h : IsWord w) : ∀ c ∈ w.toList, Name.isPart c :=
  List.all_eq_true.mp (Name.all_isPart h)

theorem eq_cons (h : IsWord w) :
    ∃ c cs, w.toList = c :: cs ∧ Name.isStart c ∧ ∀ d ∈ cs, Name.isPart d := by
  unfold IsWord at h
  cases hw : w.toList
  case nil => simp [hw, Name.isWord] at h
  case cons c cs =>
    simp only [hw, Name.isWord, Bool.and_eq_true, List.all_eq_true] at h
    exact ⟨c, cs, rfl, h.left, h.right⟩

end IsWord

theorem Name.toNat_of_isStart {c : Char} (h : isStart c) : 65 ≤ c.toNat ∧ c.toNat ≤ 122 := by
  delta isStart Char.isAlpha Char.isUpper Char.isLower at h
  simp only [Bool.or_eq_true, beq_iff_eq, Bool.and_eq_true, decide_eq_true_eq, ge_iff_le,
    UInt32.le_iff_toNat_le] at h
  rcases h with rfl | ⟨ha, hz⟩ | ⟨ha, hz⟩
  · decide
  · exact ⟨ha, Nat.le_trans hz (by decide)⟩
  · exact ⟨Nat.le_trans (by decide) ha, hz⟩

theorem Name.isBlank_of_isStart {c : Char} (h : isStart c) : isBlank c = false := by
  have hc := toNat_of_isStart h
  simp only [isBlank, Blank.ranges, List.any_cons, List.any_nil, Bool.or_false,
    Bool.or_eq_false_iff, Bool.and_eq_false_imp, decide_eq_true_eq, decide_eq_false_iff_not]
  omega

-- Lines that stand one below the other in a block.

structure IsRow (v : List Char) : Prop where
  continued : Continued v
  solid : Solid v
  head : ∃ c cs, v = c :: cs ∧ c ≠ ':' ∧ c ≠ '\x7d'

theorem IsWord.isRow (h : IsWord w) (hv : Continued v) : IsRow (w.toList ++ v) := by
  have ⟨c, cs, e, hc, hcs⟩ := h.eq_cons
  have hl : Continued (cs ++ v) := .append (.oneLine fun hm => Name.ne_newline (hcs _ hm) rfl) hv
  have ne {d : Char} (hd : Name.isStart d = false) : c ≠ d := by
    rintro rfl
    exact absurd hc (by simp [hd])
  rw [e, List.cons_append]
  exact ⟨.char (ne rfl) hl, hl.solid (Name.isBlank_of_isStart hc), c, cs ++ v, rfl, ne rfl, ne rfl⟩

theorem IsRow.indent (h : IsRow v) {u : List Char} (hu : ∀ c ∈ u, c = ' ') : IsRow (u ++ v) := by
  induction u
  case nil => exact h
  case cons c u hi =>
    have ⟨hc, hu⟩ := List.forall_mem_cons.mp hu
    have ⟨hl, hs, _⟩ := hi hu
    subst hc
    exact ⟨.char (by decide) hl, hs.cons (by decide), ' ', u ++ v, rfl, by decide, by decide⟩

section

variable {α : Type} {text : α → String} {P : α → Prop} {as bs : List α} {h k : String}

def rows (text : α → String) (as : List α) : List Char :=
  as.flatMap fun a => '\n' :: (text a).toList

def closing : List Char := ['\n', '\x7d']

-- Lines that tell what they are printed for.
structure Rows (text : α → String) (P : α → Prop) : Prop where
  isRow : ∀ a, P a → IsRow (text a).toList
  inj : ∀ a b, P a → P b → text a = text b → a = b

theorem toList_block (h : String) (hn : as ≠ []) :
    (block h (as.map text)).toList = h.toList ++ ' ' :: '\x7b' :: (rows text as ++ closing) := by
  have ⟨a, as, e⟩ := List.exists_cons_of_ne_nil hn
  simp only [e, block, List.map_cons, String.toList_append, Decoding.toList_intercalate, rows]
  simp [closing, List.flatMap_map]

namespace Rows

theorem solid_append (hr : Rows text P) (ha : ∀ a ∈ as, P a) (hv : Solid v) :
    Solid (v ++ (rows text as ++ closing)) := by
  induction as generalizing v
  case nil => exact hv.append_line (by decide)
  case cons a as hi =>
    have ⟨pa, pas⟩ := List.forall_mem_cons.mp ha
    simpa [rows] using hi pas (hv.append_line (hr.isRow a pa).solid)

theorem solid_block (hr : Rows text P) (ha : ∀ a ∈ as, P a) (na : as ≠ []) {c : Char}
    {cs : List Char} (e : h.toList = c :: cs) (hc : isBlank c = false) (hh : Continued h.toList) :
    Solid (block h (as.map text)).toList := by
  have brace : Continued [' ', '\x7b'] := .oneLine (by decide)
  rw [e] at hh
  cases hh
  case line => exact absurd hc (by decide)
  case char hh =>
    rw [toList_block h na, e]
    simpa using hr.solid_append ha ((hh.append brace).solid hc)

end Rows

end

end GraphSchema
