import GraphSchema.Proofs.Printing.Line
import GraphSchema.Text.Blank

namespace GraphSchema

variable {c : Char} {v w : List Char}

def isBlankLine (l : List Char) : Bool := l.all isBlank

-- No line is blank.
def Solid (cs : List Char) : Prop := ∀ l ∈ cs.splitOn '\n', isBlankLine l = false

instance (cs : List Char) : Decidable (Solid cs) :=
  inferInstanceAs <| Decidable (∀ l ∈ cs.splitOn '\n', isBlankLine l = false)

theorem isBlankLine_cons (c : Char) (l : List Char) :
    isBlankLine (c :: l) = (isBlank c && isBlankLine l) := List.all_cons

theorem splitOn_newline (v : List Char) : ('\n' :: v).splitOn '\n' = [] :: v.splitOn '\n' :=
  List.splitOn_append_cons_self [] v

theorem splitOn_cons (hc : c ≠ '\n') (v : List Char) :
    ∃ l ls, v.splitOn '\n' = l :: ls ∧ (c :: v).splitOn '\n' = (c :: l) :: ls := by
  have ⟨l, ls, e⟩ := List.exists_cons_of_ne_nil (List.splitOn_ne_nil '\n' v)
  refine ⟨l, ls, e, ?_⟩
  rw [List.splitOn_cons_eq_if_modifyHead, if_neg (by simpa using hc), e, List.modifyHead_cons]

namespace Solid

theorem append_line (hv : Solid v) (hw : Solid w) : Solid (v ++ '\n' :: w) := by
  rw [Solid, List.splitOn_append_cons_self]
  exact List.forall_mem_append.mpr ⟨hv, hw⟩

-- A line that is not blank is not blank with more in front of it either.
theorem cons (hc : c ≠ '\n') (h : Solid v) : Solid (c :: v) := by
  have ⟨l, ls, e, e'⟩ := splitOn_cons hc v
  rw [Solid, e, List.forall_mem_cons] at h
  rw [Solid, e', List.forall_mem_cons, isBlankLine_cons, h.left, Bool.and_false]
  exact ⟨rfl, h.right⟩

end Solid

namespace Continued

-- What starts with a colon is not blank.
theorem isBlankLine_of_mem_tail (h : Continued v) :
    ∀ l ∈ (v.splitOn '\n').tail, isBlankLine l = false := by
  induction h
  case nil => exact nofun
  case char cs hc _ hi =>
    have ⟨l, ls, e, e'⟩ := splitOn_cons hc cs
    rw [e, List.tail_cons] at hi
    rwa [e', List.tail_cons]
  case line cs _ hi =>
    have ⟨l, ls, e, e'⟩ := splitOn_cons (c := ':') (by decide) cs
    rw [e, List.tail_cons] at hi
    rw [splitOn_newline, List.tail_cons, e', List.forall_mem_cons]
    exact ⟨rfl, hi⟩

theorem solid (h : Continued v) (hc : isBlank c = false) : Solid (c :: v) := by
  have hn : c ≠ '\n' := by
    rintro rfl
    exact absurd hc (by decide)
  have ⟨l, ls, e, e'⟩ := splitOn_cons hn v
  have ht := h.isBlankLine_of_mem_tail
  rw [e, List.tail_cons] at ht
  rw [Solid, e', List.forall_mem_cons, isBlankLine_cons, hc, Bool.false_and]
  exact ⟨rfl, ht⟩

end Continued

end GraphSchema
