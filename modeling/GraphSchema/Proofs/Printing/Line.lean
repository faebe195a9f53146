import GraphSchema.Proofs.Decoding.Literal
import GraphSchema.Proofs.Quoted.Body
import GraphSchema.Store.Text

namespace GraphSchema

open Decoding

variable {v w r s : List Char}

-- Behind every line break stands a colon.
inductive Continued : List Char → Prop
  | nil : Continued []
  | char {c cs} (same : c ≠ '\n') : Continued cs → Continued (c :: cs)
  | line {cs} : Continued cs → Continued ('\n' :: ':' :: cs)

namespace Continued

theorem append (hv : Continued v) (hw : Continued w) : Continued (v ++ w) := by
  induction hv
  case nil => exact hw
  case char h _ hi => exact .char h hi
  case line hi => exact .line hi

theorem oneLine (h : '\n' ∉ v) : Continued v := by
  induction v
  case nil => exact .nil
  case cons c v hi =>
    rw [List.mem_cons, not_or] at h
    exact .char (Ne.symm h.left) (hi h.right)

end Continued

-- Literals go on like that.

theorem not_mem_quote (s : String) : '\n' ∉ (quote s).toList :=
  fun h => absurd (isAscii_of_mem_quote _ h) (by decide)

theorem Name.ne_newline {c : Char} (h : isPart c) : c ≠ '\n' := by
  rintro rfl
  exact absurd h (by decide)

namespace Continued

theorem of_isWord (h : Name.isWord v) : Continued v :=
  .oneLine fun hm => Name.ne_newline (List.all_eq_true.mp (Name.all_isPart h) _ hm) rfl

theorem compositional : Compositional Continued where
  plain h := .oneLine fun hm => absurd (h _ hm) (by decide)
  quoted s := .oneLine (not_mem_quote s)
  key {n} h := by
    rw [String.toList_append]
    simp only [isName, Name.accepts, Bool.or_eq_true, Bool.and_eq_true, beq_iff_eq] at h
    rcases h with h | ⟨hl, h⟩
    case inl => exact (of_isWord h).append (.oneLine (by decide))
    case inr =>
      rw [← List.dropLast_append_getLast? _ hl, List.append_assoc]
      exact (of_isWord h).append (.line (.char (by decide) .nil))
  append := append

end Continued

end GraphSchema
