import GraphSchema.Proofs.Constant.Number

namespace GraphSchema

namespace Decoding

-- What ends nothing: no quote, no parenthesis and no line break.
def isPlain (c : Char) : Bool := c != '"' && c != ')' && c != '\n'

def Plain (s : String) : Prop := ∀ c ∈ s.toList, isPlain c

instance (s : String) : Decidable (Plain s) :=
  decidable_of_iff (s.toList.all isPlain) List.all_eq_true

variable {s t : String}

namespace Plain

theorem append (hs : Plain s) (ht : Plain t) : Plain (s ++ t) := by
  intro c hc
  rw [String.toList_append, List.mem_append] at hc
  exact hc.elim (hs c) (ht c)

theorem ofList {cs : List Char} (h : ∀ c ∈ cs, isPlain c) : Plain (String.ofList cs) := by
  rwa [Plain, String.toList_ofList]

end Plain

theorem isPlain_of_isAlphanum {c : Char} (h : c.isAlphanum) : isPlain c := by
  simp only [isPlain, Bool.and_eq_true, bne_iff_ne]
  refine ⟨⟨?_, ?_⟩, ?_⟩ <;> rintro rfl <;> exact absurd h (by decide)

theorem plain_of_isWord {s : String} (h : Name.isWord s.toList) : Plain s := by
  intro c hc
  rcases Bool.or_eq_true_iff.mp (List.all_eq_true.mp (Name.all_isPart h) c hc) with hu | ha
  case inl => exact beq_iff_eq.mp hu ▸ rfl
  case inr => exact isPlain_of_isAlphanum ha

theorem plain_nat (n : Nat) : Plain (toString n) := by
  intro c hc
  rw [Nat.toString_eq_repr, Nat.toList_repr] at hc
  have hd : c.isDigit := Decimal.isDigit_of_mem_toDigits hc
  exact isPlain_of_isAlphanum (by simp [Char.isAlphanum, hd])

end Decoding

open Decoding

namespace Decimal

theorem plain_sign (negative : Bool) : Plain (sign negative) := by
  cases negative <;> decide

theorem plain_zeros (n : Nat) : Plain (zeros n) :=
  .ofList fun _ hc => List.eq_of_mem_replicate hc ▸ rfl

theorem plain_pointAfter {n : Nat} {s : String} (h : Plain s) : Plain (pointAfter n s) :=
  ((Plain.ofList fun c hc => h c (List.mem_of_mem_take hc)).append (by decide)).append
    (.ofList fun c hc => h c (List.mem_of_mem_drop hc))

theorem plain_int (n : Int) : Plain (toString n) := by
  have h : toString n = sign (n < 0) ++ toString n.natAbs := by
    apply String.toList_inj.mp
    rw [Int.toString_eq_repr, toList_repr, String.toList_append, Nat.toString_eq_repr,
      Nat.toList_repr]
  exact h ▸ (plain_sign _).append (plain_nat _)

theorem plain_signed (n : Int) : Plain (signed n) := by
  unfold signed
  split
  case isTrue => exact plain_int n
  case isFalse => exact .append (by decide) (plain_int n)

theorem plain_finiteText (c : Nat) (e : Int) : Plain (finiteText c e) := by
  have hn := plain_nat c
  unfold finiteText
  simp only
  split
  case isTrue =>
    split
    case isTrue => exact .append (.append (by decide) (plain_zeros _)) hn
    case isFalse =>
      split
      case isTrue => exact hn
      case isFalse => exact plain_pointAfter hn
  case isFalse =>
    refine .append (.append ?_ (by decide)) (plain_signed _)
    split
    case isTrue => exact hn
    case isFalse => exact plain_pointAfter hn

theorem plain_toText (d : Decimal) : Plain d.toText := by
  cases d
  case finite n c e => exact (plain_sign n).append (plain_finiteText c e)
  case infinite n => exact (plain_sign n).append (by decide)
  case notANumber n s p _ =>
    refine ((plain_sign n).append ?_).append ?_
    · cases s <;> decide
    · split
      case isTrue => decide
      case isFalse => exact plain_nat p

end Decimal

namespace Double

theorem plain_exponentText (e : Int) : Plain (exponentText e) := by
  refine .append (.append ?_ ?_) (plain_nat _) <;> split <;> decide

theorem plain_magnitudeText (c : Nat) (k : Int) : Plain (magnitudeText c k) := by
  have hn := plain_nat c
  unfold magnitudeText
  simp only
  split
  case isTrue =>
    split
    case isTrue => exact .append (.append hn (Decimal.plain_zeros _)) (by decide)
    case isFalse =>
      split
      case isTrue => exact Decimal.plain_pointAfter hn
      case isFalse => exact .append (.append (by decide) (Decimal.plain_zeros _)) hn
  case isFalse =>
    refine .append ?_ (plain_exponentText _)
    split
    case isTrue => exact hn
    case isFalse => exact Decimal.plain_pointAfter hn

theorem plain_toText (x : Double) : Plain x.toText := by
  have hs := Decimal.plain_sign x.negative
  unfold toText
  split
  case isTrue => decide
  case isFalse =>
    split
    case isTrue => exact hs.append (by decide)
    case isFalse =>
      split
      case isTrue => exact hs.append (by decide)
      case isFalse => exact hs.append (plain_magnitudeText _ _)

end Double

end GraphSchema
