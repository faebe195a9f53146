import GraphSchema.Proofs.Constant.Quoted

namespace GraphSchema

-- A character, or one half of a surrogate pair.
inductive CodePoint
  | char (c : Char)
  | half (n : Fin 0x800)
  deriving DecidableEq

namespace Quoted

-- A half is written as the unit that it is.
def point : CodePoint → List Char
  | .char c => escape c
  | .half n => unit (0xD800 + n)

def quotePoints (ps : List CodePoint) : String := String.ofList ('"' :: ps.flatMap point ++ ['"'])

variable {c : Char}

theorem escape_of_wide (h : 0x10000 ≤ c.toNat) : escape c = units c := by
  unfold escape
  split
  case h_8 =>
    refine if_neg fun ha => ?_
    have small : c.toNat ≤ '~'.toNat := ha.right
    exact absurd (Nat.le_trans h small) (by decide)
  all_goals exact absurd h (by decide)

-- A character that takes two units is written like two halves one after the other.
theorem exists_halves (h : 0x10000 ≤ c.toNat) : ∃ m n : Fin 0x800,
    quotePoints [.half m, .half n] = quotePoints [.char c] := by
  have valid := toNat_cases c
  have high : (c.toNat - 0x10000) / 0x400 < 0x800 := by omega
  have low : 0x400 + (c.toNat - 0x10000) % 0x400 < 0x800 := by omega
  refine ⟨⟨_, high⟩, ⟨_, low⟩, ?_⟩
  have e : 0xD800 + (0x400 + (c.toNat - 0x10000) % 0x400) =
      0xDC00 + (c.toNat - 0x10000) % 0x400 := by omega
  simp only [quotePoints, List.flatMap_cons, List.flatMap_nil, point, escape_of_wide h, units,
    if_neg (Nat.not_lt.mpr h), e, List.append_nil]

end Quoted

end GraphSchema
