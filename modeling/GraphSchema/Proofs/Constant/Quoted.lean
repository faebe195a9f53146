import GraphSchema.Text.Quoted
import GraphSchema.Proofs.Constant.Token

namespace GraphSchema.Quoted

theorem hexValue?_hexDigit (n : Nat) : hexValue? (hexDigit n) = some (n % 16) := by
  have h : ∀ d < 16, hexValue? (Nat.digitChar d) = some d := by decide
  exact h (n % 16) (Nat.mod_lt n (by decide))

variable {c : Char} {cs rest : List Char}

theorem unit?_hex {n : Nat} (h : n < 0x10000) : unit? (hex n ++ rest) = some (n, rest) := by
  have hn : 16 * (16 * (16 * (n / 4096 % 16) + n / 256 % 16) + n / 16 % 16) + n % 16 = n := by omega
  simp [hex, unit?, hexValue?_hexDigit, hn]

theorem toNat_cases (c : Char) :
    c.toNat < 0xD800 ∨ 0xDFFF < c.toNat ∧ c.toNat < 0x110000 := by
  simpa [UInt32.isValidChar, Nat.isValidChar] using c.valid

theorem char?_unit (h : c.toNat < 0x10000) : char? (unit c.toNat ++ rest) = some (c, rest) := by
  have hc := toNat_cases c
  have hh : isHigh c.toNat = false := by simp [isHigh]; omega
  have hl : isLow c.toNat = false := by simp [isLow]; omega
  simp [unit, char?, units?, unit?_hex h, hh, hl]

theorem char?_pair {n : Nat} (h : c.toNat = 0x10000 + n) :
    char? (unit (0xD800 + n / 0x400) ++ unit (0xDC00 + n % 0x400) ++ rest) = some (c, rest) := by
  have hc := toNat_cases c
  have hh : isHigh (0xD800 + n / 0x400) := by simp [isHigh]; omega
  have hl : isLow (0xDC00 + n % 0x400) := by simp [isLow]; omega
  have hn : 0x10000 + 0x400 * (n / 0x400) + n % 0x400 = c.toNat := by omega
  have hu {cs} : unit? (hex (0xD800 + n / 0x400) ++ cs) = some (_, cs) := unit?_hex (by omega)
  have hw {cs} : unit? (hex (0xDC00 + n % 0x400) ++ cs) = some (_, cs) := unit?_hex (by omega)
  simp [unit, char?, units?, hu, hw, hh, hl, hn]

theorem char?_units : char? (units c ++ rest) = some (c, rest) := by
  simp only [units]
  split
  case isTrue h => exact char?_unit h
  case isFalse h => exact char?_pair (by omega)

-- Printable ASCII.
def IsAscii (c : Char) : Prop := ' ' ≤ c ∧ c ≤ '~'

instance : DecidablePred IsAscii := fun _ => inferInstanceAs (Decidable (_ ∧ _))

theorem IsAscii.isLineEnd (h : IsAscii c) : isLineEnd c = false := by
  rw [Quoted.isLineEnd, Bool.or_eq_false_iff, beq_eq_false_iff_ne, beq_eq_false_iff_ne]
  constructor <;> rintro rfl <;> exact absurd h (by decide)

-- A character is written by its short escape, as itself or in units.
theorem escape_cases (c : Char) :
    (∃ e, short? e = some c ∧ e ≠ 'u' ∧ escape c = ['\\', e]) ∨
    (escape c = [c] ∧ c ≠ '"' ∧ c ≠ '\\' ∧ IsAscii c) ∨ escape c = units c := by
  unfold escape
  split
  case h_8 hq hb _ _ _ _ _ =>
    split
    case isTrue ha => exact .inr (.inl ⟨rfl, hq, hb, ha⟩)
    case isFalse => exact .inr (.inr rfl)
  all_goals exact .inl ⟨_, rfl, by decide, rfl⟩

theorem char?_escape : char? (escape c ++ rest) = some (c, rest) := by
  rcases escape_cases c with ⟨e, he, hu, hc⟩ | ⟨hc, hq, hb, ha⟩ | hc
  case inl => simp [hc, char?, he]
  case inr.inl => simp [hc, char?, hq, hb, ha.isLineEnd]
  case inr.inr => rw [hc, char?_units]

-- The quote itself is escaped, so the text does not end early.
theorem escape_eq_cons (c : Char) : ∃ a as, escape c = a :: as ∧ a ≠ '"' := by
  rcases escape_cases c with ⟨e, _, _, hc⟩ | ⟨hc, hq, _⟩ | hc
  case inl => exact ⟨_, _, hc, by decide⟩
  case inr.inl => exact ⟨_, _, hc, hq⟩
  case inr.inr =>
    rw [hc]
    simp only [units]
    split <;> exact ⟨_, _, rfl, by decide⟩

theorem escape_ne_nil : escape c ≠ [] := by
  have ⟨_, _, hc, _⟩ := escape_eq_cons c
  simp [hc]

theorem turn?_escape : turn? (escape c ++ rest) = some (.take c rest) := by
  have hr : char? (escape c ++ rest) = some (c, rest) := char?_escape
  have ⟨a, as, hc, ha⟩ := escape_eq_cons c
  rw [hc, List.cons_append] at hr ⊢
  simp [turn?, ha, hr]

-- A reader that ends at a quote and takes each character by its escape reads what was encoded.
theorem scan_encode {turn? : List Char → Option (Turn Char)}
    (stop : ∀ rest, turn? ('"' :: rest) = some (.stop rest))
    (take : ∀ c rest, turn? (escape c ++ rest) = some (.take c rest)) :
    scan turn? 0 (encode cs ++ '"' :: rest) = some (cs, rest) := by
  induction cs
  case nil => exact Scan.scan_stop (stop rest)
  case cons c cs hi =>
    rw [encode_cons, List.append_assoc, Scan.scan_take escape_ne_nil (take c _), hi]
    rfl

theorem decode?_encode : decode? (encode cs ++ '"' :: rest) = some (cs, rest) :=
  scan_encode (fun _ => rfl) fun _ _ => turn?_escape

end GraphSchema.Quoted
