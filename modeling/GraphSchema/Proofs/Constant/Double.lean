import GraphSchema.Number.Double
import GraphSchema.Proofs.Constant.Numeric

namespace GraphSchema.Double

variable {x : Double} {c : Nat} {k : Int}

theorem fraction_lt (x : Double) : x.fraction < 2 ^ 52 := Nat.mod_lt _ (by decide)

theorem significand_pos (hf : x.isFinite) (hz : x.isZero = false) : 0 < x.significand := by
  simp only [isZero, hf, Bool.true_and, beq_eq_false_iff_ne] at hz
  exact Nat.pos_of_ne_zero hz

theorem log2_significand_le (h : 0 < x.significand) : x.significand.log2 ≤ 52 := by
  have hf := x.fraction_lt
  have hs : x.significand < 2 ^ 53 := by
    unfold significand hiddenUnit
    split <;> omega
  have := (Nat.log2_lt h.ne').mpr hs
  omega

theorem exponent_le (x : Double) : x.exponent ≤ 972 := by
  have hb : x.biased < 2048 := Nat.mod_lt _ (by decide)
  unfold exponent
  omega

namespace Interval

variable {i : Interval}

theorem valueScale_pos (i : Interval) (k : Int) : 0 < i.valueScale k :=
  Nat.mul_pos (Nat.pow_pos (by decide)) (Nat.pow_pos (by decide))

theorem pointScale_pos (i : Interval) (k : Int) : 0 < i.pointScale k :=
  Nat.mul_pos (Nat.pow_pos (by decide)) (Nat.pow_pos (by decide))

theorem contains_zero (h : 0 < i.low) (k : Int) : i.contains 0 k = false := by
  have hl : 0 < i.low * i.valueScale k := Nat.mul_pos h (i.valueScale_pos k)
  unfold contains
  split <;> simp [hl.ne']

theorem contains_of_pick (h : i.pick k = some c) : i.contains c k := by
  simp only [pick] at h
  split at h
  case h_1 hc _ | h_2 _ hc =>
    exact Option.some.inj h ▸ hc
  case h_3 hc hc' =>
    split at h
    · exact Option.some.inj h ▸ hc
    · exact Option.some.inj h ▸ hc'
  case h_4 => exact nomatch h

theorem ne_zero_of_pick (h : 0 < i.low) (hp : i.pick k = some c) : c ≠ 0 := by
  rintro rfl
  exact absurd (contains_of_pick hp) (by simp [contains_zero h])

-- A coefficient of zero is only found where the search gives up.
theorem search_cases (h : 0 < i.low) (fuel : Nat) (k : Int) :
    (i.search fuel k).1 ≠ 0 ∨ i.search fuel k =
      (i.mid * i.valueScale (k - fuel) / i.pointScale (k - fuel), k - fuel) := by
  induction fuel generalizing k
  case zero => exact .inr (by simp [search])
  case succ fuel hi =>
    rw [search]
    split
    case h_1 hp => exact .inl (ne_zero_of_pick h hp)
    case h_2 =>
      have e : k - 1 - fuel = k - (fuel + 1 : Nat) := by omega
      exact e ▸ hi (k - 1)

end Interval

theorem low_pos (h : 0 < x.significand) : 0 < x.interval.low := by
  simp only [interval]
  split <;> omega

-- Where the search gives up, the grid is still finer than the number, as long as its step is
-- at least one. Ten to the third is less than two to the tenth.
theorem pointScale_le (h : 0 < x.significand) (hk : 0 < k)
    (ht : k ≤ (x.significand.log2 + x.exponent) * 30103 / 100000 - 22) :
    x.interval.pointScale k ≤ x.interval.mid * x.interval.valueScale k := by
  have hl := log2_significand_le h
  have he := x.exponent_le
  obtain ⟨m, hm⟩ : ∃ m : Nat, m = (x.significand.log2 + x.exponent) / 10 :=
    ⟨((x.significand.log2 + x.exponent) / 10).toNat, by omega⟩
  have hk3 : k.toNat ≤ 3 * m := by omega
  have ten : 10 ^ k.toNat ≤ 2 ^ (10 * m) := calc
    10 ^ k.toNat ≤ 10 ^ (3 * m) := Nat.pow_le_pow_right (by decide) hk3
    _ = (10 ^ 3) ^ m := Nat.pow_mul ..
    _ ≤ (2 ^ 10) ^ m := Nat.pow_le_pow_left (by decide) m
    _ = 2 ^ (10 * m) := (Nat.pow_mul ..).symm
  have two : 10 * m + (2 - x.exponent).toNat ≤
      x.significand.log2 + 2 + (x.exponent - 2).toNat := by omega
  have hz : (-k).toNat = 0 := by omega
  have hn : -(x.exponent - 2) = 2 - x.exponent := by omega
  simp only [Interval.pointScale, Interval.valueScale, interval, hz, hn]
  calc
    10 ^ k.toNat * 2 ^ (2 - x.exponent).toNat
      ≤ 2 ^ (10 * m) * 2 ^ (2 - x.exponent).toNat := Nat.mul_le_mul_right _ ten
    _ = 2 ^ (10 * m + (2 - x.exponent).toNat) := (Nat.pow_add ..).symm
    _ ≤ 2 ^ (x.significand.log2 + 2 + (x.exponent - 2).toNat) :=
      Nat.pow_le_pow_right (by decide) two
    _ = 2 ^ x.significand.log2 * 4 * 2 ^ (x.exponent - 2).toNat := by rw [Nat.pow_add, Nat.pow_add]
    _ ≤ x.significand * 4 * 2 ^ (x.exponent - 2).toNat :=
      Nat.mul_le_mul_right _ (Nat.mul_le_mul_right _ (Nat.log2_self_le h.ne'))
    _ = _ := by simp [Nat.mul_comm]

theorem shortest_cases (hf : x.isFinite) (hz : x.isZero = false) :
    x.shortest.1 ≠ 0 ∨ x.shortest.2 ≤ 0 := by
  have hs := significand_pos hf hz
  have ⟨top, ht⟩ : ∃ top, top = ((x.significand.log2 : Int) + x.exponent) * 30103 / 100000 + 2 :=
    ⟨_, rfl⟩
  have e : x.shortest = x.interval.search 24 top := ht ▸ rfl
  rw [e]
  rcases Interval.search_cases (low_pos hs) 24 top with hc | h
  case inl => exact .inl hc
  case inr =>
    rw [h]
    by_cases hk : top - 24 ≤ 0
    case pos => exact .inr hk
    case neg =>
      have hp := pointScale_le hs (k := top - 24) (by omega) (by omega)
      exact .inl (Nat.div_pos hp (x.interval.pointScale_pos _)).ne'

-- How the digits are written down.

open Decimal

theorem isFraction_zero : IsFraction ['.', '0'] :=
  .mk (List.forall_mem_singleton.mpr rfl) (List.cons_ne_nil '0' [])

theorem isExponent_exponentText (e : Int) : IsExponent (exponentText e).toList := by
  have hs : ∃ s, (s = [] ∨ s = ['+'] ∨ s = ['-']) ∧
      (if e < 0 then "e-" else "e+").toList = 'e' :: s := by
    split
    · exact ⟨['-'], .inr (.inr rfl), rfl⟩
    · exact ⟨['+'], .inr (.inl rfl), rfl⟩
  have ⟨s, hs, he⟩ := hs
  have hd : ∀ c ∈ (if e.natAbs < 10 then "0" else "").toList ++ Nat.toDigits 10 e.natAbs,
      c.isDigit := by
    refine List.forall_mem_append.mpr ⟨?_, fun _ => isDigit_of_mem_toDigits⟩
    split <;> simp
  have hn : (if e.natAbs < 10 then "0" else "").toList ++ Nat.toDigits 10 e.natAbs ≠ [] :=
    List.append_ne_nil_of_right_ne_nil _ Nat.toDigits_ne_nil
  have h := IsExponent.mk (.inl rfl) hs hd hn
  simpa [exponentText, he, Nat.toList_repr] using h

theorem isWhole_zeros (h : c ≠ 0 ∨ k ≤ 0) :
    IsWhole (Nat.toDigits 10 c ++ List.replicate k.toNat '0') where
  digits := List.forall_mem_append.mpr
    ⟨fun _ => isDigit_of_mem_toDigits, fun _ hd => List.eq_of_mem_replicate hd ▸ rfl⟩
  ne_nil := List.append_ne_nil_of_left_ne_nil Nat.toDigits_ne_nil _
  leading hh := by
    rw [List.head?_append_of_ne_nil _ Nat.toDigits_ne_nil] at hh
    have hc := head_toDigits c hh
    have hk : k.toNat = 0 := by omega
    simp [hc, hk]

theorem isNumber_numeral {n : Numeral} (hn : n.Valid) (hp : n.power = none) {e : List Char}
    (he : e = [] ∨ IsExponent e) (negative : Bool) :
    IsNumber ((Decimal.sign negative).toList ++ (n.text ++ e)) := by
  have h := isNumber_append (isInteger_sign negative hn.isWhole)
    (isFraction_point hn.places_digits) he
  simpa [Numeral.text, hp, Numeral.scale] using h

theorem isNumber_magnitudeText (h : c ≠ 0 ∨ k ≤ 0) (negative : Bool) :
    IsNumber ((Decimal.sign negative).toList ++ (magnitudeText c k).toList) := by
  have hw : (toString c).length = Numeral.width c := by
    rw [← String.length_toList, Numeral.width, Nat.toString_eq_repr, Nat.toList_repr]
  have hp := Numeral.width_pos (c := c)
  have positional {n : Numeral} (hn : n.Valid) (hp : n.power = none) :
      IsNumber ((Decimal.sign negative).toList ++ n.text) := by
    simpa using isNumber_numeral hn hp (.inl rfl) negative
  simp only [magnitudeText, hw]
  split
  case isTrue =>
    split
    case isTrue =>
      have hn := isNumber_append (isInteger_sign negative (isWhole_zeros h)) (.inr isFraction_zero)
        (.inl rfl)
      simpa [zeros, Nat.toList_repr] using hn
    case isFalse =>
      split
      case isTrue =>
        have hk : (k + Numeral.width c - 1 + 1).toNat < Numeral.width c := by omega
        have ht := Numeral.text_split (p := none) hk
        simp only [Numeral.scale, List.append_nil] at ht
        exact ht ▸ positional (Numeral.valid_split (by omega)) rfl
      case isFalse => exact Numeral.text_small ▸ positional Numeral.valid_small rfl
  case isFalse =>
    have he := isExponent_exponentText (k + Numeral.width c - 1)
    have hn := isNumber_numeral (Numeral.valid_split (c := c) (p := none) Nat.one_pos) rfl (.inr he)
      negative
    split
    case isTrue h1 => simpa [Numeral.text_split_all h1.symm, Numeral.scale] using hn
    case isFalse h1 =>
      simpa [Numeral.text_split (by omega : 1 < Numeral.width c), Numeral.scale] using hn

theorem isNumber_toText (h : x.isFinite) : IsNumber x.toText.toList := by
  have hn : x.isNaN = false := by
    simp only [isFinite, bne_iff_ne] at h
    simp [isNaN, h]
  rw [toText, hn, if_neg Bool.false_ne_true, h, Bool.not_true, if_neg Bool.false_ne_true]
  split
  case isTrue =>
    have hn := isNumber_append (isInteger_sign x.negative (isWhole_toDigits 0))
      (.inr isFraction_zero) (.inl rfl)
    simpa using hn
  case isFalse hz =>
    rw [String.toList_append]
    exact isNumber_magnitudeText (shortest_cases h (by simpa using hz)) x.negative

end GraphSchema.Double
