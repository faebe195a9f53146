import GraphSchema.Proofs.Constant.Token
import Mathlib.Data.List.Basic

namespace GraphSchema.Decimal

-- Runs of digits.

section

variable {ds rest : List Char}

-- No digit comes first.
def EndsDigits (cs : List Char) : Prop := ∀ c ∈ cs.head?, c.isDigit = false

theorem endsDigits_of_endsBefore (h : endsBefore rest) : EndsDigits rest := by
  cases rest
  case nil => nofun
  case cons c cs =>
    rintro _ ⟨⟩
    simp only [endsBefore, Name.isPart, Char.isAlphanum, Bool.not_eq_true',
      Bool.or_eq_false_iff] at h
    exact h.left.right.right

theorem digits_append (hd : ∀ c ∈ ds, c.isDigit) (hr : EndsDigits rest) :
    digits (ds ++ rest) = ds := Scan.takeWhile_append hd hr

theorem afterDigits_append (hd : ∀ c ∈ ds, c.isDigit) (hr : EndsDigits rest) :
    afterDigits (ds ++ rest) = rest := Scan.dropWhile_append hd hr

end

-- The parts of a number as it is written.
structure Numeral where
  whole : List Char
  places : List Char
  power : Option Int

namespace Numeral

def point (places : List Char) : List Char := if places = [] then [] else '.' :: places

def scale : Option Int → List Char
  | none => []
  | some e => 'E' :: (signed e).toList

def text (n : Numeral) : List Char := n.whole ++ (point n.places ++ scale n.power)

def coefficient (n : Numeral) : Nat := value (n.whole ++ n.places)

def exponent (n : Numeral) : Int := n.power.getD 0 - n.places.length

structure Valid (n : Numeral) : Prop where
  whole_digits : ∀ c ∈ n.whole, c.isDigit
  places_digits : ∀ c ∈ n.places, c.isDigit
  whole_ne_nil : n.whole ≠ []
  -- A zero stands alone.
  leading : n.whole.head? = some '0' → n.whole = ['0']

end Numeral

open Numeral

variable {rest : List Char}

theorem isDigit_of_mem_toDigits {n : Nat} {c : Char} (h : c ∈ Nat.toDigits 10 n) : c.isDigit :=
  Nat.isDigit_of_mem_toDigits (by decide) (by decide) h

theorem value_toDigits (n : Nat) : value (Nat.toDigits 10 n) = n := Nat.ofDigitChars_ten_toDigits

theorem value_zeros_append (n : Nat) (ds : List Char) :
    value (List.replicate n '0' ++ ds) = value ds := by
  simp [value, Nat.ofDigitChars_append, Nat.ofDigitChars_replicate_zero]

theorem head_toDigits (n : Nat) : (Nat.toDigits 10 n).head? = some '0' → n = 0 := by
  induction n using Nat.strongRecOn
  case ind n hi =>
    rw [Nat.toDigits_eq_if (by decide)]
    split
    case isTrue h =>
      have hz : ∀ m < 10, Nat.digitChar m = '0' → m = 0 := by decide
      exact fun hc => hz n h (Option.some.inj hc)
    case isFalse h =>
      rw [List.head?_append_of_ne_nil _ Nat.toDigits_ne_nil]
      intro hh
      have := hi (n / 10) (by omega) hh
      omega

theorem toList_repr (n : Int) :
    n.repr.toList = (sign (n < 0)).toList ++ Nat.toDigits 10 n.natAbs := by
  rw [Int.repr_eq_if]
  split
  case isTrue h =>
    have hn : ¬ n < 0 := by omega
    have ha : n.toNat = n.natAbs := by omega
    simp [sign, hn, ha, Nat.toList_repr]
  case isFalse h =>
    have hn : n < 0 := by omega
    have ha : (-n).toNat = n.natAbs := by omega
    simp [sign, hn, ha, Nat.toList_repr]

theorem power?_scale {p : Option Int} (h : endsBefore rest) :
    power? (scale p ++ rest) = some (p.getD 0, rest) := by
  have hr := endsDigits_of_endsBefore h
  cases p
  case none =>
    cases rest
    case nil => rfl
    case cons c cs =>
      have he : ¬ (c = 'e' ∨ c = 'E') := by
        rintro (rfl | rfl) <;> exact nomatch h
      simp [scale, power?, he]
  case some e =>
    have hd := fun c => isDigit_of_mem_toDigits (n := e.natAbs) (c := c)
    have hs : takeSign ((signed e).toList ++ rest) =
        (decide (e < 0), Nat.toDigits 10 e.natAbs ++ rest) := by
      by_cases he : e < 0 <;> simp [signed, he, toList_repr, sign, takeSign]
    have hv : (if e < 0 then -1 else 1) * (e.natAbs : Int) = e := by split <;> omega
    simpa [scale, power?, hs, digits_append hd hr, afterDigits_append hd hr, value_toDigits]
      using hv

theorem places?_point {places : List Char} (hd : ∀ c ∈ places, c.isDigit)
    (h : EndsDigits rest) (hp : rest.head? ≠ some '.') :
    places? (point places ++ rest) = some (places, rest) := by
  unfold point
  split
  case isTrue hn =>
    subst hn
    cases rest
    case nil => rfl
    case cons c cs => simp_all [places?]
  case isFalse hn =>
    simp [places?, digits_append hd h, afterDigits_append hd h, hn]

theorem whole?_append {whole : List Char} (hd : ∀ c ∈ whole, c.isDigit) (hn : whole ≠ [])
    (hz : whole.head? = some '0' → whole = ['0']) (h : EndsDigits rest) :
    whole? (whole ++ rest) = some (whole, rest) := by
  have hc : ¬ (whole = [] ∨ whole.head? = some '0' ∧ whole ≠ ['0']) := by
    rintro (h | ⟨h, hw⟩)
    · exact hn h
    · exact hw (hz h)
  simp only [whole?, digits_append hd h, afterDigits_append hd h, if_neg hc]

theorem minus_sign {negative : Bool} {cs : List Char} (h : cs.head? ≠ some '-') :
    minus ((sign negative).toList ++ cs) = (negative, cs) := by
  cases negative
  case true => rfl
  case false =>
    cases cs
    case nil => rfl
    case cons c cs => simp_all [sign, minus]

theorem endsDigits_scale {p : Option Int} (h : endsBefore rest) :
    EndsDigits (scale p ++ rest) ∧ (scale p ++ rest).head? ≠ some '.' := by
  cases p
  case none =>
    refine ⟨endsDigits_of_endsBefore h, ?_⟩
    cases rest
    case nil => nofun
    case cons => simp_all [endsBefore, scale]
  case some =>
    refine ⟨?_, nofun⟩
    rintro _ ⟨⟩
    rfl

theorem endsDigits_point (places : List Char) (h : EndsDigits rest) :
    EndsDigits (point places ++ rest) := by
  unfold point
  split
  case isTrue => exact h
  case isFalse =>
    rintro _ ⟨⟩
    rfl

theorem number?_text {n : Numeral} (hn : n.Valid) {negative : Bool} (h : endsBefore rest) :
    number? ((sign negative).toList ++ (n.text ++ rest)) =
      some (rational negative n.coefficient n.exponent, rest) := by
  have ⟨hs, hp⟩ := endsDigits_scale (p := n.power) h
  have ht : n.text ++ rest = n.whole ++ (point n.places ++ (scale n.power ++ rest)) := by
    simp [text]
  have hm : (n.text ++ rest).head? ≠ some '-' := by
    obtain ⟨d, ds, hd⟩ := List.exists_cons_of_ne_nil hn.whole_ne_nil
    have hc := hn.whole_digits d (by simp [hd])
    rw [ht, hd]
    rintro ⟨⟩
    exact nomatch hc
  have hw := whole?_append hn.whole_digits hn.whole_ne_nil hn.leading
    (endsDigits_point n.places hs)
  rw [ht] at hm ⊢
  simp only [number?, minus_sign hm, hw, Option.bind_eq_bind, Option.bind_some,
    places?_point hn.places_digits hs hp, power?_scale h, if_pos h]
  rfl

-- The forms that a number is written in: the first digits before the point, or all behind it.

namespace Numeral

variable {c k : Nat} {p : Option Int}

-- The number of digits.
def width (c : Nat) : Nat := (Nat.toDigits 10 c).length

theorem width_pos : 0 < width c := Nat.length_toDigits_pos

def split (c k : Nat) (p : Option Int) : Numeral :=
  ⟨(Nat.toDigits 10 c).take k, (Nat.toDigits 10 c).drop k, p⟩

theorem valid_split (hk : 0 < k) : (split c k p).Valid where
  whole_digits _ h := isDigit_of_mem_toDigits (List.mem_of_mem_take h)
  places_digits _ h := isDigit_of_mem_toDigits (List.mem_of_mem_drop h)
  whole_ne_nil h := by
    rcases List.take_eq_nil_iff.mp h with h | h
    · exact absurd h (by omega)
    · exact Nat.toDigits_ne_nil h
  leading h := by
    simp only [split, List.head?_take, if_neg (by omega : k ≠ 0)] at h
    have hc := head_toDigits c h
    simp only [split, hc, Nat.toDigits_zero]
    exact List.take_of_length_le hk

theorem coefficient_split : (split c k p).coefficient = c := by
  rw [coefficient, split, List.take_append_drop, value_toDigits]

theorem exponent_split : (split c k p).exponent = p.getD 0 - (width c - k : Nat) := by
  simp [exponent, split, width]

theorem text_split_all (hk : k = width c) :
    (split c k p).text = (toString c).toList ++ scale p := by
  simp [text, split, hk, width, point, Nat.toList_repr]

theorem text_split (hk : k < width c) :
    (split c k p).text = (pointAfter k (toString c)).toList ++ scale p := by
  have hd : (Nat.toDigits 10 c).drop k ≠ [] := fun h => by
    have := List.drop_eq_nil_iff.mp h
    unfold width at hk
    omega
  simp [text, split, point, hd, pointAfter, Nat.toList_repr]

def small (c k : Nat) : Numeral := ⟨['0'], List.replicate k '0' ++ Nat.toDigits 10 c, none⟩

theorem valid_small : (small c k).Valid where
  whole_digits _ h := List.mem_singleton.mp h ▸ rfl
  places_digits d h := by
    rcases List.mem_append.mp h with h | h
    · exact List.eq_of_mem_replicate h ▸ rfl
    · exact isDigit_of_mem_toDigits h
  whole_ne_nil := nofun
  leading _ := rfl

theorem coefficient_small : (small c k).coefficient = c := by
  have h := value_zeros_append (k + 1) (Nat.toDigits 10 c)
  rw [List.replicate_succ, value_toDigits] at h
  exact h

theorem exponent_small : (small c k).exponent = -(k + width c : Nat) := by
  simp [exponent, small, width]

theorem text_small : (small c k).text = ("0." ++ zeros k ++ toString c).toList := by
  simp [text, small, point, scale, zeros, Nat.toDigits_ne_nil, Nat.toList_repr]

end Numeral

theorem exists_numeral (c : Nat) (e : Int) :
    ∃ n : Numeral, n.Valid ∧ n.text = (finiteText c e).toList ∧ n.coefficient = c ∧
      n.exponent = e := by
  have hw : (toString c).length = width c := by
    rw [← String.length_toList, width, Nat.toString_eq_repr, Nat.toList_repr]
  have hp := width_pos (c := c)
  unfold finiteText
  simp only [hw]
  split
  case isTrue h =>
    split
    case isTrue hz =>
      refine ⟨small c (-(e + width c)).toNat, valid_small, text_small, coefficient_small, ?_⟩
      rw [exponent_small]
      omega
    case isFalse hz =>
      split
      case isTrue he =>
        refine ⟨split c (width c) none, valid_split hp, ?_, coefficient_split, ?_⟩
        · simp [text_split_all, scale]
        · simp [exponent_split, he]
      case isFalse he =>
        have hk : (e + width c).toNat < width c := by omega
        refine ⟨split c (e + width c).toNat none, valid_split (by omega), ?_, coefficient_split, ?_⟩
        · simp [text_split hk, scale]
        · rw [exponent_split]
          simp only [Option.getD_none]
          omega
  case isFalse =>
    refine ⟨split c 1 (some (e + width c - 1)), valid_split Nat.one_pos, ?_, coefficient_split, ?_⟩
    · split
      case isTrue h1 => simp [text_split_all h1.symm, scale]
      case isFalse h1 => simp [text_split (by omega : 1 < width c), scale]
    · rw [exponent_split]
      simp only [Option.getD_some]
      omega

-- A text that is a number.
structure Spells (w : List Char) (q : ℚ) : Prop where
  head : ∃ c cs, w = c :: cs ∧ (c.isDigit ∨ c = '-')
  read : ∀ rest, endsBefore rest → number? (w ++ rest) = some (q, rest)

theorem Numeral.Valid.spells {n : Numeral} (hn : n.Valid) (negative : Bool) :
    Spells ((sign negative).toList ++ n.text) (rational negative n.coefficient n.exponent) where
  head := by
    cases negative
    case true => exact ⟨_, _, rfl, .inr rfl⟩
    case false =>
      obtain ⟨d, ds, hd⟩ := List.exists_cons_of_ne_nil hn.whole_ne_nil
      exact ⟨d, ds ++ (point n.places ++ scale n.power), by simp [sign, text, hd],
        .inl (hn.whole_digits d (by simp [hd]))⟩
  read rest h := by rw [List.append_assoc, number?_text hn h]

theorem spells_toText (negative : Bool) (c : Nat) (e : Int) :
    Spells (toText (finite negative c e)).toList (rational negative c e) := by
  have ⟨n, hn, ht, hc, he⟩ := exists_numeral c e
  have h := hn.spells negative
  rwa [hc, he, ht, ← String.toList_append] at h

theorem spells_int (n : Int) : Spells (toString n).toList n := by
  have h := (valid_split (c := n.natAbs) (k := width n.natAbs) (p := none) width_pos).spells (n < 0)
  have ht : (toString n).toList =
      (sign (n < 0)).toList ++ (split n.natAbs (width n.natAbs) none).text := by
    rw [Int.toString_eq_repr, toList_repr, text_split_all rfl]
    simp [scale, Nat.toList_repr]
  have hq : rational (n < 0) n.natAbs 0 = n := by
    by_cases hn : n < 0
    case pos =>
      have ha : (n.natAbs : ℚ) = -n := by
        rw [← Int.cast_natCast, Int.ofNat_natAbs_of_nonpos hn.le, Int.cast_neg]
      simp [rational, hn, ha]
    case neg =>
      have ha : (n.natAbs : ℚ) = n := by
        rw [← Int.cast_natCast, Int.natAbs_of_nonneg (not_lt.mp hn)]
      simp [rational, hn, ha]
  rwa [← ht, coefficient_split, exponent_split, Option.getD_none, Nat.sub_self, Nat.cast_zero,
    sub_zero, hq] at h

end GraphSchema.Decimal
