import GraphSchema.Proofs.Constant.Number

namespace GraphSchema.Decimal

-- A zero alone, or digits of which the first is another one.
structure IsWhole (w : List Char) : Prop where
  digits : ∀ c ∈ w, c.isDigit
  ne_nil : w ≠ []
  leading : w.head? = some '0' → w = ['0']

inductive IsInteger : List Char → Prop
  | nonneg {w : List Char} (whole : IsWhole w) : IsInteger w
  | neg {w : List Char} (whole : IsWhole w) : IsInteger ('-' :: w)

inductive IsFraction : List Char → Prop
  | mk {ds : List Char} (digits : ∀ c ∈ ds, c.isDigit) (ne_nil : ds ≠ []) : IsFraction ('.' :: ds)

inductive IsExponent : List Char → Prop
  | mk {c : Char} {s ds : List Char} (mark : c = 'e' ∨ c = 'E')
      (sign : s = [] ∨ s = ['+'] ∨ s = ['-']) (digits : ∀ c ∈ ds, c.isDigit) (ne_nil : ds ≠ []) :
      IsExponent (c :: (s ++ ds))

inductive IsFloat : List Char → Prop
  | fraction {i f : List Char} (integer : IsInteger i) (fraction : IsFraction f) : IsFloat (i ++ f)
  | exponent {i e : List Char} (integer : IsInteger i) (exponent : IsExponent e) : IsFloat (i ++ e)
  | both {i f e : List Char} (integer : IsInteger i) (fraction : IsFraction f)
      (exponent : IsExponent e) : IsFloat (i ++ (f ++ e))

def IsNumber (w : List Char) : Prop := IsInteger w ∨ IsFloat w

variable {w i f e rest : List Char}

theorem isNumber_append (hi : IsInteger i) (hf : f = [] ∨ IsFraction f)
    (he : e = [] ∨ IsExponent e) : IsNumber (i ++ (f ++ e)) := by
  rcases hf with rfl | hf <;> rcases he with rfl | he
  · exact .inl (by simpa using hi)
  · exact .inr (.exponent hi he)
  · exact .inr (by simpa using IsFloat.fraction hi hf)
  · exact .inr (.both hi hf he)

theorem IsNumber.exists_parts (h : IsNumber w) : ∃ i f e, w = i ++ (f ++ e) ∧ IsInteger i ∧
    (f = [] ∨ IsFraction f) ∧ (e = [] ∨ IsExponent e) := by
  rcases h with hi | ⟨hi, hf⟩ | ⟨hi, he⟩ | ⟨hi, hf, he⟩
  · exact ⟨w, [], [], by simp, hi, .inl rfl, .inl rfl⟩
  · exact ⟨_, _, [], by simp, hi, .inr hf, .inl rfl⟩
  · exact ⟨_, [], _, rfl, hi, .inl rfl, .inr he⟩
  · exact ⟨_, _, _, rfl, hi, .inr hf, .inr he⟩

theorem isInteger_sign (negative : Bool) (h : IsWhole w) :
    IsInteger ((sign negative).toList ++ w) := by
  cases negative
  case true => exact .neg h
  case false => exact .nonneg h

-- How integers and decimals are written.

theorem isWhole_toDigits (n : Nat) : IsWhole (Nat.toDigits 10 n) where
  digits _ := isDigit_of_mem_toDigits
  ne_nil := Nat.toDigits_ne_nil
  leading h := by rw [head_toDigits n h, Nat.toDigits_zero]

theorem isInteger_toString (n : Int) : IsInteger (toString n).toList := by
  rw [Int.toString_eq_repr, toList_repr]
  exact isInteger_sign _ (isWhole_toDigits _)

theorem Numeral.Valid.isWhole {n : Numeral} (h : n.Valid) : IsWhole n.whole :=
  ⟨h.whole_digits, h.whole_ne_nil, h.leading⟩

theorem isFraction_point (h : ∀ c ∈ w, c.isDigit) :
    Numeral.point w = [] ∨ IsFraction (Numeral.point w) := by
  unfold Numeral.point
  split
  case isTrue => exact .inl rfl
  case isFalse hn => exact .inr ⟨h, hn⟩

theorem isExponent_scale (p : Option Int) :
    Numeral.scale p = [] ∨ IsExponent (Numeral.scale p) := by
  cases p
  case none => exact .inl rfl
  case some e =>
    obtain ⟨s, hs, e⟩ : ∃ s, (s = [] ∨ s = ['+'] ∨ s = ['-']) ∧
        (signed e).toList = s ++ Nat.toDigits 10 e.natAbs := by
      by_cases he : e < 0
      · exact ⟨['-'], .inr (.inr rfl), by simp [signed, he, toList_repr, sign]⟩
      · exact ⟨['+'], .inr (.inl rfl), by simp [signed, he, toList_repr, sign]⟩
    rw [Numeral.scale, e]
    exact .inr (.mk (.inr rfl) hs (fun _ => isDigit_of_mem_toDigits) Nat.toDigits_ne_nil)

theorem isNumber_toText (negative : Bool) (c : Nat) (e : Int) :
    IsNumber (toText (finite negative c e)).toList := by
  have ⟨n, hn, ht, _⟩ := exists_numeral c e
  rw [toText, String.toList_append, ← ht, Numeral.text, ← List.append_assoc]
  exact isNumber_append (isInteger_sign negative hn.isWhole) (isFraction_point hn.places_digits)
    (isExponent_scale n.power)

-- How they are read.

theorem IsInteger.exists_sign (h : IsInteger i) :
    ∃ negative w, IsWhole w ∧ i = (sign negative).toList ++ w := by
  cases h
  case nonneg hw => exact ⟨false, i, hw, rfl⟩
  case neg hw => exact ⟨true, _, hw, rfl⟩

theorem exists_point (h : f = [] ∨ IsFraction f) :
    ∃ places, (∀ c ∈ places, c.isDigit) ∧ f = Numeral.point places := by
  rcases h with rfl | ⟨hd, hn⟩
  case inl => exact ⟨[], nofun, rfl⟩
  case inr => exact ⟨_, hd, by rw [Numeral.point, if_neg hn]⟩

-- What is read of an exponent does not depend on what follows it.
theorem exists_power? (h : e = [] ∨ IsExponent e) :
    ∃ p, ∀ rest, endsBefore rest → power? (e ++ rest) = some (p, rest) := by
  rcases h with rfl | ⟨hc, hs, hd, hn⟩
  case inl => exact ⟨0, fun rest => power?_scale (p := none)⟩
  case inr s ds =>
    obtain ⟨negative, ht⟩ : ∃ negative, ∀ rest,
        takeSign (s ++ (ds ++ rest)) = (negative, ds ++ rest) := by
      rcases hs with rfl | rfl | rfl
      · obtain ⟨d, ds, rfl⟩ := List.exists_cons_of_ne_nil hn
        have hm : d ≠ '-' := fun h => absurd (hd d List.mem_cons_self) (by rw [h]; decide)
        have hp : d ≠ '+' := fun h => absurd (hd d List.mem_cons_self) (by rw [h]; decide)
        exact ⟨false, fun rest => by simp [takeSign, hm, hp]⟩
      · exact ⟨false, fun _ => rfl⟩
      · exact ⟨true, fun _ => rfl⟩
    refine ⟨(if negative then -1 else 1) * value ds, fun rest hr => ?_⟩
    have hr := endsDigits_of_endsBefore hr
    simp only [List.cons_append, List.append_assoc, power?, if_pos hc, ht, digits_append hd hr,
      afterDigits_append hd hr, if_neg hn]

theorem endsDigits_exponent (h : e = [] ∨ IsExponent e) (hr : endsBefore rest) :
    EndsDigits (e ++ rest) ∧ (e ++ rest).head? ≠ some '.' := by
  rcases h with rfl | ⟨hc, _, _, _⟩
  case inl => exact endsDigits_scale (p := none) hr
  case inr => rcases hc with rfl | rfl <;> exact ⟨by rintro _ ⟨⟩; rfl, nofun⟩

theorem IsWhole.exists_cons (h : IsWhole w) : ∃ d ds, w = d :: ds ∧ d.isDigit := by
  obtain ⟨d, ds, rfl⟩ := List.exists_cons_of_ne_nil h.ne_nil
  exact ⟨d, ds, rfl, h.digits d List.mem_cons_self⟩

theorem IsNumber.exists_spells (h : IsNumber w) : ∃ q, Spells w q := by
  obtain ⟨i, f, e, rfl, hi, hf, he⟩ := h.exists_parts
  obtain ⟨negative, v, hv, rfl⟩ := hi.exists_sign
  obtain ⟨places, hp, rfl⟩ := exists_point hf
  have ⟨d, ds, hd, digit⟩ := hv.exists_cons
  have ⟨p, hpow⟩ := exists_power? he
  refine ⟨rational negative (value (v ++ places)) (p - places.length), ?head, fun rest hr => ?read⟩
  case head =>
    cases negative
    case true => exact ⟨_, _, rfl, .inr rfl⟩
    case false => exact ⟨d, _, by rw [hd]; rfl, .inl digit⟩
  case read =>
    have ⟨hs, hpt⟩ := endsDigits_exponent he hr
    have hm : (v ++ (Numeral.point places ++ (e ++ rest))).head? ≠ some '-' := by
      rw [hd]
      rintro ⟨⟩
      exact nomatch digit
    have hw := whole?_append hv.digits hv.ne_nil hv.leading (endsDigits_point places hs)
    simp only [List.append_assoc, number?, minus_sign hm, hw, Option.bind_eq_bind,
      Option.bind_some, places?_point hp hs hpt, hpow rest hr, if_pos hr]
    rfl

end GraphSchema.Decimal
