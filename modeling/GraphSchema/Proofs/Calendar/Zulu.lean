import GraphSchema.Proofs.Calendar.Dated
import GraphSchema.Proofs.Calendar.Timed
import GraphSchema.Proofs.Calendar.Written

namespace GraphSchema.Iso

open Bytes

variable {b u v w : Bytes} {n p : Nat}

-- What a text can be for the reader of dates with times.

structure Times (b : Bytes) (n p : Nat) : Prop where
  date : ReadsDate b n
  more : n < b.length
  start : p = n + charLength (b.peek n)

def IsDay (b : Bytes) : Prop := ReadsDate b b.length

def IsNaive (b : Bytes) : Prop :=
  ∃ n p, Times b n p ∧ isTime b p ∧ offsetStart b p = b.length

def IsZoned (b : Bytes) : Prop :=
  ∃ n p, Times b n p ∧ isTime b p ∧ offsetStart b p < b.length

-- A time without offset that would be fine but for what is left over.
def IsLoose (b : Bytes) : Prop :=
  ∃ n p, Times b n p ∧ offsetStart b p = b.length ∧
    ∃ c, clock? b p b.length = some c ∧ c.isReal ∧ c.leftover

-- A zero byte ends what is read of the offset, and anything can follow it.
def IsCut (b : Bytes) : Prop := ∃ u w, b = u ++ 0 :: w ∧ ∀ w', IsZoned (u ++ 0 :: w')

theorem Times.unique {m q : Nat} (h : Times b n p) (h' : Times b m q) : n = m ∧ p = q := by
  have e : n = m := Option.some.inj (h.date.length.symm.trans h'.date.length)
  exact ⟨e, by rw [h.start, h'.start, e]⟩

theorem le_length_of_isTime (h : isTime b p) : p ≤ b.length :=
  Nat.le_of_lt (lt_length_of_peek fun e => absurd (isDigit_of_isTime h) (by rw [e]; decide))

theorem isDateTime_iff_exists : isDateTime b ↔
    ∃ n, ReadsDate b n ∧ (b.length ≤ n ∨ isTime b (n + charLength (b.peek n))) := by
  unfold isDateTime
  constructor
  · intro h
    simp only [Bool.and_eq_true] at h
    obtain ⟨_, h⟩ := h
    split at h
    case h_1 => exact nomatch h
    case h_2 n hn =>
      simp only [Bool.and_eq_true, Bool.or_eq_true, decide_eq_true_eq] at h
      exact ⟨n, ⟨hn, h.left⟩, h.right⟩
  · intro ⟨n, hd, h⟩
    have long : 7 ≤ b.length := Nat.le_trans hd.bounds.left hd.le_length
    simpa [hd.length, hd.day, long] using h

theorem isDateTime_iff : isDateTime b ↔ IsDay b ∨ IsNaive b ∨ IsZoned b := by
  rw [isDateTime_iff_exists]
  constructor
  · intro ⟨n, hd, h⟩
    rcases Nat.lt_or_eq_of_le hd.le_length with more | rfl
    case inr => exact .inl hd
    case inl =>
      have ht := h.resolve_left (Nat.not_le.mpr more)
      have inside := offsetStart_le (le_length_of_isTime ht)
      rcases Nat.lt_or_eq_of_le inside with h | h
      · exact .inr (.inr ⟨n, _, ⟨hd, more, rfl⟩, ht, h⟩)
      · exact .inr (.inl ⟨n, _, ⟨hd, more, rfl⟩, ht, h⟩)
  · rintro (h | ⟨n, p, ht, h, _⟩ | ⟨n, p, ht, h, _⟩)
    · exact ⟨_, h, .inl (Nat.le_refl _)⟩
    · exact ⟨n, ht.date, .inr (ht.start ▸ h)⟩
    · exact ⟨n, ht.date, .inr (ht.start ▸ h)⟩

-- No two of these.

theorem IsNaive.not_isDay (h : IsNaive b) : ¬ IsDay b := by
  obtain ⟨n, p, ht, _⟩ := h
  intro hd
  have e : n = b.length := Option.some.inj (ht.date.length.symm.trans hd.length)
  exact absurd ht.more (Nat.not_lt.mpr (Nat.le_of_eq e.symm))

theorem IsNaive.not_isZoned (h : IsNaive b) : ¬ IsZoned b := by
  obtain ⟨n, p, ht, _, he⟩ := h
  intro ⟨m, q, ht', _, hl⟩
  obtain ⟨rfl, rfl⟩ := ht.unique ht'
  exact Nat.ne_of_lt hl he

theorem IsNaive.not_isLoose (h : IsNaive b) : ¬ IsLoose b := by
  obtain ⟨n, p, ht, hr, he⟩ := h
  intro ⟨m, q, ht', _, c, hc, _, left⟩
  obtain ⟨rfl, rfl⟩ := ht.unique ht'
  simp [isTime_of_end he, hc, left] at hr

theorem IsCut.isZoned (h : IsCut b) : IsZoned b := by
  obtain ⟨u, w, rfl, h⟩ := h
  exact h w

theorem isDateByte_lt {x : UInt8} (h : isDateByte x) : x < 0x80 := by
  simp only [isDateByte, isDigit, Bool.or_eq_true, Bool.and_eq_true, decide_eq_true_eq,
    beq_iff_eq] at h
  rcases h with (⟨_, h⟩ | rfl) | rfl
  · exact UInt8.lt_of_le_of_lt h (by decide)
  · decide
  · decide

-- A character is as long as its first byte has it.

theorem charLength_utf8EncodeChar (c : Char) :
    charLength (peek (String.utf8EncodeChar c) 0) = (String.utf8EncodeChar c).length := by
  have first (x : Nat) (hx : x < 256) (ys : Bytes) :
      charLength (peek (UInt8.ofNat x :: ys) 0) =
        if x < 0x80 then 1 else if x < 0xE0 then 2 else if x < 0xF0 then 3 else 4 := by
    have e : (UInt8.ofNat x).toNat = x := by simpa using Nat.mod_eq_of_lt hx
    change charLength (UInt8.ofNat x) = _
    simp only [charLength, UInt8.lt_iff_toNat_lt, e]
    rfl
  unfold String.utf8EncodeChar
  dsimp only
  split_ifs
  all_goals
    rw [first _ (by omega)]
    simp only [List.length_cons, List.length_nil]
    split_ifs <;> omega

theorem charLength_pos (x : UInt8) : 0 < charLength x := by
  unfold charLength
  split_ifs <;> decide

theorem charLength_peek_le {cs : List Char} (ascii : ∀ i < n, (utf8 cs).peek i < 0x80)
    (hn : n < (utf8 cs).length) : n + charLength ((utf8 cs).peek n) ≤ (utf8 cs).length := by
  induction cs generalizing n
  case nil => exact absurd hn (Nat.not_lt_zero _)
  case cons c cs hi =>
    have long : 0 < (String.utf8EncodeChar c).length :=
      String.length_utf8EncodeChar c ▸ Char.utf8Size_pos c
    rw [utf8_cons] at *
    cases n
    case zero =>
      rw [peek_append_left long, charLength_utf8EncodeChar, List.length_append]
      omega
    case succ n =>
      have one : (String.utf8EncodeChar c).length = 1 := by
        have first := ascii 0 (Nat.zero_lt_succ n)
        rw [peek_append_left long] at first
        rw [← charLength_utf8EncodeChar, charLength, if_pos first]
      have shift (i : Nat) :
          peek (String.utf8EncodeChar c ++ utf8 cs) (i + 1) = (utf8 cs).peek i := by
        rw [Nat.add_comm, ← one, peek_append]
      rw [List.length_append, one] at hn ⊢
      rw [shift]
      have := hi (n := n) (fun i hi => shift i ▸ ascii (i + 1) (Nat.succ_lt_succ hi)) (by omega)
      omega

-- The offset of Greenwich behind a text.

def greenwich : Bytes := utf8 "+00:00".toList

theorem length_greenwich : (b ++ greenwich).length = b.length + 6 := List.length_append

theorem drop_greenwich : (b ++ greenwich).drop (b.length + 1) =
    utf8 (padded 2 0) ++ colon :: (utf8 (padded 2 0) ++ []) := by
  rw [← List.drop_drop, List.drop_left]
  decide

theorem clock?_greenwich :
    clock? (b ++ greenwich) (b.length + 1) (b ++ greenwich).length = some ⟨0, 0, 0, false⟩ :=
  clock?_minutes (by decide) (by decide) drop_greenwich length_greenwich

theorem offsetFits_greenwich : offsetFits (b ++ greenwich) b.length := by
  have plus : peek (b ++ greenwich) b.length = 0x2B := peek_length
  rw [offsetFits, plus, clock?_greenwich]
  rfl

-- Right behind a date, its sign is what parts the date from a time.
theorem isTime_greenwich : isTime (b ++ greenwich) (b.length + 1) := by
  have signless : offsetStart (b ++ greenwich) (b.length + 1) = (b ++ greenwich).length := by
    rw [offsetStart_eq, drop_greenwich, length_greenwich]
    rfl
  rw [isTime_of_end signless, clock?_greenwich]
  rfl

theorem readsDate_greenwich (whole : ¬ IsHalfWeek b) :
    ReadsDate (b ++ greenwich) n ↔ ReadsDate b n :=
  readsDate_append rfl (by decide) (by decide) whole

theorem ReadsDate.not_isHalfWeek (h : ReadsDate b n) : ¬ IsHalfWeek b := by
  intro ⟨h9, h4, h5, h8⟩
  have length := h.length
  rw [dateLength?_dashed h4 (by omega)] at length
  simp [h5, h8, h9] at length

-- The sign cannot stand where a day is missing, for this would be taken for a week and a dash, and
-- no time starts with a sign.
theorem not_isDateTime_halfWeek (h : IsHalfWeek b) : ¬ isDateTime (b ++ greenwich) := by
  obtain ⟨h9, h4, h5, h8⟩ := h
  have same {i} (hi : i < 9) : peek (b ++ greenwich) i = b.peek i := peek_append_left (h9 ▸ hi)
  have plus : peek (b ++ greenwich) 9 = 0x2B := h9 ▸ peek_length
  have zero : peek (b ++ greenwich) (9 + 1) = 0x30 := h9 ▸ peek_append 1
  have length : (b ++ greenwich).length = 15 := by rw [length_greenwich, h9]
  have eight : dateLength? (b ++ greenwich) = some 8 := by
    rw [dateLength?_dashed (same (i := 4) (by decide) ▸ h4) (by omega)]
    simp [same, h5, h8, length, zero, isDigit]
  rw [isDateTime_iff_exists]
  rintro ⟨n, hd, h⟩
  cases Option.some.inj (hd.length.symm.trans eight)
  have one : 8 + charLength (peek (b ++ greenwich) 8) = 9 := by
    rw [same (by decide), h8]
    rfl
  rw [one, length] at h
  have digit := isDigit_of_isTime (h.resolve_left (by decide))
  rw [plus] at digit
  exact absurd digit (by decide)

-- Up to the sign a time is read as it would be without it.
theorem isTime_append_greenwich (he : offsetStart b p = b.length) :
    isTime (b ++ greenwich) p = (clock? b p b.length).any Clock.isReal := by
  have hp : p ≤ b.length := he ▸ Nat.le_add_right _ _
  have start : offsetStart (b ++ greenwich) p = b.length :=
    (offsetStart_append_sign hp rfl).trans he
  have more : b.length ≠ (b ++ greenwich).length := by
    rw [length_greenwich]
    omega
  rw [isTime_of_offset (start ▸ more), start, offsetFits_greenwich,
    isReal_clock?_append rfl (by decide) hp, Bool.and_true]

-- A time whose offset starts before the sign is only read if the sign is not.
theorem isCut_of_isTime (ht : Times b n p) (he : offsetStart b p < b.length)
    (h : isTime (b ++ greenwich) p) : IsCut b := by
  have start := offsetStart_append_of_lt (v := greenwich) he
  have more : offsetStart (b ++ greenwich) p ≠ (b ++ greenwich).length := by
    rw [start, length_greenwich]
    omega
  rw [isTime_of_offset more, start, Bool.and_eq_true] at h
  obtain ⟨t, x, hb, hs, fits⟩ := exists_cut_offset rfl (by decide) he h.right
  have sign := isSign_offsetStart he
  have hp : p ≤ offsetStart b p := Nat.le_add_right _ _
  have start : offsetStart t p = offsetStart b p := by
    have inside : p ≤ t.length := by omega
    rw [hb] at hs ⊢
    exact offsetStart_of_append inside hs
  generalize offsetStart b p = stop at *
  have same {i} (hi : i < t.length) (y : Bytes) : peek (t ++ y) i = b.peek i := by
    rw [hb, peek_append_left hi, peek_append_left hi]
  have digit (y : Bytes) := same hs y ▸ not_isDigit_of_isSign sign
  -- The clock is read from what all these texts start with.
  have clock (y : Bytes) : (clock? (t ++ y) p stop).any Clock.isReal =
      (clock? (t.take stop) p stop).any Clock.isReal := by
    have inside : stop ≤ (t ++ y).length := by
      rw [List.length_append]
      omega
    rw [isReal_clock?_take inside (digit y) (same hs y ▸ ne_colon_of_isSign sign) hp,
      List.take_append_of_le_length (Nat.le_of_lt hs)]
  have real := h.left
  rw [hb, List.append_assoc] at real
  have hn : n < t.length := by
    have := ht.start
    omega
  have long : p + 2 ≤ stop := le_of_isReal_clock? (digit _) hp real
  have whole : ¬ IsHalfWeek t := by
    intro ⟨h9, _⟩
    have := ht.date.bounds.left
    have := ht.start
    have := charLength_pos (b.peek n)
    omega
  have date (y : Bytes) : ReadsDate (t ++ 0 :: y) n ↔ ReadsDate t n :=
    readsDate_append rfl (show (0 : UInt8) ≠ dash by decide) (show (0 : UInt8) ≠ week by decide)
      whole
  refine ⟨t, x, hb, fun w => ⟨n, p, ⟨?date, ?more, ?start⟩, ?time, ?offset⟩⟩
  case date => exact (date w).mpr ((date x).mp (hb ▸ ht.date))
  case more =>
    rw [List.length_append]
    omega
  case start => rw [same hn, ht.start]
  all_goals have he : offsetStart (t ++ 0 :: w) p = stop :=
    (offsetStart_append_of_lt (start ▸ hs)).trans start
  case time =>
    have more : offsetStart (t ++ 0 :: w) p ≠ (t ++ 0 :: w).length := by
      rw [he, List.length_append]
      omega
    rw [isTime_of_offset more, he, clock, ← clock _, real, fits]
    rfl
  case offset =>
    rw [he, List.length_append]
    omega

theorem isDateTime_append_of_times (ht : Times b n p) (he : offsetStart b p = b.length) {c : Clock}
    (hc : clock? b p b.length = some c) (real : c.isReal) : isDateTime (b ++ greenwich) := by
  refine isDateTime_iff_exists.mpr
    ⟨n, (readsDate_greenwich ht.date.not_isHalfWeek).mpr ht.date, .inr ?_⟩
  rw [peek_append_left ht.more, ← ht.start, isTime_append_greenwich he, hc]
  exact real

theorem isDateTime_append_of_isDay (h : IsDay b) : isDateTime (b ++ greenwich) := by
  refine isDateTime_iff_exists.mpr ⟨_, (readsDate_greenwich h.not_isHalfWeek).mpr h, .inr ?_⟩
  have one : charLength (peek (b ++ greenwich) b.length) = 1 := by
    rw [show peek (b ++ greenwich) b.length = 0x2B from peek_length]
    rfl
  rw [one]
  exact isTime_greenwich

-- What the offset of Greenwich makes a time of: naive times and loose ones, bare days, and what has
-- an offset already behind which nothing is read.
theorem isDateTime_greenwich_iff (cs : List Char) : isDateTime (utf8 cs ++ greenwich) ↔
    IsNaive (utf8 cs) ∨ IsDay (utf8 cs) ∨ IsLoose (utf8 cs) ∨ IsCut (utf8 cs) := by
  constructor
  · intro h
    have whole : ¬ IsHalfWeek (utf8 cs) := fun half => not_isDateTime_halfWeek half h
    obtain ⟨n, hd, h⟩ := isDateTime_iff_exists.mp h
    have hd := (readsDate_greenwich whole).mp hd
    have longer := length_greenwich (b := utf8 cs)
    have ht := h.resolve_left (by have := hd.le_length; omega)
    rcases Nat.lt_or_eq_of_le hd.le_length with more | rfl
    case inr => exact .inr (.inl hd)
    case inl =>
      have ascii : ∀ i < n, (utf8 cs).peek i < 0x80 := fun i hi => isDateByte_lt (hd.dated i hi)
      have hp := charLength_peek_le ascii more
      rw [peek_append_left more] at ht
      have times : Times (utf8 cs) n _ := ⟨hd, more, rfl⟩
      rcases Nat.lt_or_eq_of_le (offsetStart_le hp) with he | he
      case inl => exact .inr (.inr (.inr (isCut_of_isTime times he ht)))
      case inr =>
        rw [isTime_append_greenwich he, Option.any_eq_true] at ht
        obtain ⟨c, hc, real⟩ := ht
        cases left : c.leftover
        case true => exact .inr (.inr (.inl ⟨n, _, times, he, c, hc, real, left⟩))
        case false =>
          refine .inl ⟨n, _, times, ?_, he⟩
          simp [isTime_of_end he, hc, real, left]
  · rintro (⟨n, p, ht, h, he⟩ | h | ⟨n, p, ht, he, c, hc, real, _⟩ | ⟨u, w, hb, h⟩)
    · rw [isTime_of_end he, Option.any_eq_true] at h
      obtain ⟨c, hc, h⟩ := h
      exact isDateTime_append_of_times ht he hc (Bool.and_eq_true_iff.mp h).left
    · exact isDateTime_append_of_isDay h
    · exact isDateTime_append_of_times ht he hc real
    · rw [hb, List.append_assoc]
      exact isDateTime_iff.mpr (.inr (.inr (h _)))

end GraphSchema.Iso
