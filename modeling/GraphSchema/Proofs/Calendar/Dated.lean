import GraphSchema.Proofs.Calendar.Extended
import Mathlib.Tactic.SplitIfs

namespace GraphSchema.Iso

open Bytes

variable {b u v : Bytes} {n p y : Nat} {dashed : Bool}

-- Everything that is read of a date is a digit, a dash or a week sign.

def isDateByte (x : UInt8) : Bool := isDigit x || x == dash || x == week

def Dated (b : Bytes) (n : Nat) : Prop := ∀ i < n, isDateByte (b.peek i)

namespace Dated

variable {k m : Nat}

theorem mono (h : Dated b n) (hm : m ≤ n) : Dated b m := fun i hi => h i (Nat.lt_of_lt_of_le hi hm)

theorem succ (h : Dated b n) (hn : isDateByte (b.peek n)) : Dated b (n + 1) := fun i hi => by
  rcases Nat.lt_or_eq_of_le (Nat.le_of_lt_succ hi) with hi | rfl
  case inl => exact h i hi
  case inr => exact hn

theorem number (h : Dated b n) (hn : b.number? n k = some m) : Dated b (n + k) := fun i hi => by
  by_cases hi' : i < n
  case pos => exact h i hi'
  case neg =>
    have digit := isDigit_of_number? hn (i := i - n) (by omega)
    rw [Nat.add_sub_cancel' (Nat.le_of_not_lt hi')] at digit
    simp [isDateByte, digit]

theorem dash (h : Dated b n) (hn : (b.peek n == Bytes.dash) = true) : Dated b (n + 1) :=
  h.succ (by simp [isDateByte, hn])

theorem le_length (h : Dated b n) : n ≤ b.length :=
  le_length_of_peek fun i hi e => absurd (e ▸ h i hi) (by decide)

theorem weekOf? (h : Dated b p) (hp : (b.peek p == week) = true)
    (day : (weekOf? b n dashed p y).isSome) :
    Dated b (p + 3) ∧ (n ≤ p + 3 ∨ dashed = false ∧ Dated b (p + 4) ∨ Dated b (p + 5)) := by
  have h1 : Dated b (p + 1) := h.succ (by simp [isDateByte, hp])
  unfold Iso.weekOf? at day
  cases w : b.number? (p + 1) 2
  case none => simp [w] at day
  case some =>
    have h3 : Dated b (p + 3) := h1.number w
    refine ⟨h3, ?_⟩
    simp only [w, Option.bind_eq_bind, Option.bind_some] at day
    split at day
    case isTrue hn => exact .inl hn
    case isFalse =>
      split at day
      case isTrue plain =>
        cases d : b.number? (p + 3) 1
        case none => simp [d] at day
        case some => exact .inr (.inl ⟨by simpa using plain, h3.number d⟩)
      case isFalse =>
        split at day
        case isTrue d3 =>
          cases d : b.number? (p + 4) 1
          case none => simp [d] at day
          case some => exact .inr (.inr ((h3.dash d3).number d))
        case isFalse => exact nomatch day

theorem monthOf? (h : Dated b p) (day : (monthOf? b dashed p y).isSome) :
    dashed = false ∧ Dated b (p + 4) ∨ Dated b (p + 5) := by
  unfold Iso.monthOf? at day
  cases m : b.number? p 2
  case none => simp [m] at day
  case some =>
    have h2 : Dated b (p + 2) := h.number m
    simp only [m, Option.bind_eq_bind, Option.bind_some] at day
    split at day
    case isTrue plain =>
      cases d : b.number? (p + 2) 2
      case none => simp [d] at day
      case some => exact .inl ⟨by simpa using plain, h2.number d⟩
    case isFalse =>
      split at day
      case isTrue d2 =>
        cases d : b.number? (p + 3) 2
        case none => simp [d] at day
        case some => exact .inr ((h2.dash d2).number d)
      case isFalse => exact nomatch day

end Dated

-- A week alone has seven bytes, any other date without dashes eight, and with dashes ten.
theorem dated_of_day? (h : (day? b n).isSome) :
    b.peek 4 = week ∧ n ≤ 7 ∧ Dated b 7 ∨ (n ≤ 8 ∨ b.peek 4 ≠ dash) ∧ Dated b 8 ∨ Dated b 10 := by
  rw [day?_eq] at h
  cases year : b.number? 0 4
  case none => simp [year] at h
  case some =>
    have h4 : Dated b 4 := by simpa using Dated.number (n := 0) nofun year
    simp only [year, Option.bind_eq_bind, Option.bind_some] at h
    cases d4 : b.peek 4 == dash
    case true =>
      have h5 := h4.dash d4
      simp only [d4, if_true] at h
      split at h
      case isTrue w =>
        have ⟨h8, rest⟩ := h5.weekOf? w h
        rcases rest with hn | ⟨hd, _⟩ | h10
        · exact .inr (.inl ⟨.inl hn, h8⟩)
        · exact nomatch hd
        · exact .inr (.inr h10)
      case isFalse =>
        rcases h5.monthOf? h with ⟨hd, _⟩ | h10
        · exact nomatch hd
        · exact .inr (.inr h10)
    case false =>
      have plain : b.peek 4 ≠ dash := beq_eq_false_iff_ne.mp d4
      simp only [d4, Bool.false_eq_true, if_false] at h
      split at h
      case isTrue w =>
        have ⟨h7, rest⟩ := h4.weekOf? w h
        rcases rest with hn | ⟨_, h8⟩ | h9
        · exact .inl ⟨eq_of_beq w, hn, h7⟩
        · exact .inr (.inl ⟨.inr plain, h8⟩)
        · exact .inr (.inl ⟨.inr plain, h9.mono (Nat.le_succ _)⟩)
      case isFalse =>
        rcases h4.monthOf? h with ⟨_, h8⟩ | h9
        · exact .inr (.inl ⟨.inr plain, h8⟩)
        · exact .inr (.inl ⟨.inr plain, h9.mono (Nat.le_succ _)⟩)

-- The date that a text starts with, as the separators have it.

theorem dateLength?_week (h4 : b.peek 4 ≠ dash) (h7 : b.length ≠ 7) : dateLength? b =
    if b.peek 4 = week then
      if b.afterDigits 7 < 9 then some (b.afterDigits 7)
      else if b.afterDigits 7 % 2 = 0 then some 7 else some 8
    else some 8 := by
  simp [dateLength?, h7, h4]

theorem dateLength?_dashed (h4 : b.peek 4 = dash) (h7 : b.length ≠ 7) : dateLength? b =
    if b.peek 5 ≠ week then some 10
    else if b.length ≤ 8 ∨ b.peek 8 ≠ dash then some 8
    else if b.length = 9 then none
    else if 10 < b.length ∧ isDigit (b.peek 10) then some 8
    else some 10 := by
  simp [dateLength?, h7, h4]

structure ReadsDate (b : Bytes) (n : Nat) : Prop where
  length : dateLength? b = some n
  day : (day? b n).isSome

namespace ReadsDate

theorem bounds (h : ReadsDate b n) : 7 ≤ n ∧ n ≤ 10 ∧ (b.peek 4 ≠ dash → n ≤ 8) := by
  have length := h.length
  by_cases h7 : b.length = 7
  case pos =>
    simp only [dateLength?, h7, if_true, Option.some.injEq] at length
    omega
  case neg =>
    by_cases h4 : b.peek 4 = dash
    case pos =>
      rw [dateLength?_dashed h4 h7] at length
      refine (?_ : 7 ≤ n ∧ n ≤ 10).imp_right fun h => ⟨h, fun no => absurd h4 no⟩
      split_ifs at length <;> cases length <;> decide
    case neg =>
      rw [dateLength?_week h4 h7] at length
      have after : 7 ≤ b.afterDigits 7 := Nat.le_add_right _ _
      split_ifs at length <;> cases length <;> omega

theorem dated (h : ReadsDate b n) : Dated b n := by
  have ⟨_, ten, eight⟩ := h.bounds
  rcases dated_of_day? h.day with ⟨_, hn, h7⟩ | ⟨hn, h8⟩ | h10
  · exact h7.mono hn
  · exact h8.mono (hn.elim id eight)
  · exact h10.mono ten

theorem le_length (h : ReadsDate b n) : n ≤ b.length := h.dated.le_length

end ReadsDate

-- A week that misses its day.
def IsHalfWeek (b : Bytes) : Prop :=
  b.length = 9 ∧ b.peek 4 = dash ∧ b.peek 5 = week ∧ b.peek 8 = dash

theorem dateLength?_append_week (digit : isDigit (v.peek 0) = false) (noWeek : v.peek 0 ≠ week)
    (h7 : u.length = 7) (w4 : u.peek 4 = week) : dateLength? (u ++ v) = some 7 := by
  have h4 : peek (u ++ v) 4 = week := (peek_append_iff noWeek (by decide) (by omega)).mpr w4
  by_cases hv : v = []
  case pos => simp [hv, dateLength?, h7]
  case neg =>
    have n7 : (u ++ v).length ≠ 7 := by simp [h7, hv]
    have after : afterDigits (u ++ v) 7 = 7 := by
      rw [afterDigits_append digit (Nat.le_of_eq h7.symm), afterDigits,
        List.drop_eq_nil_of_le (Nat.le_of_eq h7)]
      rfl
    rw [dateLength?_week (h4 ▸ by decide) n7, if_pos h4, after]
    rfl

section

variable (digit : isDigit (v.peek 0) = false) (noDash : v.peek 0 ≠ dash) (noWeek : v.peek 0 ≠ week)

include digit noDash noWeek

-- With dashes, it goes by the day of a week and by a digit behind it.
theorem dateLength?_append_dashed (h8 : 8 ≤ u.length) (whole : ¬ IsHalfWeek u)
    (h4 : u.peek 4 = dash) : dateLength? (u ++ v) = dateLength? u := by
  have d4 : peek (u ++ v) 4 = dash ↔ _ := peek_append_iff noDash (by decide) (by omega)
  have d8 : peek (u ++ v) 8 = dash ↔ _ := peek_append_iff noDash (by decide) h8
  have w5 : peek (u ++ v) 5 = week ↔ _ := peek_append_iff noWeek (by decide) (by omega)
  have n7 : u.length + v.length ≠ 7 := by omega
  rw [dateLength?_dashed h4 (by omega), dateLength?_dashed (d4.mpr h4) (List.length_append ▸ n7)]
  simp only [w5, d8, List.length_append, ne_eq]
  by_cases h5 : u.peek 5 = week
  case neg => simp [h5]
  case pos =>
    by_cases d8 : u.peek 8 = dash
    case neg => simp [h5, d8]
    case pos =>
      have h9 : 8 < u.length := lt_length_of_peek (d8 ▸ by decide)
      have n9 : u.length ≠ 9 := fun e => whole ⟨e, h4, h5, d8⟩
      have ten : (10 < u.length + v.length ∧ isDigit (peek (u ++ v) 10)) ↔
          10 < u.length ∧ isDigit (u.peek 10) := by
        rcases Nat.lt_or_eq_of_le (by omega : 10 ≤ u.length) with h | h
        case inl =>
          rw [peek_append_left h, and_iff_right h, and_iff_right (Nat.lt_add_right _ h)]
        case inr =>
          rw [h, peek_length, digit]
          simp
      have more : ¬ u.length + v.length ≤ 8 := by omega
      have more' : u.length + v.length ≠ 9 := by omega
      simp only [h5, d8, ten, Nat.not_le.mpr h9, n9, more, more', not_true]

theorem dateLength?_append (h8 : 8 ≤ u.length) (whole : ¬ IsHalfWeek u) :
    dateLength? (u ++ v) = dateLength? u := by
  by_cases h4 : u.peek 4 = dash
  case pos => exact dateLength?_append_dashed digit noDash noWeek h8 whole h4
  case neg =>
    have d4 : peek (u ++ v) 4 = dash ↔ _ := peek_append_iff noDash (by decide) (by omega)
    have w4 : peek (u ++ v) 4 = week ↔ _ := peek_append_iff noWeek (by decide) (by omega)
    have n7 : u.length + v.length ≠ 7 := by omega
    have after : afterDigits (u ++ v) 7 = u.afterDigits 7 := afterDigits_append digit (by omega)
    rw [dateLength?_week h4 (by omega), dateLength?_week (d4.not.mpr h4) (List.length_append ▸ n7)]
    simp only [w4, after]

-- What follows a text says nothing about the date at its front, unless a day was missing.
theorem readsDate_append (whole : ¬ IsHalfWeek u) : ReadsDate (u ++ v) n ↔ ReadsDate u n := by
  have day : day? (u ++ v) n = day? u n := day?_append digit noDash noWeek
  have length (h : (day? u n).isSome) : dateLength? (u ++ v) = some n ↔ dateLength? u = some n := by
    rcases Nat.lt_or_ge u.length 8 with h8 | h8
    case inr => rw [dateLength?_append digit noDash noWeek h8 whole]
    case inl =>
      rcases dated_of_day? h with ⟨w4, hn, h7⟩ | ⟨_, h8'⟩ | h10
      · have h7 : u.length = 7 := Nat.le_antisymm (Nat.le_of_lt_succ h8) h7.le_length
        rw [dateLength?_append_week digit noWeek h7 w4, dateLength?, h7]
        rfl
      · exact absurd h8'.le_length (by omega)
      · exact absurd h10.le_length (by omega)
  exact ⟨fun h => ⟨(length (day ▸ h.day)).mp h.length, day ▸ h.day⟩,
    fun h => ⟨(length h.day).mpr h.length, day ▸ h.day⟩⟩

end

end GraphSchema.Iso
