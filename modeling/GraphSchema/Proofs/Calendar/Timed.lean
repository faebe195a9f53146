import GraphSchema.Proofs.Calendar.Clock
import GraphSchema.Proofs.Calendar.Extended
import Mathlib.Tactic.SplitIfs

namespace GraphSchema.Iso

open Bytes

variable {b c u v w : Bytes} {colons l : Bool} {ns : List Nat} {k p q r stop stop' : Nat}

-- What follows two digits.

theorem next?_done (h : stop ≤ q + 1) : next? b stop colons q = some (.done (b.peek q != 0)) :=
  if_pos h

theorem next?_congr (h : b.peek q = c.peek q) (hs : stop ≤ q + 1 ↔ stop' ≤ q + 1) :
    next? b stop colons q = next? c stop' colons q := by
  simp only [next?, h, hs]

inductive Follows (b : Bytes) (stop q : Nat) : Next → Prop
  | done (l : Bool) (ends : stop ≤ q + 1) : Follows b stop q (.done l)
  | colon (mark : b.peek q = colon) : Follows b stop q (.digits (q + 1))
  | point (mark : b.peek q = 0x2E ∨ b.peek q = 0x2C) : Follows b stop q (.fraction (q + 1))
  | digits : Follows b stop q (.digits q)

theorem follows_of_next? {x : Next} (h : next? b stop colons q = some x) : Follows b stop q x := by
  simp only [next?, Bool.and_eq_true, Bool.or_eq_true, beq_iff_eq] at h
  split_ifs at h with ends both point <;> obtain rfl := Option.some.inj h
  · exact .done _ ends
  · exact .colon both.right
  · exact .point point
  · exact .digits

-- Clocks that are told apart by what is left over are real or not together.

theorem isReal_numbers?_append (digit : isDigit (v.peek 0) = false) (hp : p ≤ u.length) :
    (numbers? (u ++ v) u.length colons ns k p).any Clock.isReal =
      (numbers? u u.length colons ns k p).any Clock.isReal := by
  induction k generalizing ns p
  case zero =>
    simp only [numbers?, fraction?, number?_append digit hp]
    cases u.number? p (min 6 (u.length - p)) <;> rfl
  case succ k hi =>
    unfold numbers?
    rw [number?_append digit hp]
    cases hn : u.number? p 2
    case none => rfl
    case some n =>
      have hp2 := le_length_of_number? hp hn
      simp only [Option.bind_eq_bind, Option.bind_some]
      by_cases hs : u.length ≤ p + 2 + 1
      case pos =>
        rw [next?_done hs, next?_done hs]
        rfl
      case neg =>
        have same : next? (u ++ v) u.length colons (p + 2) = next? u u.length colons (p + 2) :=
          next?_congr (peek_append_left (by omega)) Iff.rfl
        rw [same]
        cases hx : next? u u.length colons (p + 2)
        case none => rfl
        case some x =>
          cases follows_of_next? hx
          case done ends => exact absurd ends hs
          case point =>
            have hq : p + 2 + 1 ≤ u.length := by omega
            simp only [Option.bind_some, fraction?, number?_append digit hq]
            cases u.number? (p + 2 + 1) (min 6 (u.length - (p + 2 + 1))) <;> rfl
          case colon => exact hi (by omega)
          case digits => exact hi (by omega)

theorem isReal_clock?_append (digit : isDigit (v.peek 0) = false) (noColon : v.peek 0 ≠ colon)
    (hp : p ≤ u.length) :
    (clock? (u ++ v) p u.length).any Clock.isReal = (clock? u p u.length).any Clock.isReal := by
  rw [clock?_eq, clock?_eq]
  cases hn : u.number? p 2
  case none =>
    rw [isReal_numbers?_append digit hp, numbers?, numbers?, hn]
    rfl
  case some n =>
    rw [beq_append noColon (by decide) (le_length_of_number? hp hn),
      isReal_numbers?_append digit hp]

theorem clock?_eq_none (h : b.number? p 2 = none) : clock? b p stop = none := by
  simp [clock?, h]

-- A clock has its hours before the sign.
theorem le_of_isReal_clock? (digit : isDigit (b.peek stop) = false) (hp : p ≤ stop)
    (h : (clock? b p stop).any Clock.isReal) : p + 2 ≤ stop := by
  cases hn : b.number? p 2
  case some n => exact le_of_number? digit hp hn
  case none => simp [clock?_eq_none hn] at h

-- Where a sign ends the clock, only what stands before it is read.
theorem isReal_clock?_take (hs : stop ≤ b.length) (digit : isDigit (b.peek stop) = false)
    (noColon : b.peek stop ≠ colon) (hp : p ≤ stop) :
    (clock? b p stop).any Clock.isReal = (clock? (b.take stop) p stop).any Clock.isReal := by
  have e : (b.take stop).length = stop := List.length_take_of_le hs
  have head : peek (b.drop stop) 0 = b.peek stop := (peek_of_drop (i := 0) rfl).symm
  have h := isReal_clock?_append (u := b.take stop) (v := b.drop stop) (p := p)
    (by rwa [head]) (by rwa [head]) (by rwa [e])
  rwa [List.take_append_drop, e] at h

-- Where an offset starts.

theorem offsetStart_eq (b : Bytes) (p : Nat) :
    offsetStart b p = p + ((b.drop p).takeWhile fun x => ! isSign x).length := rfl

theorem offsetStart_le (hp : p ≤ b.length) : offsetStart b p ≤ b.length := by
  have h := (List.takeWhile_sublist (p := fun x => ! isSign x) (l := b.drop p)).length_le
  rw [List.length_drop] at h
  rw [offsetStart_eq]
  omega

theorem isSign_offsetStart (h : offsetStart b p < b.length) :
    isSign (b.peek (offsetStart b p)) := by
  have split := (List.takeWhile_append_dropWhile (p := fun x => ! isSign x) (l := b.drop p)).symm
  have rest := drop_of_drop split
  have sign := List.head?_dropWhile_not (fun x => ! isSign x) (b.drop p)
  rw [← offsetStart_eq] at rest
  cases hd : (b.drop p).dropWhile fun x => ! isSign x
  case nil =>
    rw [hd, List.drop_eq_nil_iff] at rest
    omega
  case cons x w =>
    rw [hd] at rest sign
    rw [head_of_drop rest]
    simpa using sign

theorem offsetStart_append (hp : p ≤ u.length) : offsetStart (u ++ v) p =
    if offsetStart u p < u.length then offsetStart u p
    else u.length + (v.takeWhile fun x => ! isSign x).length := by
  have inside := offsetStart_le hp
  have whole := List.length_drop (i := p) (l := u)
  rw [offsetStart_eq] at inside ⊢
  rw [offsetStart_eq, List.drop_append_of_le_length hp, List.takeWhile_append]
  split
  case isTrue h =>
    rw [if_neg (by omega), List.length_append]
    omega
  case isFalse h => rw [if_pos (by omega)]

theorem offsetStart_append_of_lt (h : offsetStart u p < u.length) :
    offsetStart (u ++ v) p = offsetStart u p := by
  have hp : p ≤ u.length := Nat.le_of_lt (Nat.lt_of_le_of_lt (Nat.le_add_right _ _) h)
  rw [offsetStart_append hp, if_pos h]

theorem offsetStart_of_append (hp : p ≤ u.length) (h : offsetStart (u ++ v) p < u.length) :
    offsetStart u p = offsetStart (u ++ v) p := by
  rw [offsetStart_append hp] at h ⊢
  split at h
  case isTrue hu => rw [if_pos hu]
  case isFalse => omega

theorem offsetStart_append_sign (hp : p ≤ u.length) (hv : isSign (v.peek 0)) :
    offsetStart (u ++ v) p = offsetStart u p := by
  have none : v.takeWhile (fun x => ! isSign x) = [] := by
    cases v
    case nil => exact nomatch hv
    case cons x v => exact List.takeWhile_cons_of_neg (by rw [show isSign x = true from hv]; nofun)
  rw [offsetStart_append hp, none]
  split
  case isTrue => rfl
  case isFalse h => exact Nat.le_antisymm (Nat.le_of_not_lt h) (offsetStart_le hp)

-- Reading to the end of a text that goes on with a sign takes a zero byte before it, behind six
-- digits of a second, and is the same for every text that goes on with that byte.

theorem fraction?_six (hs : p + 6 ≤ stop) : fraction? b stop p =
    (b.number? p 6).map fun _ => b.peek (b.afterDigits (p + 6)) != 0 := by
  have six : min 6 (stop - p) = 6 := by omega
  simp only [fraction?, six]
  cases b.number? p 6 <;> rfl

theorem exists_split (hp : p < u.length) (zero : u.peek p = 0) :
    u = u.take p ++ 0 :: u.drop (p + 1) ∧ (u.take p).length = p := by
  have h0 : u[p] = 0 := (List.getD_eq_getElem _ _ hp).symm.trans zero
  have rest := List.drop_eq_getElem_cons hp
  rw [h0] at rest
  exact ⟨by rw [← rest, List.take_append_drop], List.length_take_of_le (Nat.le_of_lt hp)⟩

theorem exists_cut_fraction? (sign : v.peek 0 = 0x2B) (hp : p ≤ u.length)
    (hs : u.length + 6 ≤ stop) (h : fraction? (u ++ v) stop p = some false) :
    ∃ t x, u = t ++ 0 :: x ∧ p + 6 ≤ t.length ∧
      ∀ w, fraction? (t ++ 0 :: w) (t ++ 0 :: w).length p = some false := by
  have digit : isDigit (v.peek 0) = false := by rw [sign]; rfl
  rw [fraction?_six (by omega), number?_append digit hp] at h
  cases hn : u.number? p 6
  case none => simp [hn] at h
  case some n =>
    have h6 := le_length_of_number? hp hn
    rw [hn, afterDigits_append digit h6] at h
    have zero : peek (u ++ v) (u.afterDigits (p + 6)) = 0 := by simpa using h
    have inside : u.afterDigits (p + 6) < u.length := by
      refine Nat.lt_of_le_of_ne (afterDigits_le h6) fun e => ?_
      rw [e, peek_length, sign] at zero
      exact absurd zero (by decide)
    rw [peek_append_left inside] at zero
    obtain ⟨hu, ht⟩ := exists_split inside zero
    have behind : p + 6 ≤ (u.take (u.afterDigits (p + 6))).length :=
      ht.symm ▸ Nat.le_add_right _ _
    generalize u.take (u.afterDigits (p + 6)) = t at hu ht behind
    generalize u.drop (u.afterDigits (p + 6) + 1) = x at hu
    rw [hu, number?_append rfl (by omega)] at hn
    rw [hu, afterDigits_append rfl behind] at ht
    refine ⟨t, x, hu, behind, fun w => ?_⟩
    have long : p + 6 ≤ (t ++ 0 :: w).length := by
      rw [List.length_append]
      omega
    rw [fraction?_six long, number?_append rfl (by omega), hn, afterDigits_append rfl behind, ← ht,
      peek_length]
    rfl

-- A number and what follows it are read alike wherever the text is cut off behind them.
theorem number?_next?_cut {n : Nat} {x : Next} {y : Bytes} (hs : u.length + 6 ≤ stop)
    (hn : u.number? p 2 = some n) (hx : next? (u ++ v) stop colons (p + 2) = some x)
    (hu : u = c ++ 0 :: y) (hc : p + 8 ≤ c.length) (w : Bytes) :
    number? (c ++ 0 :: w) p 2 = some n ∧
      next? (c ++ 0 :: w) (c ++ 0 :: w).length colons (p + 2) = some x := by
  have hp : p + 2 < c.length := by omega
  have inside : p + 2 < u.length := by
    rw [hu, List.length_append]
    omega
  rw [hu, number?_append rfl (by omega)] at hn
  rw [number?_append rfl (by omega), hn, ← hx]
  refine ⟨rfl, next?_congr ?_ ?_⟩
  · rw [peek_append_left hp, peek_append_left inside, hu, peek_append_left hp]
  · rw [List.length_append]
    exact iff_of_false (by omega) (by omega)

theorem exists_cut_numbers? (sign : v.peek 0 = 0x2B) (hp : p ≤ u.length)
    (hs : u.length + 6 ≤ stop) {c : Clock} (h : numbers? (u ++ v) stop colons ns k p = some c)
    (hl : c.leftover = false) : ∃ t x, u = t ++ 0 :: x ∧ p + 6 ≤ t.length ∧
      ∀ w, numbers? (t ++ 0 :: w) (t ++ 0 :: w).length colons ns k p = some c := by
  have digit : isDigit (v.peek 0) = false := by rw [sign]; rfl
  induction k generalizing ns p
  case zero =>
    simp only [numbers?, Option.bind_eq_bind, Option.bind_eq_some_iff] at h
    obtain ⟨l, hf, hc⟩ := h
    cases hc
    cases (hl : l = false)
    have ⟨t, x, hu, ht, rest⟩ := exists_cut_fraction? sign hp hs hf
    refine ⟨t, x, hu, ht, fun w => ?_⟩
    rw [numbers?, rest]
    rfl
  case succ k hi =>
    rw [numbers?, number?_append digit hp] at h
    cases hn : u.number? p 2
    case none => simp [hn] at h
    case some n =>
      have hp2 := le_length_of_number? hp hn
      cases hx : next? (u ++ v) stop colons (p + 2)
      case none => simp [hn, hx] at h
      case some x =>
        have mark {y} (hy : peek (u ++ v) (p + 2) = y) (hne : y ≠ 0x2B) : p + 3 ≤ u.length :=
          Nat.lt_of_le_of_ne hp2 fun e => hne (by rw [← hy, e, peek_length, sign])
        simp only [hn, hx, Option.bind_eq_bind, Option.bind_some] at h
        cases follows_of_next? hx
        case done ends => omega
        case point point =>
          have inside : p + 3 ≤ u.length := by
            rcases point with point | point <;> exact mark point (by decide)
          have ⟨l, hf, hc⟩ := Option.bind_eq_some_iff.mp h
          cases hc
          cases (hl : l = false)
          have ⟨t, y, hu, ht, rest⟩ := exists_cut_fraction? sign inside hs hf
          refine ⟨t, y, hu, by omega, fun w => ?_⟩
          have ⟨hn, hx⟩ := number?_next?_cut hs hn hx hu (by omega) w
          simp only [numbers?, hn, hx, rest, Option.bind_eq_bind, Option.bind_some]
          rfl
        case colon hc =>
          have ⟨t, y, hu, ht, rest⟩ := hi (mark hc (by decide)) h
          refine ⟨t, y, hu, by omega, fun w => ?_⟩
          have ⟨hn, hx⟩ := number?_next?_cut hs hn hx hu (by omega) w
          simp only [numbers?, hn, hx, rest, Option.bind_eq_bind, Option.bind_some]
        case digits =>
          have ⟨t, y, hu, ht, rest⟩ := hi hp2 h
          refine ⟨t, y, hu, by omega, fun w => ?_⟩
          have ⟨hn, hx⟩ := number?_next?_cut hs hn hx hu (by omega) w
          simp only [numbers?, hn, hx, rest, Option.bind_eq_bind, Option.bind_some]

-- Times, by what stands behind the clock.

def offsetFits (b : Bytes) (stop : Nat) : Bool :=
  if b.peek stop == zulu then b.peek (stop + 1) == 0
  else (clock? b (stop + 1) b.length).any fun o => ! o.leftover && o.seconds < 86400

theorem isTime_of_end (h : offsetStart b p = b.length) :
    isTime b p = (clock? b p b.length).any fun c => c.isReal && ! c.leftover := by
  rw [isTime, h]
  cases clock? b p b.length
  case none => rfl
  case some c => simp

theorem isTime_of_offset (h : offsetStart b p ≠ b.length) : isTime b p =
    ((clock? b p (offsetStart b p)).any Clock.isReal && offsetFits b (offsetStart b p)) := by
  cases hc : clock? b p (offsetStart b p)
  case none => simp [isTime, hc]
  case some c =>
    simp only [isTime, offsetFits, hc, h, if_false, Option.any_some]
    cases clock? b (offsetStart b p + 1) b.length <;> rfl

theorem isDigit_of_isTime (h : isTime b p) : isDigit (b.peek p) := by
  cases hn : b.number? p 2
  case some n => exact isDigit_of_number? hn (Nat.zero_lt_succ 1)
  case none => simp [isTime, clock?_eq_none hn] at h

-- An offset that is read to its end in spite of a further one behind the text.
theorem exists_cut_offset (sign : v.peek 0 = 0x2B) (long : 6 ≤ v.length) (hs : stop < u.length)
    (h : offsetFits (u ++ v) stop) : ∃ t x, u = t ++ 0 :: x ∧ stop < t.length ∧
      ∀ w, offsetFits (t ++ 0 :: w) stop := by
  unfold offsetFits at h
  rw [peek_append_left hs] at h
  cases hz : u.peek stop == zulu
  case true =>
    have zero : peek (u ++ v) (stop + 1) = 0 := by simpa [hz] using h
    have inside : stop + 1 < u.length := by
      refine Nat.lt_of_le_of_ne hs fun e => ?_
      rw [e, peek_length, sign] at zero
      exact absurd zero (by decide)
    rw [peek_append_left inside] at zero
    obtain ⟨hu, ht⟩ := exists_split inside zero
    refine ⟨_, _, hu, by omega, fun w => ?_⟩
    rw [hu, peek_append_left (by omega)] at hz
    have next : peek (u.take (stop + 1) ++ 0 :: w) (stop + 1) = 0 := by
      have e := peek_length (u := u.take (stop + 1)) (v := 0 :: w)
      rwa [ht] at e
    rw [offsetFits, peek_append_left (by omega), hz, next]
    rfl
  case false =>
    rw [hz] at h
    simp only [Bool.false_eq_true, if_false, Option.any_eq_true, Bool.and_eq_true,
      Bool.not_eq_true'] at h
    obtain ⟨o, ho, left, seconds⟩ := h
    rw [clock?_eq] at ho
    obtain ⟨t, x, hu, ht, rest⟩ := exists_cut_numbers? sign hs (by simpa using long) ho left
    refine ⟨t, x, hu, by omega, fun w => ?_⟩
    have same {i} (hi : i < t.length) : peek (t ++ 0 :: w) i = peek (u ++ v) i := by
      rw [hu, List.append_assoc, peek_append_left hi, peek_append_left hi]
    have plain : (peek (t ++ 0 :: w) stop == zulu) = false := by
      rw [same (by omega), peek_append_left hs, hz]
    have read : clock? (t ++ 0 :: w) (stop + 1) (t ++ 0 :: w).length = some o := by
      rw [clock?_eq, same (by omega)]
      exact rest w
    rw [offsetFits, plain, read]
    simpa [left] using seconds

end GraphSchema.Iso
