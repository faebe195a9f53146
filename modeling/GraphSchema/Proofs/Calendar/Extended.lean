import GraphSchema.Proofs.Calendar.Cursor

namespace GraphSchema.Iso

open Bytes

namespace Bytes

variable {b c u v : Bytes} {p i k m n : Nat} {x : UInt8}

theorem peek_length : peek (u ++ v) u.length = v.peek 0 := peek_append 0

theorem lt_length_of_peek (h : b.peek i ≠ 0) : i < b.length :=
  Nat.lt_of_not_le fun hi => h (peek_of_le hi)

theorem le_length_of_peek (h : ∀ i < n, b.peek i ≠ 0) : n ≤ b.length := by
  cases n
  case zero => exact Nat.zero_le _
  case succ n => exact lt_length_of_peek (h n n.lt_succ_self)

-- Up to where the text went on, all bytes are the same but for the one that ended it.
theorem peek_append_iff (hv : v.peek 0 ≠ x) (hx : x ≠ 0) (hi : i ≤ u.length) :
    peek (u ++ v) i = x ↔ u.peek i = x := by
  rcases Nat.lt_or_eq_of_le hi with hi | rfl
  case inl => rw [peek_append_left hi]
  case inr =>
    rw [peek_length, peek_of_le (Nat.le_refl _)]
    exact iff_of_false hv hx.symm

theorem beq_append (hv : v.peek 0 ≠ x) (hx : x ≠ 0) (hi : i ≤ u.length) :
    (peek (u ++ v) i == x) = (u.peek i == x) := by
  rw [Bool.eq_iff_iff, beq_iff_eq, beq_iff_eq, peek_append_iff hv hx hi]

-- Numbers.

theorem number?_congr (h : ∀ i < n, b.peek (p + i) = c.peek (p + i)) :
    b.number? p n = c.number? p n := by
  have e : ((List.range n).map fun i => b.peek (p + i)) =
      (List.range n).map fun i => c.peek (p + i) :=
    List.map_congr_left fun i hi => h i (List.mem_range.mp hi)
  simp only [number?, e]

theorem isDigit_of_number? (h : b.number? p n = some m) (hi : i < n) :
    isDigit (b.peek (p + i)) := by
  simp only [number?, Option.ite_none_right_eq_some, List.all_map, List.all_eq_true,
    List.mem_range] at h
  exact h.left i hi

theorem le_of_number? (hk : isDigit (b.peek k) = false) (hp : p ≤ k)
    (h : b.number? p n = some m) : p + n ≤ k := by
  refine Nat.le_of_not_lt fun hn => ?_
  have := isDigit_of_number? h (i := k - p) (by omega)
  rw [Nat.add_sub_cancel' hp, hk] at this
  exact Bool.false_ne_true this

theorem le_length_of_number? (hp : p ≤ b.length) (h : b.number? p n = some m) :
    p + n ≤ b.length :=
  le_of_number? (by rw [peek_of_le (Nat.le_refl _)]; rfl) hp h

section

variable (hv : isDigit (v.peek 0) = false)

include hv

theorem number?_append (hp : p ≤ u.length) : number? (u ++ v) p n = u.number? p n := by
  by_cases hn : p + n ≤ u.length
  case pos => exact number?_congr fun i hi => peek_append_left (by omega)
  case neg =>
    have left : number? (u ++ v) p n = none := Option.eq_none_iff_forall_ne_some.mpr fun m h =>
      hn (le_of_number? (by rwa [peek_length]) hp h)
    have right : u.number? p n = none := Option.eq_none_iff_forall_ne_some.mpr fun m h =>
      hn (le_length_of_number? hp h)
    rw [left, right]

theorem afterDigits_append (hp : p ≤ u.length) :
    afterDigits (u ++ v) p = u.afterDigits p := by
  have none : v.takeWhile isDigit = [] := by
    cases v
    case nil => rfl
    case cons x v => exact List.takeWhile_cons_of_neg (ne_true_of_eq_false hv)
  rw [afterDigits, afterDigits, List.drop_append_of_le_length hp, List.takeWhile_append, none]
  split
  case isTrue h => rw [List.append_nil, h]
  case isFalse => rfl

end

theorem afterDigits_le (hp : p ≤ b.length) : b.afterDigits p ≤ b.length := by
  have := (List.takeWhile_sublist (p := isDigit) (l := b.drop p)).length_le
  rw [List.length_drop] at this
  rw [afterDigits]
  omega

end Bytes

-- Days, by what stands behind the year.

def weekOf? (b : Bytes) (n : Nat) (dashed : Bool) (p year : Nat) : Option Nat := do
  let w ← b.number? (p + 1) 2
  if n ≤ p + 3 then weekDay? year w 1
  else if ! dashed then weekDay? year w (← b.number? (p + 3) 1)
  else if b.peek (p + 3) == dash then weekDay? year w (← b.number? (p + 4) 1)
  else none

def monthOf? (b : Bytes) (dashed : Bool) (p year : Nat) : Option Nat := do
  let month ← b.number? p 2
  if ! dashed then monthDay? ⟨year, month, ← b.number? (p + 2) 2⟩
  else if b.peek (p + 2) == dash then monthDay? ⟨year, month, ← b.number? (p + 3) 2⟩
  else none

variable {b u v : Bytes} {n p y : Nat} {dashed : Bool}

theorem day?_eq : day? b n = b.number? 0 4 >>= fun year =>
    let dashed := b.peek 4 == dash
    let p := if dashed then 5 else 4
    if b.peek p == week then weekOf? b n dashed p year else monthOf? b dashed p year := rfl

theorem lt_length_of_beq {x : UInt8} (h : (u.peek p == x) = true) (hx : x ≠ 0) : p < u.length :=
  lt_length_of_peek (eq_of_beq h ▸ hx)

section

variable (digit : isDigit (v.peek 0) = false) (noDash : v.peek 0 ≠ dash)

include digit noDash

theorem weekOf?_append (hp : p + 1 ≤ u.length) :
    weekOf? (u ++ v) n dashed p y = weekOf? u n dashed p y := by
  unfold weekOf?
  rw [number?_append digit hp]
  cases w : u.number? (p + 1) 2
  case none => rfl
  case some =>
    have h3 : p + 3 ≤ u.length := (le_length_of_number? hp w :)
    rw [number?_append digit h3, beq_append noDash (by decide) h3]
    cases d : u.peek (p + 3) == dash
    case true => rw [number?_append digit (lt_length_of_beq d (by decide))]
    case false => rfl

theorem monthOf?_append (hp : p ≤ u.length) :
    monthOf? (u ++ v) dashed p y = monthOf? u dashed p y := by
  unfold monthOf?
  rw [number?_append digit hp]
  cases m : u.number? p 2
  case none => rfl
  case some =>
    have h2 : p + 2 ≤ u.length := le_length_of_number? hp m
    rw [number?_append digit h2, beq_append noDash (by decide) h2]
    cases d : u.peek (p + 2) == dash
    case true => rw [number?_append digit (lt_length_of_beq d (by decide))]
    case false => rfl

theorem day?_append (noWeek : v.peek 0 ≠ week) : day? (u ++ v) n = day? u n := by
  rw [day?_eq, day?_eq, number?_append digit (Nat.zero_le _)]
  cases year : u.number? 0 4
  case none => rfl
  case some y =>
    have h4 : 4 ≤ u.length := le_length_of_number? (Nat.zero_le _) year
    have inside : (if u.peek 4 == dash then 5 else 4) ≤ u.length := by
      split
      case isTrue d => exact lt_length_of_beq d (by decide)
      case isFalse => exact h4
    simp only [Option.bind_eq_bind, Option.bind_some]
    rw [beq_append noDash (by decide) h4]
    generalize (if u.peek 4 == dash then 5 else 4) = p at inside ⊢
    rw [beq_append noWeek (by decide) inside, monthOf?_append digit noDash inside]
    cases w : u.peek p == week
    case true => rw [weekOf?_append digit noDash (lt_length_of_beq w (by decide))]
    case false => rfl

end

end GraphSchema.Iso
