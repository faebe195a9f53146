import GraphSchema.Proofs.Constant.Quoted
import Mathlib.Algebra.Ring.Parity

namespace GraphSchema.Quoted

-- Every backslash takes the next character with it, and no quote stands by itself.
inductive Body : List Char → Prop
  | nil : Body []
  | plain {c cs} (quote : c ≠ '"') (backslash : c ≠ '\\') (ascii : IsAscii c) :
    Body cs → Body (c :: cs)
  | pair {c cs} (ascii : IsAscii c) : Body cs → Body ('\\' :: c :: cs)

variable {p u v w : List Char} {c e : Char}

theorem Body.append (hv : Body v) (hw : Body w) : Body (v ++ w) := by
  induction hv
  case nil => exact hw
  case plain hq hb ha _ hi => exact .plain hq hb ha hi
  case pair ha _ hi => exact .pair ha hi

theorem Body.isAscii (h : Body w) : ∀ c ∈ w, IsAscii c := by
  induction h
  case nil => exact nofun
  case plain ha _ hi => exact List.forall_mem_cons.mpr ⟨ha, hi⟩
  case pair ha _ hi =>
    exact List.forall_mem_cons.mpr ⟨by decide, List.forall_mem_cons.mpr ⟨ha, hi⟩⟩

-- What is encoded is such a text.

theorem isAscii_of_short? (h : short? e = some c) : IsAscii e := by
  unfold short? at h
  split at h
  case h_9 => cases h
  all_goals decide

theorem body_hexDigit (n : Nat) (h : Body w) : Body (hexDigit n :: w) := by
  have digit : ∀ d < 16, Nat.digitChar d ≠ '"' ∧ Nat.digitChar d ≠ '\\' ∧
      IsAscii (Nat.digitChar d) := by decide
  have ⟨hq, hb, ha⟩ := digit (n % 16) (Nat.mod_lt n (by decide))
  exact .plain hq hb ha h

theorem body_unit (n : Nat) : Body (unit n) :=
  .pair (by decide) <|
    body_hexDigit _ <| body_hexDigit _ <| body_hexDigit _ <| body_hexDigit _ .nil

theorem body_units (c : Char) : Body (units c) := by
  simp only [units]
  split
  case isTrue => exact body_unit _
  case isFalse => exact (body_unit _).append (body_unit _)

theorem body_escape (c : Char) : Body (escape c) := by
  rcases escape_cases c with ⟨e, he, _, hc⟩ | ⟨hc, hq, hb, ha⟩ | hc <;> rw [hc]
  case inl => exact .pair (isAscii_of_short? he) .nil
  case inr.inl => exact .plain hq hb ha .nil
  case inr.inr => exact body_units c

theorem body_encode (cs : List Char) : Body (encode cs) := by
  induction cs
  case nil => exact .nil
  case cons c cs hi => exact (body_escape c).append hi

-- A quote in such a text is the second of a pair.
theorem Body.exists_of_quote (h : Body w) (hw : w = u ++ '"' :: v) :
    ∃ u', Body u' ∧ u = u' ++ ['\\'] := by
  induction h generalizing u
  case nil => simp at hw
  case plain hq hb ha _ hi =>
    cases u
    case nil => exact absurd (List.cons.inj hw).left hq
    case cons =>
      rw [List.cons_append, List.cons.injEq] at hw
      obtain ⟨rfl, hw⟩ := hw
      obtain ⟨u', hu, rfl⟩ := hi hw
      exact ⟨_, .plain hq hb ha hu, rfl⟩
  case pair ha _ hi =>
    rcases u with _ | ⟨_, _ | ⟨_, u⟩⟩
    case nil => exact absurd (List.cons.inj hw).left (by decide)
    case cons.nil =>
      rw [List.cons_append, List.cons.injEq] at hw
      exact ⟨[], .nil, by rw [hw.left, List.nil_append]⟩
    case cons.cons =>
      rw [List.cons_append, List.cons_append, List.cons.injEq, List.cons.injEq] at hw
      obtain ⟨rfl, rfl, hw⟩ := hw
      obtain ⟨u', hu, rfl⟩ := hi hw
      exact ⟨_, .pair ha hu, rfl⟩

-- How many backslashes a text ends with. An even number of them escapes nothing that follows.
def backslashes (w : List Char) : Nat := (w.reverse.takeWhile (· == '\\')).length

theorem backslashes_concat (w : List Char) (c : Char) :
    backslashes (w ++ [c]) = if c = '\\' then backslashes w + 1 else 0 := by
  by_cases h : c = '\\' <;> simp [backslashes, h]

theorem even_backslashes_pair (h : Even (backslashes p)) :
    Even (backslashes (p ++ ['\\', c])) := by
  rw [List.append_cons, backslashes_concat]
  split
  case isTrue =>
    rw [backslashes_concat, if_pos rfl]
    exact h.add_one.add_one
  case isFalse => exact Even.zero

theorem Body.even (h : Body w) (hp : Even (backslashes p)) : Even (backslashes (p ++ w)) := by
  induction h generalizing p
  case nil => simpa using hp
  case plain c _ _ hb _ _ hi =>
    have reset : Even (backslashes (p ++ [c])) := by
      rw [backslashes_concat, if_neg hb]
      exact Even.zero
    simpa using hi reset
  case pair c _ _ _ hi => simpa using hi (even_backslashes_pair (c := c) hp)

theorem Body.odd (h : Body w) (hp : Even (backslashes p)) (hw : w = u ++ '"' :: v) :
    Odd (backslashes (p ++ u)) := by
  obtain ⟨u', hu, rfl⟩ := h.exists_of_quote hw
  rw [← List.append_assoc, backslashes_concat, if_pos rfl]
  exact (hu.even hp).add_one

end GraphSchema.Quoted

namespace GraphSchema

open Quoted

variable {s : String} {u v : List Char}

theorem isAscii_of_mem_quote : ∀ c ∈ (quote s).toList, IsAscii c := by
  rw [toList_quote, List.forall_mem_cons, List.forall_mem_append, List.forall_mem_singleton]
  exact ⟨by decide, (body_encode _).isAscii, by decide⟩

-- Where a text can be taken for several lines.
def lineBreaks : List Char :=
  ['\n', '\x0b', '\x0c', '\r', '\x1c', '\x1d', '\x1e', '\x85', '\u2028', '\u2029']

theorem Quoted.IsAscii.not_mem_lineBreaks {c : Char} (h : IsAscii c) : c ∉ lineBreaks := by
  have outside : lineBreaks.all (¬ IsAscii ·) := by decide
  exact fun hc => absurd h (of_decide_eq_true (List.all_eq_true.mp outside c hc))

-- The quotes at the ends can be told from all others by the backslashes before them.
theorem odd_backslashes_iff (h : (quote s).toList = u ++ '"' :: v) :
    Odd (backslashes u) ↔ u ≠ [] ∧ v ≠ [] := by
  have opened : Even (backslashes ['"']) := by decide
  rw [toList_quote] at h
  cases u
  case nil => simp [backslashes]
  case cons a u =>
    rw [List.cons_append, List.cons.injEq] at h
    obtain ⟨rfl, h⟩ := h
    rcases List.eq_nil_or_concat v with rfl | ⟨v, b, rfl⟩
    case inl =>
      have ⟨hu, _⟩ := List.append_inj' h rfl
      have closed : Even (backslashes ('"' :: u)) := hu ▸ (body_encode s.toList).even opened
      simpa using closed
    case inr =>
      rw [List.concat_eq_append, ← List.cons_append, ← List.append_assoc] at h
      have ⟨hu, _⟩ := List.append_inj' h rfl
      have inside : Odd (backslashes ('"' :: u)) := (body_encode s.toList).odd opened hu
      simpa using inside

end GraphSchema
