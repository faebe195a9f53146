import GraphSchema.Proofs.Outcome
import GraphSchema.Proofs.Value.Plain

namespace GraphSchema

open Outcome

namespace Value

-- Counts as a list, but is written in no way.
def lacksLiteral : Value → Bool
  | progression _ | byteArray _ => true
  | _ => false

variable {r : Reading} {bare : Bool}

theorem not_succeeds_literal {v : Value} (h : v.lacksLiteral) : ¬ Succeeds (literal r bare v) := by
  cases v
  case progression | byteArray =>
    intro ⟨_, h⟩
    have ⟨_, _, h⟩ := bind_eq_ok.mp h
    exact throw_ne_ok h
  all_goals exact nomatch h

theorem succeeds_literals {xs : List Value} :
    Succeeds (literals r bare xs) ↔ ∀ x ∈ xs, Succeeds (literal r bare x) := by
  induction xs
  case nil => simp [literals]
  case cons x xs hi =>
    rw [List.forall_mem_cons, ← hi]
    constructor
    · rintro ⟨_, h⟩
      obtain ⟨a, ha, h⟩ := bind_eq_ok.mp h
      obtain ⟨b, hb, _⟩ := bind_eq_ok.mp h
      exact ⟨⟨a, ha⟩, b, hb⟩
    · rintro ⟨⟨a, ha⟩, b, hb⟩
      exact succeeds_bind.mpr ⟨a, ha, succeeds_bind.mpr ⟨b, hb, succeeds_pure⟩⟩

mutual

theorem succeeds_literal_of_isConstant : (v : Value) → isConstant v → Succeeds (literal r bare v)
  | list xs => fun h => succeeds_bind_pure.mpr (succeeds_literals_of_areConstants xs h)
  | tuple xs => fun h => succeeds_bind_pure.mpr (succeeds_literals_of_areConstants xs h)
  | dict es => fun h => succeeds_bind_pure.mpr (succeeds_literalEntries_of_areConstantEntries es h)
  | null | bool _ | int _ | float _ | decimal _ | labelled .. | text _ => fun _ => succeeds_pure
  | date _ | dateTime _ | bytes _ | byteArray _ | progression _ | foreign .. | enumClass ..
  | scalar _ | nodeKind _ | enumRef .. | objectRef _ | script _ | object _ | stream _
  | enumMember .. => fun h => nomatch h

theorem succeeds_literals_of_areConstants : (xs : List Value) → areConstants xs →
    Succeeds (literals r bare xs)
  | [] => fun _ => succeeds_pure
  | x :: xs => fun h => by
    simp only [areConstants, Bool.and_eq_true] at h
    have ⟨l, hl⟩ := succeeds_literal_of_isConstant x h.left
    exact succeeds_bind.mpr
      ⟨l, hl, succeeds_bind_pure.mpr (succeeds_literals_of_areConstants xs h.right)⟩

theorem succeeds_literalEntries_of_areConstantEntries : (es : List (Value × Value)) →
    areConstantEntries es → Succeeds (literalEntries r bare es)
  | [] => fun _ => succeeds_pure
  | (k, v) :: es => fun h => by
    simp only [areConstantEntries, Bool.and_eq_true] at h
    have ⟨l, hl⟩ := succeeds_literal_of_isConstant v h.left.right
    -- The keys are names, so they are texts.
    have ⟨t, ht⟩ : Succeeds (k.toText r) := by
      cases k
      case text => exact succeeds_pure
      all_goals exact nomatch h.left.left
    exact succeeds_bind.mpr ⟨l, hl, succeeds_bind.mpr
      ⟨t, ht, succeeds_bind_pure.mpr (succeeds_literalEntries_of_areConstantEntries es h.right)⟩⟩

end

end Value

open Value

variable {r : Reading} {bare : Bool} {v : Value}

theorem Scalar.succeeds_literal_of_accepts {s : Scalar} (h : s.accepts v) :
    Succeeds (v.literal r bare) := by
  by_cases hs : s = .json
  case pos =>
    subst hs
    exact succeeds_literal_of_isConstant v h
  case neg =>
    cases v
    case bool | int | float | decimal | labelled | date | dateTime | text => exact succeeds_pure
    all_goals cases s <;> first | exact absurd rfl hs | exact nomatch h

theorem Base.succeeds_literal_of_accepts {b : Base} (h : b.accepts v) :
    Succeeds (v.literal r bare) := by
  cases b
  case scalar s => exact s.succeeds_literal_of_accepts h
  case enum =>
    cases v
    case text => exact succeeds_pure
    all_goals exact nomatch h
  case object => exact nomatch h

namespace Shape

variable {s : Shape}

theorem succeeds_literal_of_acceptsItem (h : s.acceptsItem v) : Succeeds (v.literal r bare) := by
  rcases acceptsItem_iff.mp h with ⟨rfl, _⟩ | h
  case inl => exact succeeds_pure
  case inr => exact s.base.succeeds_literal_of_accepts h

-- The check goes by what counts as a list, and the printer by what is one.
theorem succeeds_literal_iff_of_accepts (h : s.accepts v) :
    Succeeds (v.literal r bare) ↔ v.lacksLiteral = false := by
  cases hv : v.lacksLiteral
  case true => exact iff_of_false (not_succeeds_literal hv) nofun
  case false =>
    refine iff_of_true ?_ rfl
    have ⟨_, _, h⟩ := accepts_iff.mp h
    split at h
    case isFalse => exact s.base.succeeds_literal_of_accepts h
    case isTrue =>
      have ⟨xs, hs, hi⟩ := h
      have hl : Succeeds (literals r bare xs) :=
        succeeds_literals.mpr fun x hx => succeeds_literal_of_acceptsItem (hi x hx)
      cases v
      case list | tuple =>
        cases hs
        exact succeeds_bind_pure.mpr hl
      case progression | byteArray => exact nomatch hv
      all_goals exact nomatch hs

end Shape

end GraphSchema
