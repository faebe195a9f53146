import GraphSchema.Cache
import GraphSchema.Proofs.Decoding.Directive

namespace GraphSchema

open Decoding

theorem Policy.name_inj {p q : Policy} (h : p.name = q.name) : p = q := by
  have h := congrArg Policy.ofName? h
  rw [Policy.ofName?_name, Policy.ofName?_name] at h
  exact Option.some.inj h

namespace Invalidation

theorem text_field_inj {m n : String} (h : (field m).text = (field n).text) : m = n := by
  have h := congrArg String.toList h
  simp only [text, String.toList_append, List.append_assoc] at h
  exact (quote_append_inj (List.append_cancel_left h)).left

-- Only names of fields have braces around them.
theorem text_policy_ne_text_field (p : Policy) (v : Value) (n : String) :
    (policy p v).text ≠ (field n).text := by
  intro h
  have h := congrArg String.toList h
  simp only [text, String.toList_append, List.append_assoc] at h
  cases p <;> exact absurd (List.cons.inj h).left (by decide)

end Invalidation

-- To serve for no time what is stale is not to serve it at all.
def FieldCache.SameTimes (p q : FieldCache) : Prop :=
  p.maxAge = q.maxAge ∧ p.staleWhileRevalidate.getD 0 = q.staleWhileRevalidate.getD 0

namespace TypeCache

variable {c d : TypeCache} {m n : Nat} {t u : Option String}

-- What follows the first time: the second one if there is any, and the rest.

def staleText (n : Nat) : String :=
  if n = 0 then "" else ", " ++ ("staleWhileRevalidate: " ++ toString n)

def restText : Option String → String
  | none => ")"
  | some t => ", " ++ ("mutationInvalidation: " ++ (t ++ ")"))

theorem text_eq (c : TypeCache) :
    c.text = "@cache(" ++ ("maxAge: " ++ (toString c.params.maxAge ++
      (staleText (c.params.staleWhileRevalidate.getD 0) ++
        restText (c.invalidation.map (·.val.text))))) := by
  obtain ⟨⟨age, stale⟩, i⟩ := c
  rcases stale with _ | _ | n <;> rcases i with _ | i <;>
    simp [text, arguments, FieldCache.arguments, FieldCache.staleArgument, FieldCache.directive,
      staleText, restText, String.append_assoc]

theorem endsDigits_rest (n : Nat) (t : Option String) :
    Decimal.EndsDigits (staleText n ++ restText t).toList := by
  rw [String.toList_append]
  by_cases hn : n = 0 <;> cases t <;> simp [staleText, restText, hn, Decimal.EndsDigits]

-- The same number follows the same words, and then the same rest.
theorem number_inj {k l r s : String} (hr : Decimal.EndsDigits r.toList)
    (hs : Decimal.EndsDigits s.toList)
    (h : k ++ (l ++ (toString m ++ r)) = k ++ (l ++ (toString n ++ s))) : m = n ∧ r = s := by
  have h := congrArg String.toList h
  simp only [String.toList_append] at h
  have ⟨hn, h⟩ := digits_append_inj hr hs (List.append_cancel_left (List.append_cancel_left h))
  exact ⟨hn, String.toList_inj.mp h⟩

theorem restText_inj (h : restText t = restText u) : t = u := by
  cases t <;> cases u
  case none.none => rfl
  case some.some =>
    have h := congrArg String.toList h
    simp only [restText, String.toList_append] at h
    have h := List.append_cancel_left (List.append_cancel_left h)
    rw [String.toList_inj.mp (List.append_cancel_right h)]
  all_goals exact absurd (congrArg String.toList h) (by simp [restText])

-- The arguments that may be missing differ in their first letters.
theorem stale_rest_inj (h : staleText m ++ restText t = staleText n ++ restText u) :
    m = n ∧ t = u := by
  unfold staleText at h
  split at h <;> split at h
  case isTrue.isTrue hm hn => exact ⟨hm.trans hn.symm, restText_inj (by simpa using h)⟩
  case isFalse.isFalse =>
    have ends (t : Option String) : Decimal.EndsDigits (restText t).toList := by
      simpa [staleText] using endsDigits_rest 0 t
    simp only [String.append_assoc] at h
    exact (number_inj (ends t) (ends u) h).imp_right restText_inj
  all_goals
    cases t <;> cases u <;> exact absurd (congrArg String.toList h) (by simp [restText])

theorem text_eq_iff : c.text = d.text ↔ c.params.SameTimes d.params ∧
    c.invalidation.map (·.val.text) = d.invalidation.map (·.val.text) := by
  rw [text_eq, text_eq]
  constructor
  · intro h
    have ⟨age, h⟩ := number_inj (endsDigits_rest _ _) (endsDigits_rest _ _) h
    have ⟨stale, rest⟩ := stale_rest_inj h
    exact ⟨⟨age, stale⟩, rest⟩
  · rintro ⟨⟨age, stale⟩, rest⟩
    rw [age, stale, rest]

end TypeCache

end GraphSchema
