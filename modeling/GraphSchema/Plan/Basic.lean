import GraphSchema.Store.Text

namespace GraphSchema

structure Plan where
  changes : List Change
  answer : Value

abbrev Decision := Except Error Plan

namespace Plan

def say (v : Value) : Plan := ⟨[], v⟩

end Plan

def Misuse.refusal {α : Type} (m : Misuse) : Except Error α := .error (.misuse m)

@[simp]
theorem Misuse.refusal_ne_ok {α : Type} {m : Misuse} {a : α} : m.refusal ≠ .ok a := by
  simp [Misuse.refusal]

namespace Store

def lacks {α : Type} (σ : Store) (v : Value) (property : String) : Except Error α :=
  match v with
  | .enumClass .. => .error (.noMember property)
  | v => .error (.noProperty (v.typeName σ.typeName) property)

def checkName (σ : Store) (what : String) (v : Value) : Except Error String :=
  match v with
  | .text s => if isName s then .ok s else (Misuse.badName what s).refusal
  | v => v.refuse σ.text (.badName what)

theorem checkName_eq_ok_iff {σ : Store} {what : String} {v : Value} {s : String} :
    σ.checkName what v = .ok s ↔ v = .text s ∧ isName s := by
  unfold checkName
  split
  · next t =>
    by_cases h : isName t
    · simp only [h, if_true, Except.ok.injEq, Value.text.injEq]
      exact ⟨fun e => ⟨e, e ▸ h⟩, And.left⟩
    · simp only [h, Bool.false_eq_true, if_false, Misuse.refusal_ne_ok, false_iff, not_and,
        Value.text.injEq]
      exact fun e => e ▸ h
  · next hv => simp only [Value.refuse_ne_ok, false_iff, not_and]; exact fun e => (hv _ e).elim

end Store

end GraphSchema
