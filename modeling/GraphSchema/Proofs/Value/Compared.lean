import GraphSchema.Proofs.Value.Plain
import GraphSchema.Store.Items

namespace GraphSchema

namespace Value

variable {same same' met met' : Ref → Ref → Bool}

mutual

theorem equals_of_isPlain : (v : Value) → v.isPlain → (w : Value) →
    v.equals same w = v.equals same' w
  | list xs => fun h w => by
    cases w
    case list ys => exact equalsAll_of_arePlain xs h ys
    all_goals rfl
  | tuple xs => fun h w => by
    cases w
    case tuple ys => exact equalsAll_of_arePlain xs h ys
    all_goals rfl
  | dict es => fun h w => by
    cases w
    case dict fs => exact congrArg (es.length == fs.length && ·) (equalsEntries_of_arePlain es h fs)
    all_goals rfl
  | object _ => fun h => absurd h Bool.false_ne_true
  | null | bool _ | int _ | float _ | decimal _ | date _ | dateTime _ | text _ | bytes _
  | byteArray _ | progression _ | stream _ | foreign .. | enumClass .. | labelled .. | enumMember ..
  | scalar _ | nodeKind _ | enumRef .. | objectRef _ | script _ => fun _ w => by cases w <;> rfl

theorem equalsAll_of_arePlain : (xs : List Value) → arePlain xs → (ys : List Value) →
    equalsAll same xs ys = equalsAll same' xs ys
  | [] => fun _ ys => by cases ys <;> rfl
  | x :: xs => fun h ys => by
    rw [arePlain, Bool.and_eq_true] at h
    cases ys
    case nil => rfl
    case cons y ys =>
      rw [equalsAll, equalsAll, equals_of_isPlain x h.left y, equalsAll_of_arePlain xs h.right ys]

theorem equalsEntries_of_arePlain : (es : List (Value × Value)) → arePlainEntries es →
    (fs : List (Value × Value)) → equalsEntries same es fs = equalsEntries same' es fs
  | [] => fun _ _ => rfl
  | (k, v) :: es => fun h fs => by
    simp only [arePlainEntries, Bool.and_eq_true] at h
    have key (k' : Value) := equals_of_isPlain k h.left.left k'
    have value (v' : Value) := equals_of_isPlain v h.left.right v'
    rw [equalsEntries, equalsEntries, equalsEntries_of_arePlain es h.right fs]
    simp only [key, value]

end

theorem alike_of_isPlain {v : Value} (h : v.isPlain) (w : Value) :
    alike same v w = alike same' v w := by
  rw [alike, alike, equals_of_isPlain v h w]

mutual

theorem signals_of_isPlain : (v : Value) → v.isPlain → (w : Value) →
    v.signals same met w = v.signals same' met' w
  | list xs => fun h w => by
    cases w
    case list ys => exact congrArg (xs.length == ys.length && ·) (signalsAny_of_arePlain xs h ys)
    all_goals rfl
  | tuple xs => fun h w => by
    cases w
    case tuple ys => exact signalsAny_of_arePlain xs h ys
    all_goals rfl
  | dict es => fun h w => by
    cases w
    case dict fs =>
      exact congrArg (es.length == fs.length && ·) (signalsEntries_of_arePlain es h fs)
    all_goals rfl
  | object _ => fun h => absurd h Bool.false_ne_true
  | null | bool _ | int _ | float _ | decimal _ | date _ | dateTime _ | text _ | bytes _
  | byteArray _ | progression _ | stream _ | foreign .. | enumClass .. | labelled .. | enumMember ..
  | scalar _ | nodeKind _ | enumRef .. | objectRef _ | script _ => fun _ w => by cases w <;> rfl

theorem signalsAny_of_arePlain : (xs : List Value) → arePlain xs → (ys : List Value) →
    signalsAny same met xs ys = signalsAny same' met' xs ys
  | [] => fun _ ys => by cases ys <;> rfl
  | x :: xs => fun h ys => by
    rw [arePlain, Bool.and_eq_true] at h
    cases ys
    case nil => rfl
    case cons y ys =>
      rw [signalsAny, signalsAny, signals_of_isPlain x h.left y, alike_of_isPlain h.left y,
        signalsAny_of_arePlain xs h.right ys]

theorem signalsEntries_of_arePlain : (es : List (Value × Value)) → arePlainEntries es →
    (fs : List (Value × Value)) →
    signalsEntries same met es fs = signalsEntries same' met' es fs
  | [] => fun _ _ => rfl
  | (k, v) :: es => fun h fs => by
    simp only [arePlainEntries, Bool.and_eq_true] at h
    have key (k' : Value) : alike same k k' = alike same' k k' := alike_of_isPlain h.left.left k'
    have value (v' : Value) : alike same v v' = alike same' v v' := alike_of_isPlain h.left.right v'
    have signal (v' : Value) := signals_of_isPlain v h.left.right v'
    rw [signalsEntries, signalsEntries, signalsEntries_of_arePlain es h.right fs]
    simp only [key, value, signal]

end

end Value

namespace Store

-- Comparing two values, with invalidations looked into up to the given depth.
def compareAt (σ : Store) (n : Nat) (v w : Value) : Except Error Bool :=
  if (σ.settle v).signals (σ.sameAt n) (σ.signalsAt n) (σ.settle w) then
    .error (.arithmetic .signaling)
  else .ok ((σ.settle v).equals (σ.sameAt n) (σ.settle w))

variable {σ : Store} {v w : Value}

theorem compare_eq (v w : Value) : σ.compare v w = σ.compareAt σ.invalidations.size v w := rfl

theorem compareAt_of_isPlain (h : (σ.settle v).isPlain) (n : Nat) :
    σ.compareAt n v w = σ.compare v w := by
  rw [compare_eq, compareAt, compareAt, Value.signals_of_isPlain _ h, Value.equals_of_isPlain _ h]

end Store

end GraphSchema
