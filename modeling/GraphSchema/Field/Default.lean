import GraphSchema.Field.Shape
import GraphSchema.Value.Items
import GraphSchema.Value.Literal
import GraphSchema.Calendar.Reader

namespace GraphSchema

namespace Scalar

def accepts (s : Scalar) (v : Value) : Bool :=
  match s with
  | id | string | email | url | ipAddress | phoneNumber => v.text?.isSome
  | int | bigInt => v.int?.isSome
  | float | decimal => v.isNumber
  | boolean =>
    match v with
    | .bool _ => true
    | _ => false
  | date =>
    match v with
    | .text t => Iso.isDateText t
    | .date _ => true
    | _ => false
  | dateTime =>
    match v with
    | .text t => Iso.isDateTimeText t
    | .dateTime _ => true
    | _ => false
  | timestamp =>
    match v with
    | .int _ | .labelled (.int _) _ | .text _ | .dateTime _ => true
    | _ => false
  | json => v.isConstant

end Scalar

namespace Base

-- Enums take the text of a value, any text where the values are not known.
def accepts (b : Base) (v : Value) : Bool :=
  match b with
  | scalar s => s.accepts v
  | enum _ vs =>
    match v with
    | .text t => vs.all fun vs => vs.any (·.text? == some t)
    | _ => false
  | object _ => false

end Base

namespace Shape

def acceptsItem (s : Shape) (v : Value) : Bool :=
  (v.isNull && s.itemNullable) || s.base.accepts v

def accepts (s : Shape) (v : Value) : Bool :=
  ! v.isNull && ! s.isObject &&
    if s.isList then v.sequence?.any (·.all s.acceptsItem) else s.base.accepts v

theorem acceptsItem_int {s : Shape} (m n : Int) :
    s.acceptsItem (.int m) = s.acceptsItem (.int n) := by
  unfold acceptsItem Base.accepts
  cases s.base with
  | scalar k => cases k <;> simp [Scalar.accepts, Value.isNull, Value.text?, Value.int?,
      Value.isNumber, Value.isConstant]
  | enum _ _ => rfl
  | object _ => rfl

theorem accepts_front {s : Shape} (v : Value) :
    v.front.sequence?.any (·.all s.acceptsItem) = v.sequence?.any (·.all s.acceptsItem) := by
  cases v with
  | progression p =>
    simp only [Value.front, Value.sequence?, Option.any_some]
    rw [Bool.eq_iff_iff, List.all_eq_true, List.all_eq_true]
    by_cases hz : p.size = 0
    · simp [hz, Progression.toList]
    · rw [if_neg hz]
      constructor
      · intro h x hx
        obtain ⟨n, -, rfl⟩ := List.mem_map.1 hx
        rw [acceptsItem_int n p.start]
        exact h _ (List.mem_singleton.2 rfl)
      · intro h x hx
        rw [List.mem_singleton.1 hx, acceptsItem_int p.start (p.start + (0 : Nat) * p.step)]
        have h0 : 0 ∈ List.range p.size := List.mem_range.2 (Nat.pos_of_ne_zero hz)
        exact h _ (List.mem_map.2 ⟨_, List.mem_map.2 ⟨0, h0, rfl⟩, rfl⟩)
  | _ => rfl

def checkDefault (display : Value → Except Error String) (s : Shape) (v : Value) :
    Except Error Unit :=
  if v.isNull then .error (.misuse .nullDefault)
  else if s.isObject then .error (.misuse (.referenceDefault s.text))
  else if s.isList then
    match v.front.sequence? with
    | none => v.refuse display (.listDefault s.text)
    | some xs =>
      match xs.find? (! s.acceptsItem ·) with
      | none => .ok ()
      | some x => x.refuse display (.listItem · s.text)
  else if s.base.accepts v then .ok ()
  else v.refuse display (.defaultValue · s.text)

theorem checkDefault_eq_ok_iff {display : Value → Except Error String} {s : Shape} {v : Value} :
    s.checkDefault display v = .ok () ↔ s.accepts v := by
  unfold checkDefault accepts
  by_cases hn : v.isNull
  · simp [hn]
  by_cases ho : s.isObject
  · simp [hn, ho]
  by_cases hl : s.isList
  · rw [← accepts_front]
    cases hs : v.front.sequence? with
    | none => simp [hn, ho, hl]
    | some xs =>
      cases hf : xs.find? (! s.acceptsItem ·) with
      | none =>
        have hx := List.find?_eq_none.1 hf
        simp [hn, ho, hl, hf]
        simpa using hx
      | some x =>
        have hx := List.find?_some hf
        have hm := List.mem_of_find?_eq_some hf
        simp [hn, ho, hl, hf]
        exact ⟨x, hm, by simpa using hx⟩
  · by_cases ha : s.base.accepts v <;> simp [hn, ho, hl, ha]

end Shape

end GraphSchema
