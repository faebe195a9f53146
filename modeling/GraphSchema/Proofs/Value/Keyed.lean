import GraphSchema.Proofs.Outcome
import GraphSchema.Proofs.Value.Plain
import GraphSchema.Store.Items

namespace GraphSchema

open Outcome

namespace Value

-- The keys of all objects are names.

mutual

def isKeyed : Value → Bool
  | list xs | tuple xs => areKeyed xs
  | dict es => areKeyedEntries es
  | _ => true

def areKeyed : List Value → Bool
  | [] => true
  | x :: xs => isKeyed x && areKeyed xs

def areKeyedEntries : List (Value × Value) → Bool
  | [] => true
  | (k, v) :: es => isNameText k && isKeyed v && areKeyedEntries es

end

-- Which objects a value refers to makes no difference to its keys.

section

variable {own : Ref → Option (List Value)}

theorem isNameText_settle (v : Value) : isNameText (settle own v) = isNameText v := by
  cases v
  case object r => cases hr : own r <;> simp [settle, hr, isNameText]
  all_goals rfl

mutual

theorem isKeyed_settle (h : ∀ r xs, own r = some xs → areKeyed xs) :
    (v : Value) → isKeyed (settle own v) = isKeyed v
  | object r => by
    cases hr : own r
    case none => simp [settle, hr]
    case some xs => simpa [settle, hr, isKeyed] using h r xs hr
  | list xs | tuple xs => areKeyed_settleAll h xs
  | dict es => areKeyedEntries_settleEntries h es
  | null | bool _ | int _ | float _ | decimal _ | date _ | dateTime _ | text _ | bytes _
  | byteArray _ | progression _ | foreign .. | enumClass .. | labelled .. | scalar _ | nodeKind _
  | enumRef .. | objectRef _ | script _ | stream _ | enumMember .. => rfl

theorem areKeyed_settleAll (h : ∀ r xs, own r = some xs → areKeyed xs) :
    (xs : List Value) → areKeyed (settleAll own xs) = areKeyed xs
  | [] => rfl
  | x :: xs => by simp only [settleAll, areKeyed, isKeyed_settle h x, areKeyed_settleAll h xs]

theorem areKeyedEntries_settleEntries (h : ∀ r xs, own r = some xs → areKeyed xs) :
    (es : List (Value × Value)) → areKeyedEntries (settleEntries own es) = areKeyedEntries es
  | [] => rfl
  | (k, v) :: es => by
    simp only [settleEntries, areKeyedEntries, isNameText_settle, isKeyed_settle h v,
      areKeyedEntries_settleEntries h es]

end

end

-- What is accepted as a default has names for keys.

theorem areKeyed_iff {xs : List Value} : areKeyed xs ↔ ∀ x ∈ xs, isKeyed x := by
  induction xs
  case nil => simp [areKeyed]
  case cons x xs hi => simp [areKeyed, hi]

-- The keys themselves, at any depth.

mutual

def keys : Value → List String
  | list xs | tuple xs => listKeys xs
  | dict es => entryKeys es
  | _ => []

def listKeys : List Value → List String
  | [] => []
  | x :: xs => keys x ++ listKeys xs

def entryKeys : List (Value × Value) → List String
  | [] => []
  | (k, v) :: es => k.text?.toList ++ keys v ++ entryKeys es

end

section

variable {k : String}

theorem mem_listKeys {xs : List Value} : k ∈ listKeys xs ↔ ∃ x ∈ xs, k ∈ keys x := by
  induction xs
  case nil => simp [listKeys]
  case cons x xs hi => simp [listKeys, hi]

mutual

theorem isName_of_mem_keys : (v : Value) → isKeyed v → k ∈ keys v → isName k
  | list xs | tuple xs => fun h => isName_of_mem_listKeys xs h
  | dict es => fun h => isName_of_mem_entryKeys es h
  | null | bool _ | int _ | float _ | decimal _ | date _ | dateTime _ | text _ | bytes _
  | byteArray _ | progression _ | foreign .. | enumClass .. | labelled .. | scalar _ | nodeKind _
  | enumRef .. | objectRef _ | script _ | object _ | stream _ | enumMember .. => fun _ => nofun

theorem isName_of_mem_listKeys : (xs : List Value) → areKeyed xs → k ∈ listKeys xs → isName k
  | [] => fun _ => nofun
  | x :: xs => fun h hk => by
    rw [areKeyed, Bool.and_eq_true] at h
    rcases List.mem_append.mp hk with hk | hk
    · exact isName_of_mem_keys x h.left hk
    · exact isName_of_mem_listKeys xs h.right hk

theorem isName_of_mem_entryKeys : (es : List (Value × Value)) → areKeyedEntries es →
    k ∈ entryKeys es → isName k
  | [] => fun _ => nofun
  | (w, v) :: es => fun h hk => by
    rw [areKeyedEntries, Bool.and_eq_true, Bool.and_eq_true] at h
    rw [entryKeys, List.append_assoc] at hk
    rcases List.mem_append.mp hk with hk | hk
    · cases w
      case text => exact List.mem_singleton.mp hk ▸ h.left.left
      all_goals exact nomatch hk
    · rcases List.mem_append.mp hk with hk | hk
      · exact isName_of_mem_keys v h.left.right hk
      · exact isName_of_mem_entryKeys es h.right hk

end

end

mutual

theorem isKeyed_of_isConstant : (v : Value) → isConstant v → isKeyed v
  | list xs | tuple xs => fun h => areKeyed_of_areConstants xs h
  | dict es => fun h => areKeyedEntries_of_areConstantEntries es h
  | null | bool _ | int _ | float _ | decimal _ | date _ | dateTime _ | text _ | bytes _
  | byteArray _ | progression _ | foreign .. | enumClass .. | labelled .. | scalar _ | nodeKind _
  | enumRef .. | objectRef _ | script _ | object _ | stream _ | enumMember .. => fun _ => rfl

theorem areKeyed_of_areConstants : (xs : List Value) → areConstants xs → areKeyed xs
  | [] => fun _ => rfl
  | x :: xs => fun h => by
    simp only [areConstants, areKeyed, Bool.and_eq_true] at h ⊢
    exact ⟨isKeyed_of_isConstant x h.left, areKeyed_of_areConstants xs h.right⟩

theorem areKeyedEntries_of_areConstantEntries : (es : List (Value × Value)) →
    areConstantEntries es → areKeyedEntries es
  | [] => fun _ => rfl
  | (k, v) :: es => fun h => by
    simp only [areConstantEntries, areKeyedEntries, Bool.and_eq_true] at h ⊢
    exact ⟨⟨h.left.left, isKeyed_of_isConstant v h.left.right⟩,
      areKeyedEntries_of_areConstantEntries es h.right⟩

end

-- How references read makes a difference to what is said about a value without a literal only.

section

variable {r s : Reading} {bare : Bool}

mutual

theorem toOption_literal_eq : (v : Value) → isKeyed v →
    (literal r bare v).toOption = (literal s bare v).toOption
  | dict es => fun h => by
    simp only [literal, toOption_bind, toOption_literalEntries_eq es h]
  | list xs | tuple xs => fun h => by
    simp only [literal, toOption_bind, toOption_literals_eq xs h]
  | null | bool _ | int _ | float _ | decimal _ | date _ | dateTime _ | text _ => fun _ => rfl
  | bytes _ | byteArray _ | progression _ | foreign .. | enumClass .. | labelled .. | scalar _
  | nodeKind _ | enumRef .. | objectRef _ | script _ | object _ | stream _
  | enumMember .. => fun _ => by
    simp only [literal, toOption_bind_throw]

theorem toOption_literals_eq : (xs : List Value) → areKeyed xs →
    (literals r bare xs).toOption = (literals s bare xs).toOption
  | [] => fun _ => rfl
  | x :: xs => fun h => by
    simp only [areKeyed, Bool.and_eq_true] at h
    simp only [literals, toOption_bind, toOption_literal_eq x h.left,
      toOption_literals_eq xs h.right]

theorem toOption_literalEntries_eq : (es : List (Value × Value)) → areKeyedEntries es →
    (literalEntries r bare es).toOption = (literalEntries s bare es).toOption
  | [] => fun _ => rfl
  | (k, v) :: es => fun h => by
    simp only [areKeyedEntries, Bool.and_eq_true] at h
    have hk : k.toText r = k.toText s := by
      cases k
      case text => rfl
      all_goals exact nomatch h.left.left
    simp only [literalEntries, toOption_bind, toOption_literal_eq v h.left.right, hk,
      toOption_literalEntries_eq es h.right]

end

end

end Value

open Value

theorem Base.isKeyed_of_accepts {b : Base} {v : Value} (h : b.accepts v) : v.isKeyed := by
  cases v
  case list | tuple | dict =>
    cases b
    case scalar s =>
      cases s
      case json => exact isKeyed_of_isConstant _ h
      all_goals exact nomatch h
    all_goals exact nomatch h
  all_goals rfl

theorem Shape.isKeyed_of_accepts {s : Shape} {v : Value} (h : s.accepts v) : v.isKeyed := by
  have ⟨_, _, h⟩ := accepts_iff.mp h
  split at h
  case isFalse => exact s.base.isKeyed_of_accepts h
  case isTrue =>
    have ⟨xs, hs, hi⟩ := h
    have hk : areKeyed xs := areKeyed_iff.mpr fun x hx => by
      rcases acceptsItem_iff.mp (hi x hx) with ⟨rfl, _⟩ | h
      case inl => rfl
      case inr => exact s.base.isKeyed_of_accepts h
    cases v
    case list | tuple => cases hs; exact hk
    case dict => exact nomatch hs
    all_goals rfl

namespace Store

variable {σ : Store}

theorem areKeyed_ownList? {r : Ref} {xs : List Value} (h : σ.ownList? r = some xs) :
    areKeyed xs := by
  have keyed {α : Type} (as : List α) (f : α → Value) (hf : ∀ a, (f a).isKeyed) :
      areKeyed (as.map f) :=
    areKeyed_iff.mpr fun x hx => have ⟨a, _, e⟩ := List.mem_map.mp hx; e ▸ hf a
  cases r
  case operations | rules | interfaces =>
    have ⟨_, _, e⟩ := Option.map_eq_some_iff.mp h
    exact e ▸ keyed _ _ fun _ => rfl
  all_goals exact nomatch h

theorem isKeyed_settle (v : Value) : (σ.settle v).isKeyed = v.isKeyed :=
  Value.isKeyed_settle (fun _ _ => areKeyed_ownList?) v

end Store

end GraphSchema
