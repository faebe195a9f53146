import GraphSchema.Proofs.Field.Valid
import GraphSchema.Proofs.Value.Fault
import GraphSchema.Proofs.Value.Plain
import GraphSchema.Value.Json

namespace GraphSchema

open Outcome

-- The rules for building a schema were broken.
def Error.IsConfiguration : Error → Prop
  | misuse _ | duplicate _ => True
  | _ => False

open Error

namespace Value

variable {v : Value} {xs : List Value}

-- What is said of a value that is shown in this way, or what is wrong with showing it.
def refusal (shown : Except Error String) (reason : String → Misuse) : Error :=
  match shown with
  | .ok s => .misuse (reason s)
  | .error e => e

theorem refuse_eq {α : Type} (display : Value → Except Error String) (v : Value)
    (reason : String → Misuse) :
    (v.refuse display reason : Except Error α) = .error (refusal (display v) reason) := by
  unfold refuse refusal
  cases display v <;> rfl

theorem isConfiguration_refusal {shown : Except Error String} {reason : String → Misuse} :
    (refusal shown reason).IsConfiguration ↔ FailsBy IsConfiguration shown := by
  cases shown
  case ok => exact iff_of_true trivial nofun
  case error e => exact ⟨fun h _ he => Except.error.inj he ▸ h, fun h => h e rfl⟩

-- Values without objects.

section

variable {own : Ref → Option (List Value)} {ref : Ref → Except Error String}

mutual

theorem settle_of_isPlain : (v : Value) → isPlain v → settle own v = v
  | object _ => fun h => absurd h Bool.false_ne_true
  | list xs => fun h => congrArg list (settleAll_of_arePlain xs h)
  | tuple xs => fun h => congrArg tuple (settleAll_of_arePlain xs h)
  | stream xs => fun h => congrArg stream (settleAll_of_arePlain xs h)
  | dict es => fun h => congrArg dict (settleEntries_of_arePlainEntries es h)
  | enumMember id owner name v => fun h =>
    congrArg (enumMember id owner name) (settle_of_isPlain v h)
  | null | bool _ | int _ | float _ | decimal _ | date _ | dateTime _ | text _ | bytes _
  | byteArray _ | progression _ | foreign .. | enumClass .. | labelled .. | scalar _ | nodeKind _
  | enumRef .. | objectRef _ | script _ => fun _ => rfl

theorem settleAll_of_arePlain : (xs : List Value) → arePlain xs → settleAll own xs = xs
  | [] => fun _ => rfl
  | x :: xs => fun h => by
    simp only [arePlain, Bool.and_eq_true] at h
    rw [settleAll, settle_of_isPlain x h.left, settleAll_of_arePlain xs h.right]

theorem settleEntries_of_arePlainEntries : (es : List (Value × Value)) → arePlainEntries es →
    settleEntries own es = es
  | [] => fun _ => rfl
  | (k, v) :: es => fun h => by
    simp only [arePlainEntries, Bool.and_eq_true] at h
    rw [settleEntries, settle_of_isPlain k h.left.left, settle_of_isPlain v h.left.right,
      settleEntries_of_arePlainEntries es h.right]

end

mutual

theorem succeeds_display : (v : Value) → isPlain v → Succeeds (display ref v)
  | object _ => fun h => absurd h Bool.false_ne_true
  | list xs => fun h => succeeds_bind_pure.mpr (succeeds_displays xs h)
  | tuple xs => fun h => succeeds_bind_pure.mpr (succeeds_displays xs h)
  | dict es => fun h => succeeds_bind_pure.mpr (succeeds_displayEntries es h)
  | enumMember _ _ _ v => fun h => succeeds_bind_pure.mpr (succeeds_display v h)
  | null | bool _ | int _ | float _ | decimal _ | date _ | dateTime _ | text _ | bytes _
  | byteArray _ | progression _ | stream _ | foreign .. | enumClass .. | labelled .. | scalar _
  | nodeKind _ | enumRef .. | objectRef _ | script _ => fun _ => succeeds_pure

theorem succeeds_displays : (xs : List Value) → arePlain xs → Succeeds (displays ref xs)
  | [] => fun _ => succeeds_pure
  | x :: xs => fun h => by
    simp only [arePlain, Bool.and_eq_true] at h
    have ⟨t, ht⟩ := succeeds_display x h.left
    exact succeeds_bind.mpr ⟨t, ht, succeeds_bind_pure.mpr (succeeds_displays xs h.right)⟩

theorem succeeds_displayEntries : (es : List (Value × Value)) → arePlainEntries es →
    Succeeds (displayEntries ref es)
  | [] => fun _ => succeeds_pure
  | (k, v) :: es => fun h => by
    simp only [arePlainEntries, Bool.and_eq_true] at h
    have ⟨s, hs⟩ := succeeds_display k h.left.left
    have ⟨t, ht⟩ := succeeds_display v h.left.right
    exact succeeds_bind.mpr ⟨s, hs, succeeds_bind.mpr
      ⟨t, ht, succeeds_bind_pure.mpr (succeeds_displayEntries es h.right)⟩⟩

end

variable {r : Reading}

theorem succeeds_toText (h : v.isPlain) : Succeeds (v.toText r) := by
  cases v
  case object => exact absurd h Bool.false_ne_true
  case text | decimal | labelled | date | dateTime | enumMember | scalar | nodeKind =>
    exact succeeds_pure
  all_goals exact succeeds_display _ h

-- The one gap of a format takes a tuple of one.
theorem failsBy_filling_iff (h : v.isPlain) :
    FailsBy IsConfiguration (v.filling r) ↔ ∀ xs, v = .tuple xs → xs.length = 1 := by
  have other {t : TypeFault} : ¬ FailsBy IsConfiguration (throw (.type t) : Except Error String) :=
    fun h => h _ rfl
  cases v
  case tuple xs =>
    simp only [tuple.injEq, forall_eq']
    rcases xs with _ | ⟨x, _ | ⟨y, ys⟩⟩
    · exact iff_of_false other (by simp)
    · have hx : x.isPlain := arePlain_iff.mp h x List.mem_cons_self
      exact iff_of_true (failsBy_of_succeeds (succeeds_toText hx)) rfl
    · exact iff_of_false other (by simp)
  all_goals
    exact iff_of_true (failsBy_of_succeeds (succeeds_toText (r := r) h)) (by rintro _ ⟨⟩)

end

end Value

namespace Store

open Value (refusal)

variable {σ : Store} {v x : Value} {xs : List Value}

-- The calls that take a value for a name, with what is shown of it and said if it is none. Among
-- others it is looked at if nothing is wrong with those before it.
inductive Takes (σ : Store) (v : Value) :
    Call → Except Error String → (String → Misuse) → Prop
  | objectRef : Takes σ v (.objectRef v) (σ.filling v) (.badName "type")
  | enumRef (values : Value) : Takes σ v (.enumRef v values) (σ.filling v) (.badName "type")
  | interface (fields : Value) :
    Takes σ v (.interface v fields) (σ.text v) (.badName "interface")
  | type (fields : Value) : Takes σ v (.type v fields) (σ.text v) (.badName "type")
  | enum (values : Value) : Takes σ v (.enum v values) (σ.text v) (.badName "enum")
  | invalidation :
    Takes σ v (.invalidation (.text "field") v) (σ.display v) .invalidationField
  | interfaceField {n : String} (name : isName n) (es fs : List (Value × Value)) (field : Value) :
    Takes σ v (.interface (.text n) (.dict (es ++ (v, field) :: fs)))
      (es.mapM (σ.checkFieldEntry n) >>= fun _ => σ.text v) (.badName "field")
  | typeField {n : String} (name : isName n) (es fs : List (Value × Value)) (field : Value) :
    Takes σ v (.type (.text n) (.dict (es ++ (v, field) :: fs)))
      (es.mapM (σ.checkFieldEntry n) >>= fun _ => σ.text v) (.badName "field")
  | enumValue {n : String} {values : Value} {xs ys : List Value} (name : isName n)
      (noText : values.text? = none) (items : σ.items? values = some (xs ++ v :: ys)) :
    Takes σ v (.enum (.text n) values) (σ.checkEnumValues [] xs >>= fun _ => σ.text v)
      (.badName "enum value")
  | scope {field scope : Value} {f : Numbered Field} {xs ys : List Value}
      (fits : σ.checkWrap .unique field = .ok f) (noText : scope.text? = none)
      (items : σ.items? scope = some (xs ++ v :: ys)) (before : ∀ x ∈ xs, x.isNameText) :
    Takes σ v (.unique field scope) (σ.display v) .scopeName

theorem checkName_of_not_isNameText (hv : ¬ v.isNameText) (what : String) :
    σ.checkName what v = .error (refusal (σ.text v) (.badName what)) := by
  unfold checkName
  split
  case h_1 t => exact if_neg hv
  case h_2 => exact Value.refuse_eq ..

theorem checkFieldList_of_not_isNameText {n : String} (hv : ¬ v.isNameText)
    (es fs : List (Value × Value)) (field : Value) :
    σ.checkFieldList n (.dict (es ++ (v, field) :: fs)) =
      .error (refusal (es.mapM (σ.checkFieldEntry n) >>= fun _ => σ.text v)
        (.badName "field")) := by
  have entry : σ.checkFieldEntry n (v, field) = .error (refusal (σ.text v) (.badName "field")) := by
    rw [checkFieldEntry, checkName_of_not_isNameText hv]
    rfl
  rw [checkFieldList, List.mapM_append, List.mapM_cons, entry]
  cases es.mapM (σ.checkFieldEntry n) <;> rfl

theorem checkEnumValues_append (seen : List String) (xs ys : List Value) :
    σ.checkEnumValues seen (xs ++ ys) =
      σ.checkEnumValues seen xs >>= fun seen => σ.checkEnumValues seen ys := by
  induction xs generalizing seen
  case nil => rfl
  case cons x xs hi =>
    rw [List.cons_append, checkEnumValues, checkEnumValues]
    cases σ.checkName "enum value" x
    case error => rfl
    case ok s =>
      change (if _ then _ else if _ then _ else _) = (if _ then _ else if _ then _ else _) >>= _
      split
      case isTrue => rfl
      case isFalse =>
        split
        case isTrue => rfl
        case isFalse => exact hi _

theorem checkEnumValues_of_not_isNameText (hv : ¬ v.isNameText) (xs ys : List Value) :
    σ.checkEnumValues [] (xs ++ v :: ys) =
      .error (refusal (σ.checkEnumValues [] xs >>= fun _ => σ.text v) (.badName "enum value")) := by
  rw [checkEnumValues_append]
  cases σ.checkEnumValues [] xs
  case error => rfl
  case ok seen =>
    change σ.checkEnumValues seen (v :: ys) = _
    rw [checkEnumValues, checkName_of_not_isNameText hv]
    rfl

-- A progression is refused for its first number, and this is all that is looked at.
theorem checkEnumValues_front {values : Value} (h : σ.items? values = some xs) :
    ∃ ys, σ.items values.front = .ok ys ∧ σ.checkEnumValues [] ys = σ.checkEnumValues [] xs := by
  cases values
  case progression p =>
    have h : p.toList.map Value.int = xs := Option.some.inj h
    by_cases hz : p.size = 0
    case pos =>
      have none : p.toList = [] := List.eq_nil_of_length_eq_zero (p.length_toList.trans hz)
      exact ⟨[], by simp [Value.front, hz, items, items?, Value.items?], by simp [← h, none]⟩
    case neg =>
      obtain ⟨ns, hl⟩ := p.exists_toList_eq_cons hz
      refine ⟨[.int p.start], by simp [Value.front, hz, items, items?, Value.items?], ?_⟩
      rw [← h, hl]
      rfl
  all_goals exact ⟨xs, by simp only [Value.front, items, h], rfl⟩

theorem checkInvalidation_field (v : Value) :
    σ.checkInvalidation (.text "field") v = match v with
      | .text n => if isName n then .ok (.field n) else v.refuse σ.display .invalidationField
      | v => v.refuse σ.display .invalidationField := rfl

section

variable (hv : ¬ v.isNameText)

include hv

theorem newObjectRef_of_not_isNameText :
    σ.newObjectRef v = .error (refusal (σ.filling v) (.badName "type")) := by
  unfold newObjectRef
  split
  case h_1 => exact if_neg hv
  case h_2 => exact Value.refuse_eq ..

theorem newEnumRef_of_not_isNameText (values : Value) :
    σ.newEnumRef v values = .error (refusal (σ.filling v) (.badName "type")) := by
  unfold newEnumRef
  split
  case h_1 => exact if_pos (Bool.not_eq_true' _ ▸ Bool.eq_false_iff.mpr hv)
  case h_2 => exact Value.refuse_eq ..

theorem checkInvalidation_of_not_isNameText : σ.checkInvalidation (.text "field") v =
    .error (refusal (σ.display v) .invalidationField) := by
  rw [checkInvalidation_field]
  split
  case h_1 => exact (if_neg hv).trans (Value.refuse_eq ..)
  case h_2 => exact Value.refuse_eq ..

end

theorem Takes.plan_eq {c : Call} {shown : Except Error String} {reason : String → Misuse}
    (h : σ.Takes v c shown reason) (hv : ¬ v.isNameText) :
    σ.plan c = .error (refusal shown reason) := by
  have name := checkName_of_not_isNameText (σ := σ) hv
  have given {n : String} (hn : isName n) (what : String) : σ.checkName what (.text n) = .ok n :=
    checkName_eq_ok_iff.mpr ⟨rfl, hn⟩
  cases h
  case objectRef => exact newObjectRef_of_not_isNameText hv
  case enumRef values => exact newEnumRef_of_not_isNameText hv values
  case interface => rw [plan, newInterface, checkInterface, name]; rfl
  case type => rw [plan, newType, checkType, name]; rfl
  case enum => rw [plan, newEnum, checkEnum, name]; rfl
  case invalidation => rw [plan, newInvalidation, checkInvalidation_of_not_isNameText hv]; rfl
  case interfaceField n hn es fs field =>
    rw [plan, newInterface, checkInterface, given hn]
    change (σ.checkFieldList n _ >>= _) >>= _ = _
    rw [checkFieldList_of_not_isNameText hv]
    rfl
  case typeField n hn es fs field =>
    rw [plan, newType, checkType, given hn]
    change (σ.checkFieldList n _ >>= _) >>= _ = _
    rw [checkFieldList_of_not_isNameText hv]
    rfl
  case enumValue n values xs ys hn noText items =>
    obtain ⟨zs, items, same⟩ := checkEnumValues_front items
    rw [plan, newEnum, checkEnum, given hn, noText]
    change (σ.items values.front >>= fun xs => σ.checkEnumValues [] xs >>= _) >>= _ = _
    rw [items]
    change (σ.checkEnumValues [] _ >>= _) >>= _ = _
    rw [same, checkEnumValues_of_not_isNameText hv]
    rfl
  case scope field scope f xs ys fits noText items before =>
    have first : (xs ++ v :: ys).find? (! ·.isNameText) = some v := by
      have none : xs.find? (! ·.isNameText) = none := by simpa using before
      rw [List.find?_append, none, Option.none_or, List.find?_cons_of_pos (by simpa using hv)]
    rw [plan, unique, fits, checkScope_eq noText items, first]
    change (v.refuse σ.display .scopeName >>= _ : Decision) = _
    rw [Value.refuse_eq]
    rfl

-- What is no name is refused, and for breaking the rules unless showing it fails for another
-- reason. A value without objects can be shown, only a reference takes it for the list of what to
-- show.
theorem refused_of_not_isNameText (σ : Store) (v : Value) (hv : ¬ v.isNameText) :
    (∀ c shown reason, σ.Takes v c shown reason →
      σ.perform c = (.error (refusal shown reason), σ) ∧
        ((refusal shown reason).IsConfiguration ↔ FailsBy IsConfiguration shown)) ∧
    (v.isPlain → Succeeds (σ.text v) ∧ Succeeds (σ.display v) ∧
      (FailsBy IsConfiguration (σ.filling v) ↔ ∀ xs, v = .tuple xs → xs.length = 1)) := by
  refine ⟨fun c shown reason h => ⟨perform_of_refusal (h.plan_eq hv), ?_⟩, fun h => ?_⟩
  · exact Value.isConfiguration_refusal
  · have still : σ.settle v = v := Value.settle_of_isPlain v h
    rw [text, display, filling, still]
    exact ⟨Value.succeeds_toText h, Value.succeeds_display v h, Value.failsBy_filling_iff h⟩

-- A pair is refused like any other value where the name of a type is asked for, but not where the
-- type itself is.
theorem refused_of_not_isNameText_pair :
    let pair := Value.tuple [.text "a", .text "b"]
    let σ : Store := {}
    σ.perform (.type pair .null) = (.error (.misuse (.badName "type" "('a', 'b')")), σ) ∧
      ∃ e, σ.perform (.objectRef pair) = (.error e, σ) ∧ ¬ e.IsConfiguration := by
  intro pair σ
  have ⟨refused, shown⟩ := refused_of_not_isNameText σ pair (by decide)
  have ⟨made, _⟩ := refused _ _ _ (.type .null)
  have ⟨meant, kind⟩ := refused _ _ _ .objectRef
  have ⟨_, _, one⟩ := shown rfl
  exact ⟨made, _, meant, fun h => absurd (one.mp (kind.mp h) _ rfl) (by decide)⟩

theorem not_takes_isConfiguration :
    ¬ ∀ (σ : Store) (v : Value), ¬ v.isNameText → ∀ c shown reason, σ.Takes v c shown reason →
      ∃ e, σ.perform c = (.error e, σ) ∧ e.IsConfiguration := by
  intro h
  have ⟨e, he, kind⟩ := h {} (.tuple [.text "a", .text "b"]) (by decide) _ _ _ .objectRef
  cases he
  exact kind

end Store

end GraphSchema
