import GraphSchema.Field.Default

namespace GraphSchema

namespace Value

mutual

def isPlain : Value → Bool
  | object _ => false
  | list xs | tuple xs | stream xs => arePlain xs
  | dict es => arePlainEntries es
  | enumMember _ _ _ v => isPlain v
  | _ => true

def arePlain : List Value → Bool
  | [] => true
  | x :: xs => isPlain x && arePlain xs

def arePlainEntries : List (Value × Value) → Bool
  | [] => true
  | (k, v) :: es => isPlain k && isPlain v && arePlainEntries es

end

theorem arePlain_iff {xs : List Value} : arePlain xs ↔ ∀ x ∈ xs, isPlain x := by
  induction xs
  case nil => simp [arePlain]
  case cons x xs hi => simp [arePlain, hi]

section

variable {first own own' : Ref → Option (List Value)}

mutual

-- If settling a value left no objects in it, then all its lists were known, and wherever these read
-- the same, it settles to the same value.
theorem settle_congr (h : ∀ r, (first r).isSome → own' r = own r) :
    (v : Value) → isPlain (settle first v) → settle own' v = settle own v
  | object r => fun hp => by
    have hr : (first r).isSome := by
      rw [Option.isSome_iff_ne_none]
      intro hr
      simp [settle, hr, isPlain] at hp
    simp only [settle, h r hr]
  | list xs => fun hp => congrArg list (settleAll_congr h xs hp)
  | tuple xs => fun hp => congrArg tuple (settleAll_congr h xs hp)
  | stream xs => fun hp => congrArg stream (settleAll_congr h xs hp)
  | dict es => fun hp => congrArg dict (settleEntries_congr h es hp)
  | enumMember id owner name v => fun hp =>
    congrArg (enumMember id owner name) (settle_congr h v hp)
  | null | bool _ | int _ | float _ | decimal _ | date _ | dateTime _ | text _ | bytes _
  | byteArray _ | progression _ | foreign .. | enumClass .. | labelled .. | scalar _ | nodeKind _
  | enumRef .. | objectRef _ | script _ => fun _ => rfl

theorem settleAll_congr (h : ∀ r, (first r).isSome → own' r = own r) :
    (xs : List Value) → arePlain (settleAll first xs) → settleAll own' xs = settleAll own xs
  | [] => fun _ => rfl
  | x :: xs => fun hp => by
    simp only [settleAll, arePlain, Bool.and_eq_true] at hp ⊢
    rw [settle_congr h x hp.left, settleAll_congr h xs hp.right]

theorem settleEntries_congr (h : ∀ r, (first r).isSome → own' r = own r) :
    (es : List (Value × Value)) → arePlainEntries (settleEntries first es) →
    settleEntries own' es = settleEntries own es
  | [] => fun _ => rfl
  | (k, v) :: es => fun hp => by
    simp only [settleEntries, arePlainEntries, Bool.and_eq_true] at hp ⊢
    rw [settle_congr h k hp.left.left, settle_congr h v hp.left.right,
      settleEntries_congr h es hp.right]

end

theorem settle_mono (h : ∀ r xs, own r = some xs → own' r = some xs) (v : Value)
    (hp : isPlain (settle own v)) : settle own' v = settle own v := by
  refine settle_congr (fun r hr => ?_) v hp
  have ⟨xs, hr⟩ := Option.isSome_iff_exists.mp hr
  rw [hr, h r xs hr]

end

mutual

theorem isPlain_of_isConstant : (v : Value) → isConstant v → isPlain v
  | list xs => fun h => arePlain_of_areConstants xs h
  | tuple xs => fun h => arePlain_of_areConstants xs h
  | dict es => fun h => arePlainEntries_of_areConstantEntries es h
  | null | bool _ | int _ | float _ | decimal _ | date _ | dateTime _ | text _ | bytes _
  | byteArray _ | progression _ | foreign .. | enumClass .. | labelled .. | scalar _ | nodeKind _
  | enumRef .. | objectRef _ | script _ => fun _ => rfl
  | object _ | stream _ | enumMember .. => fun h => nomatch h

theorem arePlain_of_areConstants : (xs : List Value) → areConstants xs → arePlain xs
  | [] => fun _ => rfl
  | x :: xs => fun h => by
    simp only [areConstants, arePlain, Bool.and_eq_true] at h ⊢
    exact ⟨isPlain_of_isConstant x h.left, arePlain_of_areConstants xs h.right⟩

theorem arePlainEntries_of_areConstantEntries : (es : List (Value × Value)) →
    areConstantEntries es → arePlainEntries es
  | [] => fun _ => rfl
  | (k, v) :: es => fun h => by
    simp only [areConstantEntries, arePlainEntries, Bool.and_eq_true] at h ⊢
    have hk : isPlain k := by
      cases k
      case text => rfl
      all_goals exact nomatch h.left.left
    exact ⟨⟨hk, isPlain_of_isConstant v h.left.right⟩,
      arePlainEntries_of_areConstantEntries es h.right⟩

end

end Value

open Value

theorem Scalar.isPlain_of_accepts {s : Scalar} {v : Value} (h : s.accepts v) : v.isPlain := by
  by_cases hs : s = .json
  case pos =>
    subst hs
    exact isPlain_of_isConstant v h
  case neg =>
    cases v
    -- No other scalar takes a value that can hold something.
    case object | list | tuple | stream | dict | enumMember =>
      cases s <;> first | exact absurd rfl hs | exact nomatch h
    all_goals rfl

theorem Base.isPlain_of_accepts {b : Base} {v : Value} (h : b.accepts v) : v.isPlain := by
  cases b
  case scalar s => exact s.isPlain_of_accepts h
  case enum => cases v <;> first | rfl | exact nomatch h
  case object => exact nomatch h

namespace Shape

variable {s : Shape} {v : Value}

theorem acceptsItem_iff :
    s.acceptsItem v ↔ v = .null ∧ s.itemNullable ∨ s.base.accepts v := by
  cases v <;> simp [acceptsItem, Value.isNull]

theorem isPlain_of_acceptsItem (h : s.acceptsItem v) : v.isPlain := by
  rcases acceptsItem_iff.mp h with ⟨rfl, _⟩ | h
  case inl => rfl
  case inr => exact s.base.isPlain_of_accepts h

theorem accepts_iff :
    s.accepts v ↔ v.isNull = false ∧ s.isObject = false ∧
      if s.isList then ∃ xs, v.sequence? = some xs ∧ ∀ x ∈ xs, s.acceptsItem x
      else s.base.accepts v := by
  cases hl : s.isList <;> simp [accepts, hl, and_assoc, Option.any_eq_true]

theorem isPlain_of_accepts (h : s.accepts v) : v.isPlain := by
  have ⟨_, _, h⟩ := accepts_iff.mp h
  split at h
  case isFalse => exact s.base.isPlain_of_accepts h
  case isTrue =>
    have ⟨xs, hs, hi⟩ := h
    have hp : arePlain xs := arePlain_iff.mpr fun x hx => isPlain_of_acceptsItem (hi x hx)
    cases v
    case list | tuple => cases hs; exact hp
    case byteArray | progression => rfl
    all_goals exact nomatch hs

-- Whether a field can be null is nothing to its default.
theorem accepts_orNull : s.orNull.accepts v = s.accepts v := rfl

end Shape

-- JSON is the only scalar with defaults that are lists.

theorem Base.eq_json_of_accepts {b : Base} {v : Value} {xs : List Value}
    (hv : v.sequence? = some xs) (h : b.accepts v) : b = .scalar .json := by
  cases v
  case list | tuple | byteArray | progression =>
    cases b
    case scalar s => cases s <;> first | rfl | exact nomatch h
    all_goals exact nomatch h
  all_goals exact nomatch hv

namespace Shape

variable {s : Shape} {v : Value}

-- What a single value is accepted as says nothing about a list, except for JSON.
theorem accepts_listOf (hl : s.isList = false) (h : s.accepts v) :
    s.listOf.accepts v ↔ (∃ xs, v = .list xs) ∨ ∃ xs, v = .tuple xs := by
  have ⟨hn, ho, hb⟩ := accepts_iff.mp h
  rw [hl, if_neg Bool.false_ne_true] at hb
  constructor
  · intro h
    have ⟨xs, hs, _⟩ := (accepts_iff.mp h).right.right
    have hj := Base.eq_json_of_accepts hs hb
    cases v
    case list => exact .inl ⟨_, rfl⟩
    case tuple => exact .inr ⟨_, rfl⟩
    case byteArray | progression => rw [hj] at hb; exact nomatch hb
    all_goals exact nomatch hs
  · intro h
    have ⟨xs, hs, hc⟩ : ∃ xs, v.sequence? = some xs ∧ (v.isConstant → areConstants xs) := by
      rcases h with ⟨xs, rfl⟩ | ⟨xs, rfl⟩ <;> exact ⟨xs, rfl, id⟩
    have hj := Base.eq_json_of_accepts hs hb
    refine accepts_iff.mpr ⟨hn, ho, xs, hs, fun x hx => ?_⟩
    rw [hj] at hb
    have hx : x.isConstant := areConstants_iff.mp (hc hb) x hx
    simp [acceptsItem, hj, Base.accepts, Scalar.accepts, hx]

end Shape

end GraphSchema
