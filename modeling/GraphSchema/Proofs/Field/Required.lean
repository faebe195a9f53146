import GraphSchema.Proofs.Field.Admitted
import GraphSchema.Proofs.Field.Listing

namespace GraphSchema

theorem Base.accepts_null_iff {b : Base} : b.accepts .null ↔ b = .scalar .json := by
  cases b
  case scalar s => cases s <;> simp [accepts, Scalar.accepts, Value.isConstant, Value.text?,
    Value.int?, Value.isNumber]
  all_goals simp [accepts]

namespace Shape

variable {s : Shape} {v w : Value} {xs ys : List Value}

theorem acceptsItem_null_iff :
    s.acceptsItem .null ↔ s.itemNullable ∨ s.base = .scalar .json := by
  rw [acceptsItem_iff, Base.accepts_null_iff, eq_self, true_and]

theorem acceptsItem_of_accepts (hl : s.isList) (h : s.accepts v) (hs : v.sequence? = some xs) :
    ∀ x ∈ xs, s.acceptsItem x := by
  have ⟨_, _, h⟩ := accepts_iff.mp h
  rw [if_pos hl] at h
  have ⟨_, hy, h⟩ := h
  exact Option.some.inj (hs.symm.trans hy) ▸ h

theorem accepts_of_sequence? (hs : v.sequence? = some xs) (hl : s.isList)
    (ho : s.isObject = false) : s.accepts v ↔ ∀ x ∈ xs, s.acceptsItem x := by
  have hn : v.isNull = false := by cases v <;> first | rfl | exact nomatch hs
  simp [accepts_iff, hl, ho, hn, hs]

-- One more null somewhere among items that are fine.
theorem accepts_iff_of_null (hv : v.sequence? = some (xs ++ ys))
    (hw : w.sequence? = some (xs ++ .null :: ys)) (hl : s.isList) (h : s.accepts v) :
    s.accepts w ↔ s.itemNullable ∨ s.base = .scalar .json := by
  have ho : s.isObject = false := (accepts_iff.mp h).right.left
  have hi := List.forall_mem_append.mp (acceptsItem_of_accepts hl h hv)
  rw [accepts_of_sequence? hw hl ho, List.forall_mem_append, List.forall_mem_cons,
    acceptsItem_null_iff, and_iff_right hi.left, and_iff_left hi.right]

end Shape

namespace Store

variable {σ σ' : Store} {s : ShapeId} {v : Value} {xs : List Value}

-- What is accepted for the shape has nulls among its items only if the shape says so, and then
-- wherever they are.
structure NullsFollow (σ : Store) (s : ShapeId) : Prop where
  absent : (σ.shape s).itemNullable = false → ∀ v, σ.Suits s (.default v) →
    ∀ xs, (σ.settle v).sequence? = some xs → .null ∉ xs
  list : ∀ xs ys, σ.Suits s (.default (.list (xs ++ ys))) →
    (σ.Suits s (.default (.list (xs ++ .null :: ys))) ↔ (σ.shape s).itemNullable)
  tuple : ∀ xs ys, σ.Suits s (.default (.tuple (xs ++ ys))) →
    (σ.Suits s (.default (.tuple (xs ++ .null :: ys))) ↔ (σ.shape s).itemNullable)

theorem nullsFollow_iff (hl : (σ.shape s).isList) :
    σ.NullsFollow s ↔ (σ.shape s).itemNullable ∨ (σ.outline s).base ≠ .scalar .json := by
  constructor
  · intro h
    by_contra hn
    have ⟨hi, hj⟩ := not_or.mp hn
    have hj : (σ.shape s).base = .scalar .json := not_not.mp hj
    have hs : σ.Suits s (.default (.list [.null])) := by
      refine suits_default_iff.mpr ((Shape.accepts_of_sequence? rfl hl ?_).mpr ?_)
      · exact congrArg Base.isObject hj
      · exact List.forall_mem_singleton.mpr (Shape.acceptsItem_null_iff.mpr (.inr hj))
    exact h.absent (by simpa using hi) _ hs _ rfl List.mem_cons_self
  · intro h
    have he : (σ.shape s).itemNullable ∨ (σ.shape s).base = .scalar .json ↔
        (σ.shape s).itemNullable := or_iff_left_of_imp fun hj => h.resolve_right (absurd hj)
    have insert {v w : Value} (xs ys : List Value) (hv : (σ.settle v).sequence? = some (xs ++ ys))
        (hw : (σ.settle w).sequence? = some (xs ++ .null :: ys)) (hs : σ.Suits s (.default v)) :
        σ.Suits s (.default w) ↔ (σ.shape s).itemNullable := by
      rw [suits_default_iff] at hs ⊢
      exact (Shape.accepts_iff_of_null hv hw hl hs).trans he
    refine ⟨fun hi v hv xs hs hm => ?_, fun xs ys => ?_, fun xs ys => ?_⟩
    · have ha := Shape.acceptsItem_of_accepts hl (suits_default_iff.mp hv) hs _ hm
      exact absurd (he.mp (Shape.acceptsItem_null_iff.mp ha)) (by simp [hi])
    all_goals
      refine insert (xs.map σ.settle) (ys.map σ.settle) ?_ ?_ <;>
        simp [settle, Value.settle, Value.settleAll_eq_map, Value.sequence?] <;> rfl

end Store

-- Nulls among the items of a value, whatever the objects in it hold.
def Value.HasNull : Value → Prop
  | list xs | tuple xs => null ∈ xs
  | _ => False

namespace Value

variable {own : Ref → Option (List Value)} {v : Value} {xs : List Value}

theorem settle_eq_null_iff : settle own v = null ↔ v = null := by
  cases v
  case object r => cases hr : own r <;> simp [settle, hr]
  all_goals simp [settle]

theorem null_mem_settleAll_iff : null ∈ settleAll own xs ↔ null ∈ xs := by
  simp [settleAll_eq_map, settle_eq_null_iff]

theorem HasNull.exists_sequence (h : v.HasNull) (own : Ref → Option (List Value)) :
    ∃ xs, (settle own v).sequence? = some xs ∧ null ∈ xs := by
  cases v
  case list xs | tuple xs => exact ⟨settleAll own xs, rfl, null_mem_settleAll_iff.mpr h⟩
  all_goals exact h.elim

theorem hasNull_of_settle (ho : ∀ r ys, own r = some ys → null ∉ ys)
    (hs : (settle own v).sequence? = some xs) (hn : null ∈ xs) : v.HasNull := by
  cases v
  case list | tuple =>
    cases hs
    exact null_mem_settleAll_iff.mp hn
  case object r =>
    cases hr : own r <;> simp only [settle, hr] at hs
    case none => exact nomatch hs
    case some ys =>
      cases hs
      exact absurd hn (ho r _ hr)
  case progression | byteArray =>
    cases hs
    simp [ofOctets] at hn
  all_goals simp [settle, sequence?] at hs

end Value

namespace Store

variable {σ σ' : Store} {call : Call} {s : ShapeId} {f : Field}

theorem null_not_mem_ownList? {r : Ref} {xs : List Value} (h : σ.ownList? r = some xs) :
    .null ∉ xs := by
  cases r
  case operations | rules | interfaces =>
    obtain ⟨_, _, rfl⟩ := Option.map_eq_some_iff.mp h
    simp
  all_goals exact nomatch h

theorem isTrue_eq {v : Value} (h : ∀ r, v ≠ .object r) : σ'.isTrue v = σ.isTrue v := by
  cases v
  case object r => exact absurd rfl (h r)
  all_goals rfl

end Store

theorem FieldStep.outline_cases {σ σ' : Store} {call : Call} {s : ShapeId}
    (h : FieldStep σ call σ') (hs : s < σ.shapes.size) :
    σ'.outline s = σ.outline s ∨ σ'.outline s = (σ.outline s).orNull ∨
      (σ.shape s).isList = false ∧ σ'.outline s = (σ.outline s).listOf := by
  cases h
  case still e _ | wrap e _ => exact .inl (by simp only [Store.outline, e])
  case shape e _ | leaf e _ => exact .inl (Store.outline_of_push e hs)
  case optional e _ =>
    rw [Store.outline_of_modify e hs]
    split
    case isTrue => exact .inr (.inl rfl)
    case isFalse => exact .inl rfl
  case list hl e _ =>
    rw [Store.outline_of_modify e hs]
    split
    case isTrue ht => exact .inr (.inr ⟨ht ▸ hl, rfl⟩)
    case isFalse => exact .inl rfl

namespace Store

variable {σ σ' : Store} {call : Call} {f : Field}

-- Where there is a null among the items of a default, the field is a list, and its items can be
-- null, if that does not depend on an object.
structure AllowsNulls (σ : Store) (f : Field) : Prop where
  flag : ∃ b, (σ.outline f.shape).isList = .bool b
  nulls : (σ.outline f.shape).base ≠ .scalar .json → ∀ v, .default v ∈ f.directives → v.HasNull →
    (σ.outline f.shape).isList = .bool true ∧
      ((∀ r, (σ.outline f.shape).itemNullable ≠ .object r) →
        σ.isTrue (σ.outline f.shape).itemNullable)

namespace AllowsNulls

-- Whether the field itself can be null has no part in it.
theorem congr (h : σ.AllowsNulls f)
    (hb : (σ'.outline f.shape).base = (σ.outline f.shape).base)
    (hl : (σ'.outline f.shape).isList = (σ.outline f.shape).isList)
    (hi : (σ'.outline f.shape).itemNullable = (σ.outline f.shape).itemNullable) :
    σ'.AllowsNulls f where
  flag := hl ▸ h.flag
  nulls hj v hv hh := by
    rw [hb] at hj
    rw [hl, hi]
    have ⟨list, nulls⟩ := h.nulls hj v hv hh
    exact ⟨list, fun ho => (isTrue_eq ho).trans (nulls ho)⟩

theorem preserved (h : σ.AllowsNulls f) (hσ : σ.Holds f) (s : FieldStep σ call σ') :
    σ'.AllowsNulls f := by
  rcases s.outline_cases hσ.shape_lt with e | e | ⟨hl, e⟩
  case inl => exact h.congr (e ▸ rfl) (e ▸ rfl) (e ▸ rfl)
  case inr.inl => exact h.congr (e ▸ rfl) (e ▸ rfl) (e ▸ rfl)
  case inr.inr =>
    -- What was no list until now has no default with items.
    refine ⟨⟨true, e ▸ rfl⟩, fun hj v hv hh => ?_⟩
    rw [e] at hj
    have ht : (σ.shape f.shape).isList := congrArg σ.isTrue (h.nulls hj v hv hh).left
    rw [hl] at ht
    exact nomatch ht

theorem wrap {inner : Numbered Field} {before : List Change} {d : Directive}
    (h : σ.AllowsNulls inner.val) (hc : σ.Checked (σ.shape inner.val.shape) before d) :
    σ.AllowsNulls (.wrap inner d) := by
  have ⟨⟨b, hb⟩, hn⟩ := h
  refine ⟨⟨b, hb⟩, fun hj v hv hh => ?_⟩
  cases List.mem_cons.mp hv
  case inr hv => exact hn hj v hv hh
  case inl e =>
    subst e
    have hj : (σ.shape inner.val.shape).base ≠ .scalar .json := hj
    have ha := suits_default_iff.mp hc.suits
    have ⟨xs, hs, hm⟩ := hh.exists_sequence σ.ownList?
    cases b
    case false =>
      have hl : (σ.shape inner.val.shape).isList = false := congrArg σ.isTrue hb
      have hb := (Shape.accepts_iff.mp ha).right.right
      rw [hl, if_neg Bool.false_ne_true] at hb
      exact absurd (Base.eq_json_of_accepts hs hb) hj
    case true =>
      have hl : (σ.shape inner.val.shape).isList := congrArg σ.isTrue hb
      have hi := Shape.acceptsItem_of_accepts hl ha hs _ hm
      exact ⟨hb, fun _ => (Shape.acceptsItem_null_iff.mp hi).resolve_right hj⟩

end AllowsNulls

theorem allowsNulls_run (cs : List Call) {n : FieldId}
    (hf : (({} : Store).run cs).fields[n]? = some f) : (({} : Store).run cs).AllowsNulls f := by
  suffices h : (({} : Store).run cs).Formed ∧ ∀ (n : FieldId) (f : Field),
      (({} : Store).run cs).fields[n]? = some f → (({} : Store).run cs).AllowsNulls f from
    h.right n f hf
  refine run_induction (P := fun σ => σ.Formed ∧ ∀ (n : FieldId) (f : Field),
    σ.fields[n]? = some f → σ.AllowsNulls f) cs ⟨formed_run [], fun _ _ h => absurd h (by simp)⟩ ?_
  intro σ c p ⟨hσ, h⟩ hp
  have s := (step_of_plan hp).fieldStep
  refine ⟨hσ.preserved s, fun n f hf => ?_⟩
  cases s.origin hf
  case old hf => exact (h n f hf).preserved (hσ n f hf) s
  case leaf hs => exact ⟨⟨false, by rw [outline_of_push_size hs]; rfl⟩, fun _ _ hv => nomatch hv⟩
  case wrap hw hc _ _ =>
    have ⟨hi, hd⟩ := checkWrap_eq_ok.mp hw
    have hi := field?_eq_some hi
    exact ((h _ _ hi).wrap hc).preserved ((hσ _ _ hi).wrap hd) s

-- Where items cannot be null, there are no nulls among those of a default, but for JSON.
theorem null_not_mem_of_default (cs : List Call) {n : FieldId}
    (hf : (({} : Store).run cs).fields[n]? = some f)
    (hj : ((({} : Store).run cs).outline f.shape).base ≠ .scalar .json)
    (ho : ∀ r, ((({} : Store).run cs).outline f.shape).itemNullable ≠ .object r)
    (hi : ((({} : Store).run cs).shape f.shape).itemNullable = false) {v : Value}
    (hv : .default v ∈ f.directives) {xs : List Value}
    (hs : ((({} : Store).run cs).settle v).sequence? = some xs) : .null ∉ xs := by
  intro hm
  have hn := Value.hasNull_of_settle (fun _ _ => null_not_mem_ownList?) hs hm
  have ⟨_, ht⟩ := (allowsNulls_run cs hf).nulls hj v hv hn
  exact absurd (ht ho) (Bool.eq_false_iff.mp hi)

end Store

end GraphSchema
