import GraphSchema.Proofs.Enum.Registered
import GraphSchema.Proofs.Field.Rendering
import GraphSchema.Proofs.Field.Required
import GraphSchema.Proofs.Value.Class

namespace GraphSchema

open Outcome Constant

namespace Value

-- Holds no other values.
def isFlat : Value → Bool
  | list _ | tuple _ | stream _ | dict _ | enumMember .. | object _ => false
  | _ => true

variable {own : Ref → Option (List Value)} {v : Value} {r : Reading} {bare : Bool}
  {xs : List Value} {ls : List String}

theorem settle_of_isFlat (h : v.isFlat) : settle own v = v := by
  cases v
  case list | tuple | stream | dict | enumMember | object => exact nomatch h
  all_goals rfl

theorem settle_eq_of_isFlat (h : (settle own v).isFlat) : settle own v = v := by
  cases v
  case list | tuple | stream | dict | enumMember => exact nomatch h
  case object r => cases hr : own r <;> simp [settle, hr, isFlat] at h
  all_goals rfl

theorem sequence?_of_sequence (hv : v = .list xs ∨ v = .tuple xs) : v.sequence? = some xs := by
  rcases hv with rfl | rfl <;> rfl

theorem bareTexts_of_sequence {x : Value} (hv : v = .list xs ∨ v = .tuple xs) (hx : x ∈ xs)
    {t : String} (ht : t ∈ x.bareTexts) : t ∈ v.bareTexts := by
  have hm : t ∈ listBareTexts xs := mem_listBareTexts.mpr ⟨x, hx, ht⟩
  rcases hv with rfl | rfl <;> exact hm

-- If there is a literal, it is read as a constant other than null, a list or an object, or not at
-- all.
def Leafy (r : Reading) (bare : Bool) (v : Value) : Prop :=
  ∀ l, literal r bare v = .ok l → (∃ c, Reads l c ∧ c.IsLeaf) ∨ Unread l

theorem leafy_text {t : String} (h : bare → IsEnumValue t) : Leafy r bare (text t) := by
  intro l hl
  cases pure_eq_ok.mp hl
  cases bare
  case false => exact .inl ⟨_, reads_quote t, trivial⟩
  case true =>
    have ⟨hw, hr⟩ := h rfl
    have hn : t ≠ "null" := fun e => hr (e ▸ by decide)
    exact .inl ⟨_, reads_name hw, isLeaf_ofName hn⟩

theorem leafy_object (o : Ref) : Leafy r bare (object o) := by
  intro l hl
  obtain ⟨_, _, h⟩ := bind_eq_ok.mp hl
  exact absurd h throw_ne_ok

theorem reads_or_unread_of_leafy (hx : ∀ x ∈ xs, Leafy r bare x)
    (h : literals r bare xs = .ok ls) :
    (∃ cs, List.Forall₂ Reads ls cs ∧ ∀ c ∈ cs, c.IsLeaf) ∨ Unread (", ".intercalate ls) := by
  induction xs generalizing ls
  case nil =>
    cases pure_eq_ok.mp h
    exact .inl ⟨[], .nil, fun _ h => absurd h List.not_mem_nil⟩
  case cons x xs hi =>
    obtain ⟨hx, hxs⟩ := List.forall_mem_cons.mp hx
    obtain ⟨l, hl, h⟩ := bind_eq_ok.mp h
    obtain ⟨ls, hls, h⟩ := bind_eq_ok.mp h
    cases pure_eq_ok.mp h
    rcases hx l hl with ⟨c, hc, leaf⟩ | unread
    case inr => exact .inr (unread.intercalate_cons ls)
    case inl =>
      rcases hi hxs hls with ⟨cs, hcs, leaves⟩ | unread
      case inr =>
        have ⟨_, lexes⟩ := hc.lexes
        exact .inr (unread.intercalate_behind lexes)
      case inl => exact .inl ⟨c :: cs, .cons hc hcs, List.forall_mem_cons.mpr ⟨leaf, leaves⟩⟩

end Value

theorem Constant.parse?_eq_of_reads {l : String} {c d : Constant} (h : Reads l c)
    (hd : parse? l = some d) : d = c :=
  Option.some.inj (hd.symm.trans (parse?_eq_some_iff.mpr h.writes))

theorem Constant.Unread.parse?_ne_some {l : String} {d : Constant} (h : Unread l) :
    parse? l ≠ some d := fun hd => h.not_writes d (parse?_eq_some_iff.mp hd)

namespace Base

variable {b : Base} {v x : Value} {own : Ref → Option (List Value)} {r : Value.Reading}

theorem isFlat_of_accepts (hj : b ≠ .scalar .json) (h : b.accepts v) : v.isFlat := by
  cases v
  case list | tuple | stream | dict | enumMember | object =>
    cases b
    case scalar s => cases s <;> first | exact absurd rfl hj | exact nomatch h
    all_goals exact nomatch h
  all_goals rfl

theorem leafy_of_accepts (hj : b ≠ .scalar .json) (h : b.accepts x)
    (hw : b.isEnum → ∀ t ∈ x.bareTexts, IsEnumValue t) : x.Leafy r b.isEnum := by
  cases b
  case scalar k =>
    intro l hl
    rcases Scalar.written_of_accepts r (fun e => hj (e ▸ rfl)) h with
      ⟨_, ht, _, hc, leaf⟩ | ⟨_, ht, unread⟩
    all_goals cases hl.symm.trans ht
    case read => exact .inl ⟨_, hc, leaf⟩
    case unread => exact .inr unread
  case enum =>
    obtain ⟨t, rfl, _⟩ := accepts_enum_iff.mp h
    exact Value.leafy_text fun hb => hw hb t (List.mem_singleton_self t)
  case object => exact nomatch h

-- What can be the default of a field of the type at all.
inductive Fits (b : Base) : Value → Prop
  | single {v : Value} (h : b.accepts v) : Fits b v
  | list {xs : List Value} (h : ∀ x ∈ xs, x = .null ∨ b.accepts x) : Fits b (.list xs)
  | tuple {xs : List Value} (h : ∀ x ∈ xs, x = .null ∨ b.accepts x) : Fits b (.tuple xs)
  | own (r : Ref) : Fits b (.object r)
  | unwritten {v : Value} (h : v.lacksLiteral) : Fits b v

theorem fits_of_accepts {s : Shape} (hb : s.base = b) (hj : b ≠ .scalar .json)
    (h : s.accepts (v.settle own)) : Fits b v := by
  have accepts {x : Value} (h : b.accepts (x.settle own)) : b.accepts x :=
    Value.settle_eq_of_isFlat (isFlat_of_accepts hj h) ▸ h
  have item {x : Value} (h : s.acceptsItem (x.settle own)) : x = .null ∨ b.accepts x := by
    rcases Shape.acceptsItem_iff.mp h with ⟨hn, _⟩ | h
    case inl => exact .inl (Value.settle_eq_null_iff.mp hn)
    case inr => exact .inr (accepts (hb ▸ h))
  have h := (Shape.accepts_iff.mp h).right.right
  split at h
  case isFalse => exact .single (accepts (hb ▸ h))
  case isTrue =>
    have ⟨xs, hs, hx⟩ := h
    cases v
    case list ys | tuple ys =>
      cases hs
      simp only [Value.settleAll_eq_map, List.forall_mem_map] at hx
      first
        | exact .list fun y hy => item (hx y hy)
        | exact .tuple fun y hy => item (hx y hy)
    case object => exact .own _
    case progression | byteArray => exact .unwritten rfl
    all_goals exact nomatch hs

end Base

namespace Store

variable {σ : Store} {b : Base} {v : Value}

theorem fits_of_admits (h : σ.Admits b v) (hj : b ≠ .scalar .json) : b.Fits v :=
  have ⟨_, _, hb, ha, _⟩ := h
  Base.fits_of_accepts hb hj ha

-- What a default comes to when it is printed: one constant, or a list of such.
inductive Prints (σ : Store) (r : Value.Reading) (bare : Bool) (v : Value) : Prop
  | leaf (h : (σ.settle v).Leafy r bare)
  | items {xs : List Value} (h : σ.settle v = .list xs ∨ σ.settle v = .tuple xs)
      (each : ∀ x ∈ xs, x.Leafy r bare)
  | nothing (h : (σ.settle v).lacksLiteral)

theorem prints_of_items {r : Value.Reading} {xs : List Value} (hj : b ≠ .scalar .json)
    (hv : σ.settle v = .list (Value.settleAll σ.ownList? xs) ∨
      σ.settle v = .tuple (Value.settleAll σ.ownList? xs))
    (hx : ∀ x ∈ xs, x = .null ∨ b.accepts x)
    (hw : b.isEnum → ∀ t ∈ (σ.settle v).bareTexts, IsEnumValue t)
    (hn : ∀ xs, (σ.settle v).sequence? = some xs → .null ∉ xs) : σ.Prints r b.isEnum v := by
  have absent : .null ∉ xs := fun hm =>
    hn _ (Value.sequence?_of_sequence hv) (Value.null_mem_settleAll_iff.mpr hm)
  have accepted : ∀ x ∈ xs, b.accepts x := fun x hm =>
    (hx x hm).resolve_left fun e => absent (e ▸ hm)
  have still : Value.settleAll σ.ownList? xs = xs := by
    rw [Value.settleAll_eq_map]
    refine (List.map_congr_left fun x hm => ?_).trans (List.map_id' xs)
    exact Value.settle_of_isFlat (Base.isFlat_of_accepts hj (accepted x hm))
  rw [still] at hv
  exact .items hv fun x hm => Base.leafy_of_accepts hj (accepted x hm) fun hb t ht =>
    hw hb t (Value.bareTexts_of_sequence hv hm ht)

theorem prints_of_fits {r : Value.Reading} (hj : b ≠ .scalar .json) (h : b.Fits v)
    (hw : b.isEnum → ∀ t ∈ (σ.settle v).bareTexts, IsEnumValue t)
    (hn : ∀ xs, (σ.settle v).sequence? = some xs → .null ∉ xs) : σ.Prints r b.isEnum v := by
  cases h
  case single h =>
    have e : σ.settle v = v := Value.settle_of_isFlat (Base.isFlat_of_accepts hj h)
    exact .leaf (e.symm ▸ Base.leafy_of_accepts hj h (e ▸ hw))
  case list hx => exact prints_of_items hj (.inl rfl) hx hw hn
  case tuple hx => exact prints_of_items hj (.inr rfl) hx hw hn
  case own o =>
    cases ho : σ.ownList? o
    case none =>
      have hv : σ.settle (.object o) = .object o := by simp [settle, Value.settle, ho]
      refine .leaf ?_
      rw [hv]
      exact Value.leafy_object o
    case some xs =>
      have hv : σ.settle (.object o) = .list xs := by simp [settle, Value.settle, ho]
      refine .items (.inl hv) fun x hm => ?_
      cases isAtom_of_ownList? ho x hm
      case null => exact absurd hm (null_not_mem_ownList? ho)
      case text t =>
        refine Value.leafy_text fun hb => hw hb t ?_
        exact Value.bareTexts_of_sequence (.inl hv) hm (List.mem_singleton_self t)
      case object => exact Value.leafy_object _
  case unwritten h => exact .nothing ((lacksLiteral_settle σ.ownList?).trans h)

theorem null_not_mem_of_prints {r : Value.Reading} {bare : Bool} {l : String}
    {items : List Constant} (h : σ.Prints r bare v) (hl : (σ.settle v).literal r bare = .ok l)
    (hp : parse? l = some (.list items)) : .null ∉ items := by
  cases h
  case leaf h =>
    rcases h l hl with ⟨c, hc, leaf⟩ | unread
    case inl => exact absurd leaf (parse?_eq_of_reads hc hp ▸ id)
    case inr => exact absurd hp unread.parse?_ne_some
  case items xs hv each =>
    obtain ⟨ls, hls, rfl⟩ := (Value.literal_sequence_eq_ok hv).mp hl
    rcases Value.reads_or_unread_of_leafy each hls with ⟨cs, hcs, leaves⟩ | unread
    case inl =>
      cases parse?_eq_of_reads (reads_list hcs) hp
      exact fun hm => leaves _ hm
    case inr => exact absurd hp unread.list.parse?_ne_some
  case nothing h => exact absurd ⟨l, hl⟩ (Value.not_succeeds_literal h)

-- For every list, nulls follow what the shape says about its items, unless it is a list of JSON
-- values whose items cannot be null. What is printed as the default of a field whose items cannot
-- be null then has no null in it, as long as words are values of an enum and whether items can be
-- null was not made to depend on an object.
theorem nullsFollow_run (cs : List Call) :
    let σ := ({} : Store).run cs
    (∀ (τ : Store) (s : ShapeId), (τ.shape s).isList →
      (τ.NullsFollow s ↔ (τ.shape s).itemNullable ∨ (τ.outline s).base ≠ .scalar .json)) ∧
    ∀ (n : FieldId) (f : Field), σ.fields[n]? = some f → (σ.shape f.shape).itemNullable = false →
      (σ.outline f.shape).base ≠ .scalar .json →
      (∀ r, (σ.outline f.shape).itemNullable ≠ .object r) →
      ∀ v, .default v ∈ f.directives →
      ((σ.shape f.shape).isEnum → ∀ t ∈ (σ.settle v).bareTexts, IsEnumValue t) →
      ∀ l, σ.directiveText (σ.shape f.shape).isEnum (.default v) =
          .ok ("@default(value: " ++ l ++ ")") →
        ∀ items, parse? l = some (.list items) → .null ∉ items := by
  intro σ
  refine ⟨fun τ s => nullsFollow_iff, fun n f hf hi hj ho v hv hw l hl items hp => ?_⟩
  have hn : ∀ xs, (σ.settle v).sequence? = some xs → .null ∉ xs := fun _ =>
    null_not_mem_of_default cs hf hj ho hi hv
  have fits : (σ.outline f.shape).base.Fits v := fits_of_admits (allAdmitted_run cs n f hf v hv) hj
  have ⟨l', hl, e⟩ := directiveText_default_eq_ok.mp hl
  have e : l = l' := by simpa [← String.toList_inj] using e
  exact null_not_mem_of_prints (prints_of_fits hj fits hw hn) (e ▸ hl) hp

def numbered : List Call :=
  [.leaf (.scalar .int) (.bool false), .list (.field 0),
    .default (.field 0) (.list [.int 1, .int 2])]

theorem nullsFollow_numbered :
    let σ := ({} : Store).run numbered
    σ.NullsFollow 0 ∧ (σ.perform (.render (.field 1))).1 =
        .ok (.text "[Int!]! @default(value: [1, 2])") ∧
      ∀ items, parse? "[1, 2]" = some (.list items) → .null ∉ items := by
  intro σ
  have ⟨follow, printed⟩ := nullsFollow_run numbered
  exact ⟨(follow σ 0 rfl).mpr (.inr nofun), rfl, printed 1 _ rfl rfl nofun (fun _ => nofun) _
    List.mem_cons_self nofun "[1, 2]" rfl⟩

-- A list of JSON values that cannot be null, with null for an item.
theorem not_nullsFollow :
    ¬ ∀ (σ : Store) (s : ShapeId), (σ.shape s).isList → (σ.shape s).isObject = false →
      σ.NullsFollow s := by
  intro h
  let σ := ({} : Store).run [.shape (.scalar .json) (.bool false) (.bool true) (.bool false)]
  have suits : σ.Suits 0 (.default (.list [.null])) := suits_default_iff.mpr (by decide)
  exact (h σ 0 rfl rfl).absent rfl _ suits _ rfl List.mem_cons_self

end Store

end GraphSchema
