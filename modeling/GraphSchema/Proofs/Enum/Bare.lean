import GraphSchema.Proofs.Decoding.Literal
import GraphSchema.Proofs.Field.Listing
import GraphSchema.Proofs.Printing.Row
import GraphSchema.Proofs.Value.Keyed
import GraphSchema.Proofs.Value.Literal

namespace GraphSchema

open Outcome

-- A word that means nothing else.
def IsEnumValue (s : String) : Prop := IsWord s ∧ ¬ Store.isReserved s

instance (s : String) : Decidable (IsEnumValue s) := inferInstanceAs <| Decidable (_ ∧ _)

-- What could end a value too early, or start something else behind it.
def marks : List Char := [' ', '"', '\x27', '(', ')', '@', '\n', '\r']

theorem IsEnumValue.not_mem_marks {s : String} (h : IsEnumValue s) : ∀ c ∈ s.toList, c ∉ marks := by
  intro c hc hm
  have hp : marks.all (! Name.isPart ·) := by decide
  have hn := List.all_eq_true.mp hp c hm
  simp [h.left.isPart c hc] at hn

-- One word, or a list of words between brackets.
inductive OfWords (P : String → Prop) : String → Prop
  | one {w : String} (h : P w) : OfWords P w
  | list {ws : List String} (h : ∀ w ∈ ws, P w) : OfWords P ("[" ++ ", ".intercalate ws ++ "]")

namespace Value

-- A text, nothing, or an object, which has no literal.
inductive IsAtom : Value → Prop
  | null : IsAtom null
  | text (s : String) : IsAtom (text s)
  | object (r : Ref) : IsAtom (object r)

-- What can be chosen from an enum: one value, or a list of values.
inductive IsChoice : Value → Prop
  | atom {v : Value} (h : v.IsAtom) : IsChoice v
  | list {xs : List Value} (h : ∀ x ∈ xs, x.IsAtom) : IsChoice (list xs)
  | tuple {xs : List Value} (h : ∀ x ∈ xs, x.IsAtom) : IsChoice (tuple xs)

variable {r : Reading} {v : Value} {xs : List Value} {l : String} {ls : List String}

theorem mem_listBareTexts {t : String} : t ∈ listBareTexts xs ↔ ∃ x ∈ xs, t ∈ x.bareTexts := by
  induction xs
  case nil => simp [listBareTexts]
  case cons x xs hi => simp [listBareTexts, hi]

theorem IsAtom.word_of_literal (hv : v.IsAtom) (h : literal r true v = .ok l) :
    l = "null" ∨ l ∈ v.bareTexts := by
  cases hv
  case null => exact .inl (pure_eq_ok.mp h).symm
  case text s => exact .inr (List.mem_singleton.mpr (pure_eq_ok.mp h).symm)
  case object =>
    have ⟨_, _, h⟩ := bind_eq_ok.mp h
    exact absurd h throw_ne_ok

theorem words_of_literals (hx : ∀ x ∈ xs, x.IsAtom) (h : literals r true xs = .ok ls) :
    ∀ l ∈ ls, l = "null" ∨ l ∈ listBareTexts xs := by
  induction xs generalizing ls
  case nil =>
    cases pure_eq_ok.mp h
    exact List.forall_mem_nil _
  case cons x xs hi =>
    have ⟨hx, hxs⟩ := List.forall_mem_cons.mp hx
    have ⟨a, ha, h⟩ := bind_eq_ok.mp h
    have ⟨as, has, h⟩ := bind_eq_ok.mp h
    cases pure_eq_ok.mp h
    refine List.forall_mem_cons.mpr ⟨?_, fun l hl => ?_⟩
    · exact (hx.word_of_literal ha).imp_right (List.mem_append_left _)
    · exact (hi hxs has l hl).imp_right (List.mem_append_right _)

theorem IsChoice.ofWords (hv : v.IsChoice) (h : literal r true v = .ok l) :
    OfWords (fun w => w = "null" ∨ w ∈ v.bareTexts) l := by
  cases hv
  case atom hv => exact .one (hv.word_of_literal h)
  case list hx | tuple hx =>
    have ⟨ls, hl, h⟩ := bind_eq_ok.mp h
    cases pure_eq_ok.mp h
    exact .list (words_of_literals hx hl)

end Value

-- What an enum takes.

theorem Base.accepts_enum_iff {name : String} {vs : Option (List Value)} {v : Value} :
    (enum name vs).accepts v ↔ ∃ t, v = .text t ∧ ∀ ws, vs = some ws → .text t ∈ ws := by
  cases v
  case text t =>
    have hw (w : Value) : w.text? = some t ↔ w = .text t := by cases w <;> simp [Value.text?]
    cases vs <;> simp [accepts, hw]
  all_goals simp [accepts]

namespace Shape

variable {s : Shape} {name : String} {vs : Option (List Value)} {v : Value}

theorem isAtom_of_acceptsItem (hb : s.base = .enum name vs) (h : s.acceptsItem v) : v.IsAtom := by
  rcases acceptsItem_iff.mp h with ⟨rfl, _⟩ | h
  case inl => exact .null
  case inr =>
    obtain ⟨t, rfl, _⟩ := Base.accepts_enum_iff.mp (hb ▸ h)
    exact .text t

theorem allowed_of_acceptsItem (hb : s.base = .enum name vs) (h : s.acceptsItem v) :
    ∀ t ∈ v.bareTexts, ∀ ws, vs = some ws → .text t ∈ ws := by
  rcases acceptsItem_iff.mp h with ⟨rfl, _⟩ | h
  case inl => nofun
  case inr =>
    obtain ⟨t, rfl, ht⟩ := Base.accepts_enum_iff.mp (hb ▸ h)
    exact List.forall_mem_singleton.mpr ht

-- Bytes and progressions are taken where there is nothing in them, but they have no literal.
theorem isChoice_of_accepts (hb : s.base = .enum name vs) (h : s.accepts v) :
    v.IsChoice ∨ v.lacksLiteral := by
  have ⟨_, _, h⟩ := accepts_iff.mp h
  split at h
  case isFalse =>
    obtain ⟨t, rfl, _⟩ := Base.accepts_enum_iff.mp (hb ▸ h)
    exact .inl (.atom (.text t))
  case isTrue =>
    have ⟨xs, hs, hx⟩ := h
    have ha : ∀ x ∈ xs, x.IsAtom := fun x h => isAtom_of_acceptsItem hb (hx x h)
    cases v
    case list => cases hs; exact .inl (.list ha)
    case tuple => cases hs; exact .inl (.tuple ha)
    case byteArray | progression => exact .inr rfl
    all_goals exact nomatch hs

theorem ofWords_of_accepts (hb : s.base = .enum name vs) (h : s.accepts v) {r : Value.Reading}
    {l : String} (hl : v.literal r true = .ok l) :
    OfWords (fun w => w = "null" ∨ w ∈ v.bareTexts) l := by
  cases isChoice_of_accepts hb h
  case inl hv => exact hv.ofWords hl
  case inr hv => exact absurd ⟨l, hl⟩ (Value.not_succeeds_literal hv)

theorem allowed_of_accepts (hb : s.base = .enum name vs) (h : s.accepts v) :
    ∀ t ∈ v.bareTexts, ∀ ws, vs = some ws → .text t ∈ ws := by
  have ⟨_, _, h⟩ := accepts_iff.mp h
  split at h
  case isFalse =>
    obtain ⟨t, rfl, ht⟩ := Base.accepts_enum_iff.mp (hb ▸ h)
    exact List.forall_mem_singleton.mpr ht
  case isTrue =>
    have ⟨xs, hs, hx⟩ := h
    cases v
    case list | tuple =>
      cases hs
      intro t ht
      have ⟨x, hm, ht⟩ := Value.mem_listBareTexts.mp ht
      exact allowed_of_acceptsItem hb (hx x hm) t ht
    case byteArray | progression => nofun
    all_goals exact nomatch hs

-- Every text that is allowed can be all that a default consists of.
theorem exists_accepts (hb : s.base = .enum name vs) {t : String}
    (ht : ∀ ws, vs = some ws → .text t ∈ ws) :
    ∃ v, (∀ σ : Store, σ.settle v = v) ∧ s.accepts v ∧ t ∈ v.bareTexts := by
  have ha : s.base.accepts (.text t) := hb ▸ Base.accepts_enum_iff.mpr ⟨t, rfl, ht⟩
  have ho : s.isObject = false := congrArg Base.isObject hb
  cases hl : s.isList
  case false =>
    refine ⟨.text t, fun _ => rfl, accepts_iff.mpr ⟨rfl, ho, ?_⟩, List.mem_singleton_self t⟩
    rwa [hl, if_neg Bool.false_ne_true]
  case true =>
    refine ⟨.list [.text t], fun _ => rfl, accepts_iff.mpr ⟨rfl, ho, ?_⟩, List.mem_singleton_self t⟩
    rw [hl, if_pos rfl]
    exact ⟨_, rfl, List.forall_mem_singleton.mpr (acceptsItem_iff.mpr (.inr ha))⟩

theorem isEnumValue_iff (hb : s.base = .enum name vs) :
    (∀ t, (∀ ws, vs = some ws → .text t ∈ ws) → IsEnumValue t) ↔
      ∃ ws, vs = some ws ∧ ∀ t, .text t ∈ ws → IsEnumValue t := by
  cases vs
  case none => exact iff_of_false (fun h => absurd (h " " nofun) (by decide)) nofun
  case some ws => simp

end Shape

namespace Store

variable {σ : Store} {s : ShapeId} {name : String} {vs : Option (List Value)} {v : Value}

theorem perform_literal_eq_ok {bare : Bool} {l : String} :
    (σ.perform (.literal v (.bool bare))).1 = .ok (.text l) ↔
      (σ.settle v).literal σ.reading bare = .ok l := by
  simp only [perform, plan, literalOf, sayText, isTrue_bool]
  cases (σ.settle v).literal σ.reading bare <;> simp [Plan.say]

theorem directiveText_default_eq_ok {bare : Bool} {text : String} :
    σ.directiveText bare (.default v) = .ok text ↔
      ∃ l, (σ.settle v).literal σ.names bare = .ok l ∧ text = "@default(value: " ++ l ++ ")" := by
  refine bind_eq_ok.trans (exists_congr fun l => and_congr_right fun _ => ?_)
  exact pure_eq_ok.trans eq_comm

-- The directive holds what the value is written as by itself.
theorem perform_literal_of_directiveText {s : Shape} {bare : Bool} {text : String}
    (ha : s.accepts (σ.settle v)) (h : σ.directiveText bare (.default v) = .ok text) :
    ∃ l, (σ.perform (.literal v (.bool bare))).1 = .ok (.text l) ∧
      text = "@default(value: " ++ l ++ ")" := by
  have ⟨l, hl, e⟩ := directiveText_default_eq_ok.mp h
  have hr : ((σ.settle v).literal σ.names bare).toOption =
      ((σ.settle v).literal σ.reading bare).toOption :=
    (σ.settle v).toOption_literal_eq (Shape.isKeyed_of_accepts ha)
  rw [hl] at hr
  refine ⟨l, perform_literal_eq_ok.mpr ?_, e⟩
  cases hs : (σ.settle v).literal σ.reading bare
  case error => simp [hs, Except.toOption] at hr
  case ok => simpa [hs, Except.toOption] using hr.symm

-- What is accepted for a reference to an enum is written in values of an enum, whatever it is,
-- exactly if the reference was given values and there is no other text among them. Nothing that
-- is no value comes from anywhere else, and values have no characters that could end a directive.
theorem isEnumValue_bareTexts_iff (hs : (σ.outline s).base = .enum name vs) :
    ((∀ v, Succeeds (σ.plan (.checkDefault (.object (.shape s)) v)) →
        ∀ t ∈ (σ.settle v).bareTexts, IsEnumValue t) ↔
      ∃ ws, vs = some ws ∧ ∀ t, .text t ∈ ws → IsEnumValue t) ∧
    (∀ v, Succeeds (σ.plan (.checkDefault (.object (.shape s)) v)) →
      (∀ l, (σ.perform (.literal v (.bool true))).1 = .ok (.text l) →
        OfWords (fun w => w = "null" ∨ w ∈ (σ.settle v).bareTexts) l) ∧
      ∀ text, σ.directiveText (σ.shape s).isEnum (.default v) = .ok text →
        ∃ l, (σ.perform (.literal v (.bool true))).1 = .ok (.text l) ∧
          text = "@default(value: " ++ l ++ ")") ∧
    ∀ t, IsEnumValue t → ∀ c ∈ t.toList, c ∉ marks := by
  have hb : (σ.shape s).base = .enum name vs := hs
  have he : (σ.shape s).isEnum := congrArg Base.isEnum hs
  refine ⟨⟨fun h => ?_, fun h v hv t ht => ?_⟩, fun v hv => ?_, fun _ => IsEnumValue.not_mem_marks⟩
  · refine (Shape.isEnumValue_iff hb).mp fun t ht => ?_
    have ⟨v, hv, ha, hm⟩ := Shape.exists_accepts hb ht
    exact h v (suits_default_iff.mpr ((hv σ).symm ▸ ha)) t ((hv σ).symm ▸ hm)
  · exact (Shape.isEnumValue_iff hb).mpr h t
      (Shape.allowed_of_accepts hb (suits_default_iff.mp hv) t ht)
  · have ha := suits_default_iff.mp hv
    refine ⟨fun l hl => ?_, fun text ht => ?_⟩
    · exact Shape.ofWords_of_accepts hb ha (perform_literal_eq_ok.mp hl)
    · exact perform_literal_of_directiveText ha (he ▸ ht)

def colors : List Call :=
  [.shape (.enumRef "Color" (some [.text "RED", .text "GREEN"])) (.bool false) (.bool true)
    (.bool true)]

theorem isEnumValue_bareTexts_colors :
    let σ := ({} : Store).run colors
    let v := Value.list [.text "RED", .null]
    (∀ t ∈ (σ.settle v).bareTexts, IsEnumValue t) ∧
      OfWords (fun w => w = "null" ∨ w ∈ (σ.settle v).bareTexts) "[RED, null]" := by
  intro σ v
  have hs : (σ.outline 0).base = .enum "Color" (some [.text "RED", .text "GREEN"]) := rfl
  have hv : Succeeds (σ.plan (.checkDefault (.object (.shape 0)) v)) := ⟨_, rfl⟩
  have ⟨hi, ho, _⟩ := isEnumValue_bareTexts_iff hs
  refine ⟨hi.mpr ⟨_, rfl, fun t ht => ?_⟩ v hv, (ho v hv).left "[RED, null]" rfl⟩
  simp only [List.mem_cons, Value.text.injEq, List.not_mem_nil, or_false] at ht
  rcases ht with rfl | rfl <;> decide

-- Where no values are given, a default can pass for more than one directive.

def unknownColor : List Call := [.leaf (.enumRef "Color" none) (.bool false)]

def loaded : Value := .text "RED) @search @auth(rules: [\x7b allow: public \x7d]"

theorem not_isEnumValue_bareTexts :
    ¬ ∀ (σ : Store) (s : ShapeId) (name : String) (vs : Option (List Value)),
      (σ.outline s).base = .enum name vs →
        ∀ v, Succeeds (σ.plan (.checkDefault (.object (.shape s)) v)) →
          ∀ t ∈ (σ.settle v).bareTexts, IsEnumValue t := by
  intro h
  have h := h (({} : Store).run unknownColor) 0 "Color" none rfl loaded ⟨_, rfl⟩ _
    List.mem_cons_self
  exact absurd h (by decide)

example :
    let σ := ({} : Store).run unknownColor
    let script := Value.script [.mk "public" [] []]
    ((σ.run [.default (.field 0) loaded]).perform (.render (.field 1))).1 =
      ((σ.run [.default (.field 0) (.text "RED"), .search (.field 1),
        .auth (.field 2) script]).perform (.render (.field 3))).1 := rfl

end Store

end GraphSchema
