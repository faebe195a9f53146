import GraphSchema.Proofs.Enum.Bare
import GraphSchema.Proofs.Field.Admitted
import GraphSchema.Proofs.Field.Sharing
import GraphSchema.Proofs.Printing.Schema
import GraphSchema.Proofs.Registry.Growth

namespace GraphSchema

open Outcome

namespace Store

variable {σ τ : Store} {s : Shape} {name : String} {vs : Option (List Value)} {v x : Value}
  {r : Ref} {e : EnumType}

-- Defaults over time.

theorem eq_of_settle_isAtom (ha : x.IsAtom) (h : σ.settle v = x) : v = x := by
  cases v
  case object r =>
    cases hr : σ.ownList? r <;> simp only [settle, Value.settle, hr] at h
    case none => exact h
    case some => subst h; cases ha
  case list | tuple | stream | dict | enumMember =>
    simp only [settle, Value.settle] at h
    subst h
    cases ha
  all_goals exact h

theorem settle_eq_of_acceptsItem (hb : s.base = .enum name vs) (h : s.acceptsItem (τ.settle x)) :
    σ.settle x = τ.settle x := by
  rcases Shape.acceptsItem_iff.mp h with ⟨hn, _⟩ | h
  case inl => rw [eq_of_settle_isAtom .null hn]; rfl
  case inr =>
    have ⟨t, ht, _⟩ := Base.accepts_enum_iff.mp (hb ▸ h)
    rw [eq_of_settle_isAtom (.text t) ht]
    rfl

-- Nothing but the lists of objects can change in a value that was accepted for an enum.
theorem settle_eq_of_accepts (hb : s.base = .enum name vs) (h : s.accepts (τ.settle v))
    (hv : ∀ r, v ≠ .object r) : σ.settle v = τ.settle v := by
  have h := (Shape.accepts_iff.mp h).right.right
  split at h
  case isFalse =>
    have ⟨t, ht, _⟩ := Base.accepts_enum_iff.mp (hb ▸ h)
    rw [eq_of_settle_isAtom (.text t) ht]
    rfl
  case isTrue =>
    have ⟨xs, hs, hx⟩ := h
    cases v
    case object => exact absurd rfl (hv _)
    case list ys | tuple ys =>
      cases hs
      simp only [settle, Value.settle, Value.settleAll_eq_map] at hx ⊢
      congr 1
      refine List.map_congr_left fun y hy => ?_
      exact settle_eq_of_acceptsItem hb (hx _ (List.mem_map_of_mem hy))
    case byteArray | progression => rfl
    all_goals simp [settle, Value.settle, Value.sequence?] at hs

theorem isAtom_of_ownList? {xs : List Value} (h : σ.ownList? r = some xs) : ∀ x ∈ xs, x.IsAtom := by
  cases r
  case operations =>
    have ⟨_, _, e⟩ := Option.map_eq_some_iff.mp h
    exact e ▸ List.forall_mem_map.mpr fun _ _ => .text _
  case rules | interfaces =>
    have ⟨_, _, e⟩ := Option.map_eq_some_iff.mp h
    exact e ▸ List.forall_mem_map.mpr fun _ _ => .object _
  all_goals exact nomatch h

theorem isChoice_of_admits (h : σ.Admits (.enum name vs) v) :
    (σ.settle v).IsChoice ∨ (σ.settle v).lacksLiteral := by
  have ⟨τ, s, hb, ha, _⟩ := h
  cases v
  case object r =>
    cases hr : σ.ownList? r
    case none => exact .inl (by simpa [settle, Value.settle, hr] using .atom (.object r))
    case some xs =>
      exact .inl (by simpa [settle, Value.settle, hr] using .list (isAtom_of_ownList? hr))
  all_goals
    rw [settle_eq_of_accepts hb ha (by simp)]
    exact Shape.isChoice_of_accepts hb ha

theorem bareTexts_operations (σ : Store) (a : RuleId) :
    (σ.settle (.object (.operations a))).bareTexts = (σ.rule a).operations.map (·.name) := by
  have texts (os : List Operation) :
      Value.listBareTexts (os.map (.text ·.name)) = os.map (·.name) := by
    induction os
    case nil => rfl
    case cons o os hi => rw [List.map_cons, Value.listBareTexts, hi]; rfl
  cases hr : σ.rules[a]?
  case none =>
    simp only [settle, Value.settle, ownList?, rule, hr, Array.getD_eq_getD_getElem?]
    rfl
  case some rule =>
    simp only [settle, Value.settle, ownList?, Store.rule, hr, Array.getD_eq_getD_getElem?]
    exact texts rule.operations

-- Rules and interfaces are no texts.
theorem bareTexts_object (hr : ∀ a, r ≠ .operations a) :
    (σ.settle (.object r)).bareTexts = [] := by
  have none {α : Type} (as : List α) (f : α → Ref) :
      Value.listBareTexts (as.map fun a => .object (f a)) = [] := by
    induction as
    case nil => rfl
    case cons a as hi => rw [List.map_cons, Value.listBareTexts, hi]; rfl
  cases ho : σ.ownList? r
  case none => simp only [settle, Value.settle, ho]; rfl
  case some xs =>
    simp only [settle, Value.settle, ho]
    cases r
    case operations a => exact absurd rfl (hr a)
    case rules | interfaces =>
      obtain ⟨_, _, rfl⟩ := Option.map_eq_some_iff.mp ho
      exact none _ _
    all_goals simp [ownList?] at ho

-- The words of a default are values of the enum, unless a rule has got other operations since.
theorem words_iff_of_admits {ws : List Value} (h : σ.Admits (.enum name (some ws)) v) :
    (∀ w ∈ (σ.settle v).bareTexts, .text w ∈ ws) ↔
      ∀ a, v = .object (.operations a) → ∀ o ∈ (σ.rule a).operations, .text o.name ∈ ws := by
  have ⟨τ, s, hb, ha, _⟩ := h
  cases v
  case object r =>
    by_cases hr : ∃ a, r = .operations a
    case pos =>
      obtain ⟨a, rfl⟩ := hr
      simp [bareTexts_operations]
    case neg =>
      rw [bareTexts_object fun a e => hr ⟨a, e⟩]
      exact iff_of_true (List.forall_mem_nil _) fun a e => absurd ⟨a, by cases e; rfl⟩ hr
  all_goals
    rw [settle_eq_of_accepts hb ha (by simp)]
    exact iff_of_true (fun w hw => Shape.allowed_of_accepts hb ha w hw ws rfl) (by simp)

-- What a field for the enum accepts.

theorem accepts_enumBase : (enumBase e).accepts v ↔ ∃ t ∈ e.values, v = .text t := by
  rw [enumBase, Base.accepts_enum_iff]
  simp only [Option.some.injEq, forall_eq', List.mem_map, Value.text.injEq, exists_eq_right]
  exact ⟨fun ⟨t, hv, ht⟩ => ⟨t, ht, hv⟩, fun ⟨t, ht, hv⟩ => ⟨t, hv, ht⟩⟩

theorem suits_single_iff {i : ShapeId} (hb : (σ.outline i).base = enumBase e)
    (hl : (σ.shape i).isList = false) :
    Succeeds (σ.plan (.checkDefault (.object (.shape i)) v)) ↔ ∃ t ∈ e.values, v = .text t := by
  have hb : (σ.shape i).base = enumBase e := hb
  refine suits_default_iff.trans ?_
  rw [Shape.accepts_iff, hl, hb, if_neg Bool.false_ne_true, accepts_enumBase]
  constructor
  · intro ⟨_, _, t, ht, h⟩
    exact ⟨t, ht, eq_of_settle_isAtom (.text t) h⟩
  · rintro ⟨t, ht, rfl⟩
    exact ⟨rfl, congrArg Base.isObject hb, t, ht, rfl⟩

theorem suits_list_iff {i : ShapeId} (hb : (σ.outline i).base = enumBase e)
    (hl : (σ.shape i).isList) {xs : List Value}
    (hv : σ.settle v = .list xs ∨ σ.settle v = .tuple xs) :
    Succeeds (σ.plan (.checkDefault (.object (.shape i)) v)) ↔
      ∀ x ∈ xs, (∃ t ∈ e.values, x = .text t) ∨ x = .null ∧ (σ.shape i).itemNullable := by
  have hb : (σ.shape i).base = enumBase e := hb
  have item (x : Value) : (σ.shape i).acceptsItem x ↔
      (∃ t ∈ e.values, x = .text t) ∨ x = .null ∧ (σ.shape i).itemNullable := by
    rw [Shape.acceptsItem_iff, hb, accepts_enumBase, or_comm]
  refine suits_default_iff.trans ?_
  rw [Shape.accepts_iff, if_pos hl]
  simp only [← item]
  have ho : (σ.shape i).isObject = false := congrArg Base.isObject hb
  rcases hv with hv | hv <;> simp [hv, ho, Value.isNull, Value.sequence?]

-- The enum that is found under a name.
def NamesEnum (σ : Store) (r : RegistryId) (name : String) (k : EnumId) (e : EnumType) : Prop :=
  (σ.registry r).get? name = some (.enum k) ∧ σ.enums[k]? = some e

-- How a field of an enum and the enum go together at some time.
structure Matches (σ : Store) (n : FieldId) (k : EnumId) (e : EnumType) : Prop where
  shape : ∃ i, (σ.perform (.property (.field n) "shape")).1 = .ok (.object (.shape i)) ∧
    ((σ.shape i).isList = false → ∀ v,
      (Succeeds (σ.plan (.checkDefault (.object (.shape i)) v)) ↔ ∃ t ∈ e.values, v = .text t)) ∧
    ((σ.shape i).isList → ∀ v xs, σ.settle v = .list xs ∨ σ.settle v = .tuple xs →
      (Succeeds (σ.plan (.checkDefault (.object (.shape i)) v)) ↔
        ∀ x ∈ xs, (∃ t ∈ e.values, x = .text t) ∨ x = .null ∧ (σ.shape i).itemNullable))
  printed : ∀ indent s, Indent.spaces indent = .ok (.text s) →
    (σ.perform (.print .definition indent (.definition (.enum k)))).1 =
      .ok (.text (block ("enum " ++ e.name) (e.values.map (s ++ ·))))
  written : ∀ (m : FieldId) (f : Field) v, σ.fields[m]? = some f → f.leaf = n →
    .default v ∈ f.directives → ∀ text,
      σ.directiveText (σ.shape f.shape).isEnum (.default v) = .ok text →
      ∃ l, text = "@default(value: " ++ l ++ ")" ∧
        OfWords (fun w => w = "null" ∨ w ∈ (σ.settle v).bareTexts) l
  -- What is written are values of the enum, unless the default is the list of operations of a rule
  -- and there are others in it now.
  words : ∀ (m : FieldId) (f : Field) v, σ.fields[m]? = some f → f.leaf = n →
    .default v ∈ f.directives → ((∀ w ∈ (σ.settle v).bareTexts, w ∈ e.values) ↔
      ∀ a, v = .object (.operations a) → ∀ o ∈ (σ.rule a).operations, o.name ∈ e.values)

variable {n m : FieldId} {f g : Field} {k : EnumId}

theorem perform_shape (hf : σ.fields[n]? = some f) :
    (σ.perform (.property (.field n) "shape")).1 = .ok (.object (.shape f.shape)) := by
  have e : σ.fields.getD n default = f := by simp [hf]
  rw [answer_eq, plan, property, propertyOf, property?, refProperty, e]
  rfl

theorem perform_printEnum (he : σ.enums[k]? = some e) {indent : Value} {s : String}
    (hs : Indent.spaces indent = .ok (.text s)) :
    (σ.perform (.print .definition indent (.definition (.enum k)))).1 =
      .ok (.text (block ("enum " ++ e.name) (e.values.map (s ++ ·)))) := by
  have eg : σ.enums.getD k default = e := by simp [he]
  rw [perform_print hs]
  simp only [printout, printOne, Value.definition?, printDefinition, eg, printEnum,
    printValuesAs, valueLines_texts]
  rfl

theorem matches_run (cs : List Call) (hf : (({} : Store).run cs).fields[n]? = some f)
    (hb : ((({} : Store).run cs).outline f.shape).base = enumBase e)
    (he : (({} : Store).run cs).enums[k]? = some e) : (({} : Store).run cs).Matches n k e := by
  have admits {m : FieldId} {g : Field} {v : Value}
      (hg : (({} : Store).run cs).fields[m]? = some g) (hl : g.leaf = n)
      (hv : .default v ∈ g.directives) :
      ((({} : Store).run cs).outline g.shape).base = enumBase e ∧
        (({} : Store).run cs).Admits (enumBase e) v := by
    have ⟨f', hf', es⟩ := anchored_run cs m g hg
    cases hf.symm.trans (hl ▸ hf')
    rw [es] at hb
    exact ⟨hb, hb ▸ allAdmitted_run cs m g hg v hv⟩
  constructor
  case shape =>
    exact ⟨f.shape, perform_shape hf, fun hl v => suits_single_iff hb hl,
      fun hl v xs hv => suits_list_iff hb hl hv⟩
  case printed => exact fun indent s hs => perform_printEnum he hs
  case written =>
    intro m g v hg hl hv text ht
    have ⟨hb, ha⟩ := admits hg hl hv
    have isEnum : ((({} : Store).run cs).shape g.shape).isEnum := congrArg Base.isEnum hb
    rw [isEnum] at ht
    have ⟨l, hl, e⟩ := directiveText_default_eq_ok.mp ht
    refine ⟨l, e, ?_⟩
    rcases isChoice_of_admits ha with h | h
    case inl => exact h.ofWords hl
    case inr => exact absurd ⟨l, hl⟩ (Value.not_succeeds_literal h)
  case words =>
    intro m g v hg hl hv
    simpa using words_iff_of_admits (admits hg hl hv).right

theorem base_run (cs bs : List Call) (hf : (({} : Store).run cs).fields[n]? = some f) :
    ((({} : Store).run cs).run bs).fields[n]? = some f ∧
      ((({} : Store).run cs).run bs |>.outline f.shape).base =
        ((({} : Store).run cs).outline f.shape).base := by
  refine (run_induction (P := fun τ => τ.Formed ∧ τ.fields[n]? = some f ∧
    (τ.outline f.shape).base = ((({} : Store).run cs).outline f.shape).base) bs
    ⟨formed_run cs, hf, rfl⟩ ?_).right
  intro τ c p ⟨hτ, hf, hb⟩ hp
  have s := (step_of_plan hp).fieldStep
  exact ⟨hτ.preserved s, s.getElem?_fields hf, (s.base_outline (hτ n f hf).shape_lt).trans hb⟩

theorem enums_run (cs : List Call) (he : σ.enums[k]? = some e) : (σ.run cs).enums[k]? = some e :=
  run_induction (P := fun σ => σ.enums[k]? = some e) cs he fun _ _ _ h hp =>
    (step_of_plan hp).getElem?_enums h

-- Fields by name.

theorem plan_enumField {g : Value} {r : RegistryId} (hb : σ.builder? g = some ⟨r, none⟩)
    (name : String) : σ.plan (.enumField g (.text name)) =
      match (σ.registry r).get? name with
      | none => .error (.unknown name)
      | some (.enum k) => .ok (σ.leafPlan (enumBase (σ.enums.getD k default)) (.bool false))
      | some d => .error (.misuse (.namesOther name d.typeName "EnumDefinition")) := by
  have hf : σ.find r (.text name) =
      match (σ.registry r).get? name with
      | none => .error (.unknown name)
      | some d => .ok d := by
    simp only [find, Value.text?, Option.bind_some]
    cases (σ.registry r).get? name <;> rfl
  simp only [plan, enumField, hb, meantEnum, ownRegistry]
  change (σ.findEnum r name >>= _) = _
  rw [findEnum, hf]
  cases (σ.registry r).get? name
  case none => rfl
  case some d => cases d <;> rfl

-- A name that stands for an enum gives a field of it, and no other name does. Until the registry
-- is emptied the name stands for the same enum, and the field takes the values that this is printed
-- with. No member of a class is a text here, so none of them is taken.
theorem enumField_run (cs : List Call) {g : Value} {r : RegistryId}
    (hg : (({} : Store).run cs).builder? g = some ⟨r, none⟩) (name : String) :
    let σ := ({} : Store).run cs
    let c := Call.enumField g (.text name)
    ((σ.registry r).get? name = none → σ.perform c = (.error (.unknown name), σ)) ∧
    (∀ d, (σ.registry r).get? name = some d → d.kind ≠ .enum →
      σ.perform c = (.error (.misuse (.namesOther name d.typeName "EnumDefinition")), σ)) ∧
    ∀ k e, σ.NamesEnum r name k e → ∃ n, (σ.perform c).1 = .ok (.field n) ∧
      ∀ bs, Uncleared r (σ.perform c).2 bs →
        let τ := (σ.perform c).2.run bs
        τ.NamesEnum r name k e ∧ τ.Matches n k e := by
  intro σ c
  have plan := plan_enumField hg name
  refine ⟨fun hn => ?unknown, fun d hd hk => ?other, fun k e ⟨hd, he⟩ => ?enum⟩
  case unknown =>
    rw [hn] at plan
    exact perform_of_refusal plan
  case other =>
    rw [hd] at plan
    cases d
    case enum => exact absurd rfl hk
    all_goals exact perform_of_refusal plan
  case enum =>
    have ek : σ.enums.getD k default = e := by simp [he]
    rw [hd] at plan
    simp only [σ, ek] at plan
    have hp := perform_of_plan plan
    have eσ : (σ.perform c).2 = σ.applyAll (σ.leafPlan (enumBase e) (.bool false)).changes :=
      congrArg Prod.snd hp
    have er : (σ.perform c).2 = ({} : Store).run (cs ++ [c]) := (run_concat ..).symm
    have hd' : ((σ.perform c).2.registry r).get? name = some (.enum k) := eσ ▸ hd
    have he' : (σ.perform c).2.enums[k]? = some e := eσ ▸ he
    have hf : (σ.perform c).2.fields[σ.fields.size]? =
        some ⟨σ.shapes.size, σ.fields.size, none, []⟩ := eσ ▸ getElem?_leafPlan ..
    have hb : ((σ.perform c).2.outline σ.shapes.size).base = enumBase e :=
      congrArg Outline.base (eσ ▸ outline_leafPlan ..)
    refine ⟨σ.fields.size, congrArg Prod.fst hp, fun bs hu => ?_⟩
    have he'' := enums_run bs he'
    rw [er] at hf hb hd' hu he'' ⊢
    obtain ⟨hf', hb'⟩ := base_run (cs ++ [c]) bs hf
    have named := get?_run hu hd'
    rw [← run_append] at hf' hb' he'' named ⊢
    exact ⟨⟨named, he''⟩, matches_run _ hf' (hb'.trans hb) he''⟩

-- The values are taken for defaults, also where the field has become a list of them.

def operations : List Call :=
  [.builder .null, .buildEnum (.object (.builder 0)) (.text "Op") (.texts ["create", "read"])]

def operationType : EnumType := ⟨"Op", ["create", "read"]⟩

def listing : List Call := [.list (.field 0), .default (.field 0) (.list [.text "read"])]

theorem enumField_operations :
    let σ := ({} : Store).run operations
    let made := (σ.perform (.enumField (.object (.builder 0)) (.text "Op"))).2
    let τ := made.run listing
    (σ.perform (.enumField (.object (.builder 0)) (.text "op"))).1 = .error (.unknown "op") ∧
      τ.NamesEnum 0 "Op" 0 operationType ∧ τ.Matches 0 0 operationType ∧
      ∀ w ∈ (τ.settle (.list [.text "read"])).bareTexts, w ∈ operationType.values := by
  intro σ made τ
  have hg : σ.builder? (.object (.builder 0)) = some ⟨0, none⟩ := rfl
  have ⟨unknown, _, _⟩ := enumField_run operations hg "op"
  have ⟨_, _, enum⟩ := enumField_run operations hg "Op"
  have ⟨n, hn, h⟩ := enum 0 operationType ⟨by decide, rfl⟩
  cases hn
  have ⟨named, agrees⟩ := h listing ⟨nofun, nofun, trivial⟩
  have words := agrees.words 1 _ _ rfl rfl List.mem_cons_self
  exact ⟨congrArg Prod.fst (unknown (by decide)), named, agrees, words.mpr nofun⟩

-- The operations of a rule are a list of texts as well, but one that grows.

def growing : List Call :=
  [.list (.field 0), .ruleSet, .allow (.ruleSet 0) .signedIn, .narrow (.object (.rule 0)) .create,
    .default (.field 0) (.object (.operations 0)), .narrow (.object (.rule 0)) .update]

theorem not_words_growing :
    ¬ ∀ (cs : List Call) (g : Value) (r : RegistryId) (name : String) (k : EnumId) (e : EnumType),
      let σ := ({} : Store).run cs
      let c := Call.enumField g (.text name)
      σ.builder? g = some ⟨r, none⟩ → σ.NamesEnum r name k e →
        ∀ n, (σ.perform c).1 = .ok (.field n) → ∀ bs, Uncleared r (σ.perform c).2 bs →
          let τ := (σ.perform c).2.run bs
          ∀ (m : FieldId) (f : Field) v, τ.fields[m]? = some f → f.leaf = n →
            .default v ∈ f.directives → ∀ w ∈ (τ.settle v).bareTexts, w ∈ e.values := by
  intro h
  have h := h operations (.object (.builder 0)) 0 "Op" 0 operationType rfl ⟨by decide, rfl⟩ 0 rfl
    growing ⟨nofun, nofun, nofun, nofun, nofun, nofun, trivial⟩ 1 _ _ rfl rfl List.mem_cons_self
    "update" (by decide)
  exact absurd h (by decide)

example :
    let made := ((({} : Store).run operations).perform
      (.enumField (.object (.builder 0)) (.text "Op"))).2
    ((made.run growing).perform (.render (.field 1))).1 =
      .ok (.text "[Op!]! @default(value: [create, update])") := rfl

end Store

end GraphSchema
