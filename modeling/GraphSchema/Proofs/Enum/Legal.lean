import Mathlib.Data.List.Induction
import GraphSchema.Proofs.Field.Scope
import GraphSchema.Proofs.Name.Grammar
import GraphSchema.Proofs.Name.Refused

namespace GraphSchema

open Outcome Error

namespace Value

variable {x : Value} {xs before after : List Value} {s : String}

def reservedNames : List String := ["true", "false", "null"]

-- A name that may be among the values of an enum.
def IsLegal (x : Value) : Prop := ∃ s, x = text s ∧ Name.InGrammar s ∧ s ∉ reservedNames

-- Items that may be the values of an enum, in this order.
structure AreLegal (xs : List Value) : Prop where
  each : ∀ x ∈ xs, x.IsLegal
  nodup : xs.Nodup

-- What is taken for them: a name may have a line break behind it.

def IsTaken (x : Value) : Prop := ∃ s, x = text s ∧ isName s ∧ s ∉ reservedNames

structure AreTaken (xs : List Value) : Prop where
  each : ∀ x ∈ xs, x.IsTaken
  nodup : xs.Nodup

-- The rule that an item breaks after those before it, with what is said then.
inductive Offends (before : List Value) (x : Value) : (String → Misuse) → Prop
  | unnamed (name : ¬ x.isNameText) : Offends before x (.badName "enum value")
  | reserved {s : String} (text : x = .text s) (name : isName s) (word : s ∈ reservedNames) :
    Offends before x .reservedValue
  | repeated {s : String} (text : x = .text s) (name : isName s) (twice : x ∈ before) :
    Offends before x .repeatedValue

theorem isLegal_iff : x.IsLegal ↔ x.IsTaken ∧ ∀ s, x = text s → ¬ Name.IsBroken s := by
  constructor
  · rintro ⟨s, rfl, hs, hr⟩
    refine ⟨⟨s, rfl, Name.isName_iff.mpr (.inl hs), hr⟩, ?_⟩
    rintro _ ⟨⟩ hb
    exact hb.not_inGrammar hs
  · rintro ⟨⟨s, rfl, hs, hr⟩, hb⟩
    exact ⟨s, rfl, (Name.isName_iff.mp hs).resolve_right (hb s rfl), hr⟩

theorem areLegal_iff : AreLegal xs ↔ AreTaken xs ∧ ∀ s, text s ∈ xs → ¬ Name.IsBroken s := by
  constructor
  · intro ⟨each, nodup⟩
    exact ⟨⟨fun x hx => (isLegal_iff.mp (each x hx)).left, nodup⟩,
      fun s hs => (isLegal_iff.mp (each _ hs)).right s rfl⟩
  · intro ⟨⟨each, nodup⟩, unbroken⟩
    refine ⟨fun x hx => isLegal_iff.mpr ⟨each x hx, ?_⟩, nodup⟩
    rintro s rfl
    exact unbroken s hx

theorem areTaken_nil : AreTaken [] := ⟨nofun, .nil⟩

theorem areTaken_concat_iff :
    AreTaken (xs ++ [x]) ↔ AreTaken xs ∧ x.IsTaken ∧ x ∉ xs := by
  constructor
  · intro ⟨each, nodup⟩
    have ⟨hxs, hx⟩ := List.forall_mem_append.mp each
    have ⟨nodup, _, apart⟩ := List.nodup_append.mp nodup
    exact ⟨⟨hxs, nodup⟩, hx x List.mem_cons_self, fun hm => apart x hm x List.mem_cons_self rfl⟩
  · intro ⟨⟨each, nodup⟩, hx, hm⟩
    refine ⟨List.forall_mem_append.mpr ⟨each, List.forall_mem_singleton.mpr hx⟩, ?_⟩
    exact List.nodup_append.mpr ⟨nodup, by simp,
      fun y hy z hz e => hm (List.mem_singleton.mp hz ▸ e ▸ hy)⟩

theorem AreTaken.exists_names (h : AreTaken xs) : ∃ ns : List String, xs = ns.map text := by
  refine ⟨xs.filterMap (·.text?), eq_map_filterMap_text? fun x hx => ?_⟩
  have ⟨s, e, hs, _⟩ := h.each x hx
  exact e ▸ hs

theorem isTaken_or_offends (before : List Value) (x : Value) :
    x.IsTaken ∧ x ∉ before ∨ ∃ reason, Offends before x reason := by
  by_cases hn : x.isNameText
  case neg => exact .inr ⟨_, .unnamed hn⟩
  case pos =>
    obtain ⟨s, rfl, hs⟩ : ∃ s, x = text s ∧ isName s := by
      cases x
      case text s => exact ⟨s, rfl, hn⟩
      all_goals exact absurd hn Bool.false_ne_true
    by_cases hr : s ∈ reservedNames
    case pos => exact .inr ⟨_, .reserved rfl hs hr⟩
    case neg =>
      by_cases hm : text s ∈ before
      case pos => exact .inr ⟨_, .repeated rfl hs hm⟩
      case neg => exact .inl ⟨⟨s, rfl, hs, hr⟩, hm⟩

-- Items are legal up to the first one that breaks a rule, if any does.
theorem areTaken_or_offends (xs : List Value) : AreTaken xs ∨
    ∃ before x after reason, xs = before ++ x :: after ∧ AreTaken before ∧
      Offends before x reason := by
  induction xs using List.reverseRecOn
  case nil => exact .inl areTaken_nil
  case append_singleton xs x hi =>
    rcases hi with hl | ⟨before, y, after, reason, rfl, hl, hb⟩
    case inr =>
      exact .inr ⟨before, y, after ++ [x], reason, by simp, hl, hb⟩
    case inl =>
      rcases isTaken_or_offends xs x with h | ⟨reason, hb⟩
      case inl => exact .inl (areTaken_concat_iff.mpr ⟨hl, h⟩)
      case inr => exact .inr ⟨xs, x, [], reason, rfl, hl, hb⟩

end Value

namespace Store

open Value

variable {σ : Store} {x v w : Value} {xs before after : List Value} {n s : String}
  {reason : String → Misuse}

theorem checkEnumValues_cons_text (name : isName s) (seen : List String) (xs : List Value) :
    σ.checkEnumValues seen (.text s :: xs) =
      if isReserved s then (Misuse.reservedValue s).refusal
      else if s ∈ seen then (Misuse.repeatedValue s).refusal
      else σ.checkEnumValues (seen ++ [s]) xs := by
  rw [checkEnumValues, checkName_eq_ok_iff.mpr ⟨rfl, name⟩]
  rfl

theorem isReserved_iff : isReserved s ↔ s ∈ reservedNames := decide_eq_true_iff

theorem checkEnumValues_of_areTaken (ns : List String) (h : AreTaken (ns.map .text)) :
    σ.checkEnumValues [] (ns.map .text) = .ok ns := by
  induction ns using List.reverseRecOn
  case nil => rfl
  case append_singleton ns s hi =>
    rw [List.map_append] at h ⊢
    have ⟨hl, ⟨_, e, name, free⟩, fresh⟩ := areTaken_concat_iff.mp h
    cases e
    have fresh : s ∉ ns := fun hs => fresh (List.mem_map_of_mem hs)
    rw [checkEnumValues_append, hi hl]
    change σ.checkEnumValues ns [.text s] = _
    rw [checkEnumValues_cons_text name, if_neg (isReserved_iff.not.mpr free), if_neg fresh]
    rfl

theorem checkEnumValues_of_offends (h : AreTaken before) (hb : Offends before x reason) :
    σ.checkEnumValues [] (before ++ x :: after) = .error (refusal (σ.text x) reason) := by
  obtain ⟨ns, rfl⟩ := h.exists_names
  cases hb
  case unnamed name =>
    rw [checkEnumValues_of_not_isNameText name, checkEnumValues_of_areTaken ns h]
    rfl
  all_goals
    rw [checkEnumValues_append, checkEnumValues_of_areTaken ns h]
    change σ.checkEnumValues ns (x :: after) = _
  case reserved s text name word =>
    subst text
    rw [checkEnumValues_cons_text name, if_pos (isReserved_iff.mpr word)]
    rfl
  case repeated s text name twice =>
    subst text
    have ⟨_, e, _, free⟩ := h.each _ twice
    cases e
    have twice : s ∈ ns := by simpa using twice
    rw [checkEnumValues_cons_text name, if_neg (isReserved_iff.not.mpr free), if_pos twice]
    rfl

theorem succeeds_checkEnumValues_iff :
    Succeeds (σ.checkEnumValues [] xs) ↔ AreTaken xs := by
  constructor
  · intro ⟨ns, hns⟩
    rcases areTaken_or_offends xs with h | ⟨before, x, after, reason, rfl, hl, hb⟩
    case inl => exact h
    case inr => exact nomatch (checkEnumValues_of_offends hl hb).symm.trans hns
  · intro h
    obtain ⟨ns, rfl⟩ := h.exists_names
    exact ⟨ns, checkEnumValues_of_areTaken ns h⟩

theorem checkEnum_eq (name : isName n) (noText : v.text? = none) (items : σ.items? v = some xs) :
    σ.checkEnum (.text n) v = σ.checkEnumValues [] xs >>= fun ns =>
      if ns = [] then (Misuse.emptyEnum n).refusal else .ok ⟨n, ns⟩ := by
  obtain ⟨zs, items, same⟩ := checkEnumValues_front items
  rw [checkEnum, checkName_eq_ok_iff.mpr ⟨rfl, name⟩, noText]
  change (σ.items v.front >>= fun xs => σ.checkEnumValues [] xs >>= _) = _
  rw [items]
  change σ.checkEnumValues [] zs >>= _ = _
  rw [same]
  congr 1
  funext ns
  cases ns <;> rfl

theorem name_of_checkEnum {e : EnumType} (h : σ.checkEnum (.text n) v = .ok e) : n = e.name := by
  have ⟨_, hn, h⟩ := bind_eq_ok.mp h
  cases (checkName_eq_ok_iff.mp hn).left
  split at h
  · exact absurd h Value.refuse_ne_ok
  · have ⟨_, _, h⟩ := bind_eq_ok.mp h
    have ⟨_, _, h⟩ := bind_eq_ok.mp h
    split at h
    · exact absurd h Misuse.refusal_ne_ok
    · cases pure_eq_ok.mp h
      rfl

-- Calls that make an enum of a name and values, and leave the other enums alone.
def MakesEnum (σ : Store) (c : Call) (name values : Value) : Prop :=
  ∃ more : EnumType → List Change, (∀ (τ : Store) (e : EnumType),
      (τ.applyAll (more e)).enums = τ.enums) ∧
    σ.plan c = (σ.checkEnum name values).map fun e =>
      ⟨.addEnum e :: more e, .definition (.enum σ.enums.size)⟩

theorem makesEnum_enum (name values : Value) : σ.MakesEnum (.enum name values) name values := by
  refine ⟨fun _ => [], fun _ _ => rfl, ?_⟩
  rw [plan, newEnum]
  cases σ.checkEnum name values <;> rfl

theorem makesEnum_buildEnum {g : Value} {r : RegistryId} (hg : σ.builder? g = some ⟨r, none⟩)
    (free : n ∉ (σ.registry r).names) (values : Value) :
    σ.MakesEnum (.buildEnum g (.text n) values) (.text n) (memberNames values) := by
  refine ⟨fun e => [.register r e.name (.enum σ.enums.size)], fun _ _ => rfl, ?_⟩
  rw [plan, buildEnum, ownRegistry, hg]
  change σ.checkEnum (.text n) (memberNames values) >>= _ = _
  cases he : σ.checkEnum (.text n) (memberNames values)
  case error => rfl
  case ok e =>
    exact if_neg (name_of_checkEnum he ▸ free)

-- A property of what a call answers with, as it is after the call.
def asked (σ : Store) (c : Call) (property : String) : Except Error Value :=
  (σ.perform c).1 >>= fun v => ((σ.perform c).2.perform (.property v property)).1

theorem MakesEnum.asked_eq {c : Call} (h : σ.MakesEnum c v w) (property : String) :
    σ.asked c property = σ.checkEnum v w >>= fun e =>
      match enumProperty e property with
      | some x => .ok x
      | none => .error (.noProperty "EnumDefinition" property) := by
  have ⟨more, same, hp⟩ := h
  rw [asked]
  cases he : σ.checkEnum v w
  case error =>
    rw [perform_of_refusal (by rw [hp, he]; rfl)]
    rfl
  case ok e =>
    have hp : σ.plan c = .ok ⟨.addEnum e :: more e, .definition (.enum σ.enums.size)⟩ := by
      rw [hp, he]
      rfl
    rw [perform_of_plan hp]
    change ((σ.applyAll (.addEnum e :: more e)).perform
      (.property (.definition (.enum σ.enums.size)) property)).1 = _
    have made : (σ.applyAll (.addEnum e :: more e)).enums.getD σ.enums.size default = e := by
      rw [applyAll_cons, same]
      simp [apply]
    rw [answer_eq, plan, Store.property, propertyOf, property?, refProperty, made]
    change _ = match enumProperty e property with | some x => _ | none => _
    cases enumProperty e property <;> rfl

-- The names of the members of a class, without the other names that they have.
def membersNamed (ms : List (String × String × Value)) : List String :=
  (ms.filter fun (n, m, _) => n == m).map (·.2.1)

theorem memberNames_enumClass (id : OutsideId) (n : String) (ms : List (String × String × Value)) :
    memberNames (.enumClass id n ms) = .texts (membersNamed ms) := by
  simp [memberNames, membersOf, texts, membersNamed]

theorem makesEnum_enumOf (id : OutsideId) (n : String) (ms : List (String × String × Value)) :
    σ.MakesEnum (.enumOf (.enumClass id n ms)) (.text n) (.texts (membersNamed ms)) := by
  rw [← memberNames_enumClass id]
  exact makesEnum_enum (.text n) (memberNames (.enumClass id n ms))

theorem succeeds_perform_enum_iff :
    Succeeds (σ.perform (.enum v w)).1 ↔ Succeeds (σ.checkEnum v w) := by
  rw [answer_eq, plan, newEnum]
  cases σ.checkEnum v w
  case error => exact iff_of_false not_succeeds_error not_succeeds_error
  case ok => exact iff_of_true succeeds_ok succeeds_ok

theorem succeeds_enum_iff (name : isName n) (noText : v.text? = none)
    (items : σ.items? v = some xs) :
    Succeeds (σ.perform (.enum (.text n) v)).1 ↔ xs ≠ [] ∧ AreTaken xs := by
  rw [succeeds_perform_enum_iff, checkEnum_eq name noText items, and_comm]
  rcases areTaken_or_offends xs with h | ⟨before, x, after, reason, rfl, hl, ho⟩
  case inl =>
    obtain ⟨ns, rfl⟩ := h.exists_names
    rw [checkEnumValues_of_areTaken ns h, and_iff_right h]
    cases ns
    case nil => exact iff_of_false not_succeeds_error (· rfl)
    case cons => exact iff_of_true succeeds_ok nofun
  case inr =>
    have hv : σ.checkEnumValues [] (before ++ x :: after) = .error (refusal (σ.text x) reason) :=
      checkEnumValues_of_offends hl ho
    rw [hv]
    refine iff_of_false not_succeeds_error ?_
    rintro ⟨h, _⟩
    obtain ⟨ns, hns⟩ := (succeeds_checkEnumValues_iff (σ := σ)).mpr h
    exact nomatch hv.symm.trans hns

theorem perform_enum_of_offends (name : isName n) (noText : v.text? = none)
    (items : σ.items? v = some (before ++ x :: after)) (hl : AreTaken before)
    (ho : Offends before x reason) :
    σ.perform (.enum (.text n) v) = (.error (refusal (σ.text x) reason), σ) := by
  refine perform_of_refusal ?_
  rw [plan, newEnum, checkEnum_eq name noText items, checkEnumValues_of_offends hl ho]
  rfl

theorem succeeds_text_of_isPlain (h : x.isPlain) : Succeeds (σ.text x) := by
  rw [text, settle, settle_of_isPlain x h]
  exact succeeds_toText h

-- Values are taken if they are legal, or would be without the line break behind a name, and then
-- all of them in their order. Else the first item at fault is what the refusal is about, and it is
-- of the kind it should be unless that item cannot be shown. A class stands for the names of its
-- members on both ways to an enum.
theorem enum_areLegal_iff (σ : Store) :
    (∀ (n : String) (v : Value) (xs : List Value), isName n → v.text? = none →
      σ.items? v = some xs →
      let c := Call.enum (.text n) v
      (Succeeds (σ.perform c).1 ↔ xs ≠ [] ∧ AreTaken xs) ∧
      (AreLegal xs ↔ AreTaken xs ∧ ∀ s, .text s ∈ xs → ¬ Name.IsBroken s) ∧
      (xs ≠ [] → AreTaken xs →
        σ.asked c "name" = .ok (.text n) ∧ σ.asked c "values" = .ok (.tuple xs)) ∧
      (xs = [] → σ.perform c = (.error (.misuse (.emptyEnum n)), σ)) ∧
      (¬ AreTaken xs → ∃ before x after reason, xs = before ++ x :: after ∧ AreTaken before ∧
        Offends before x reason ∧ σ.perform c = (.error (refusal (σ.text x) reason), σ) ∧
        ((refusal (σ.text x) reason).IsConfiguration ↔ FailsBy IsConfiguration (σ.text x)) ∧
        (x.isPlain → Succeeds (σ.text x)))) ∧
    ∀ (id : OutsideId) (n : String) (ms : List (String × String × Value)) (g : Value)
      (r : RegistryId), σ.builder? g = some ⟨r, none⟩ → n ∉ (σ.registry r).names →
      ∀ property,
        let expected := σ.asked (.enum (.text n) (.texts (membersNamed ms))) property
        σ.asked (.enumOf (.enumClass id n ms)) property = expected ∧
        σ.asked (.buildEnum g (.text n) (.enumClass id n ms)) property = expected := by
  constructor
  case left =>
    intro n v xs name noText items c
    refine ⟨succeeds_enum_iff name noText items, areLegal_iff, fun hne hl => ?_, fun e => ?_,
      fun hl => ?_⟩
    · obtain ⟨ns, rfl⟩ := hl.exists_names
      have hne : ns ≠ [] := fun e => hne (e ▸ rfl)
      have made : σ.checkEnum (.text n) v = .ok ⟨n, ns⟩ := by
        rw [checkEnum_eq name noText items, checkEnumValues_of_areTaken ns hl]
        exact if_neg hne
      rw [(makesEnum_enum _ _).asked_eq, (makesEnum_enum _ _).asked_eq, made]
      exact ⟨rfl, rfl⟩
    · subst e
      refine perform_of_refusal ?_
      rw [plan, newEnum, checkEnum_eq name noText items]
      rfl
    · obtain ⟨before, x, after, reason, rfl, hb, ho⟩ := (areTaken_or_offends xs).resolve_left hl
      exact ⟨before, x, after, reason, rfl, hb, ho, perform_enum_of_offends name noText items hb ho,
        isConfiguration_refusal, succeeds_text_of_isPlain⟩
  case right =>
    intro id n ms g r hg free property
    have built := makesEnum_buildEnum hg free (.enumClass id n ms)
    rw [memberNames_enumClass] at built
    rw [(makesEnum_enum _ _).asked_eq, (makesEnum_enumOf id n ms).asked_eq, built.asked_eq]
    exact ⟨rfl, rfl⟩

def shades : List (String × String × Value) :=
  [("RED", "RED", .int 1), ("CRIMSON", "RED", .int 1), ("GREEN", "GREEN", .int 2)]

-- Another name of a member is no value, a name that comes twice is refused.
theorem enum_areLegal_shades :
    let σ := ({} : Store).run [.builder .null]
    let twice := Value.stream [.text "RED", .text "GREEN", .text "RED"]
    ¬ Succeeds (σ.perform (.enum (.text "Color") twice)).1 ∧
      σ.asked (.buildEnum (.object (.builder 0)) (.text "Color") (.enumClass 0 "Color" shades))
        "values" = .ok (.tuple [.text "RED", .text "GREEN"]) := by
  intro σ twice
  have ⟨taken, same⟩ := enum_areLegal_iff σ
  have ⟨iff, _⟩ := taken "Color" twice _ (by decide) rfl rfl
  have ⟨iff', _, kept, _⟩ := taken "Color" (.texts (membersNamed shades)) _ (by decide) rfl rfl
  have ⟨_, built⟩ := same 0 "Color" shades (.object (.builder 0)) 0 rfl (by decide) "values"
  have ⟨_, legal⟩ := iff'.mp (by decide)
  refine ⟨fun h => ?_, built.trans (kept nofun legal).right⟩
  have ⟨_, legal⟩ := iff.mp h
  simpa using legal.nodup

-- A field with a default that cannot be printed is no value, but the refusal is about the default.
def unprintable : List Call :=
  [.leaf (.scalar .int) (.bool false), .list (.field 0),
    .default (.field 0) (.progression ⟨0, 3, 1⟩)]

theorem not_enum_isConfiguration :
    ¬ ∀ (cs : List Call) (n : String) (v : Value) (xs : List Value),
      let σ := ({} : Store).run cs
      isName n → v.text? = none → σ.items? v = some xs → ¬ (xs ≠ [] ∧ AreTaken xs) →
        ∃ e, σ.perform (.enum (.text n) v) = (.error e, σ) ∧ e.IsConfiguration := by
  intro h
  have illegal : ¬ AreTaken [.field 1] := fun hl =>
    have ⟨_, e, _⟩ := hl.each _ List.mem_cons_self
    nomatch e
  have ⟨e, he, kind⟩ := h unprintable "E" (.list [.field 1]) _ (by decide) rfl rfl
    fun h => illegal h.right
  cases he
  exact kind

end Store

end GraphSchema
