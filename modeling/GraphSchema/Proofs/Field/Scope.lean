import GraphSchema.Proofs.Field.Rendering
import GraphSchema.Proofs.Field.Valid
import GraphSchema.Proofs.Name.Grammar
import GraphSchema.Proofs.Value.Fault

namespace GraphSchema

open Outcome Error

namespace Value

-- A name as the grammar has it.
def IsGrammatical (x : Value) : Prop := ∃ s, x = text s ∧ Name.InGrammar s

variable {x : Value} {items : List Value}

theorem IsGrammatical.isNameText (h : x.IsGrammatical) : x.isNameText :=
  have ⟨s, e, hs⟩ := h
  isNameText_iff.mpr ⟨s, e, .inl hs⟩

theorem isGrammatical_of_isNameText (h : x.isNameText)
    (hb : ∀ s, x = text s → ¬ Name.IsBroken s) : x.IsGrammatical :=
  have ⟨s, e, hs⟩ := isNameText_iff.mp h
  ⟨s, e, hs.resolve_right (hb s e)⟩

theorem eq_map_filterMap_text? (h : ∀ x ∈ items, x.isNameText) :
    items = (items.filterMap (·.text?)).map text := by
  induction items
  case nil => rfl
  case cons x xs hi =>
    have ⟨hx, hxs⟩ := List.forall_mem_cons.mp h
    obtain ⟨s, rfl, _⟩ := isNameText_iff.mp hx
    exact congrArg (text s :: ·) (hi hxs)

end Value

namespace Store

open Value (texts)

variable {σ : Store} {v : Value} {xs : List Value} {f : Numbered Field} {n : FieldId}
  {names : List String}

-- What goes wrong when something is shown.

theorem onlyTypeFaults_names : σ.names.OnlyTypeFaults :=
  ⟨fun _ => failsBy_pure, fun _ => failsBy_pure⟩

theorem failsBy_directiveText (h : σ.AllWorded) {bare : Bool} (d : Directive) :
    FailsBy IsTypeFault (σ.directiveText bare d) := by
  cases d
  case default v => exact (Value.failsBy_literal onlyTypeFaults_names _).bind fun _ => failsBy_pure
  case auth s => exact (failsBy_of_succeeds (h.succeeds_rulesText s)).bind fun _ => failsBy_pure
  all_goals exact failsBy_pure

theorem failsBy_refDisplay (h : σ.AllWorded) (r : Ref) : FailsBy IsTypeFault (σ.refDisplay r) := by
  cases r
  case field f =>
    refine FailsBy.bind (FailsBy.bind ?_ fun _ => failsBy_pure) fun _ => failsBy_pure
    exact failsBy_mapM fun d _ => failsBy_directiveText h d
  all_goals exact failsBy_pure

-- A call that quotes a value is refused for its reason exactly if the value can be shown.
theorem refuse_eq_misuse_iff {α : Type} (h : σ.AllWorded) (reason : String → Misuse) :
    (∃ m, (v.refuse σ.display reason : Except Error α) = .error (.misuse m)) ↔
      Succeeds (σ.display v) := by
  have faults : FailsBy IsTypeFault (σ.display v) := Value.failsBy_display (failsBy_refDisplay h) _
  unfold Value.refuse
  cases hd : σ.display v
  case ok s => exact iff_of_true ⟨_, rfl⟩ succeeds_ok
  case error e =>
    refine iff_of_false (fun ⟨m, hm⟩ => ?_) not_succeeds_error
    cases hm
    exact faults _ hd

theorem perform_unique (h : σ.checkWrap .unique v = .ok f) (scope : Value) :
    σ.perform (.unique v scope) = match σ.checkScope scope with
      | .ok names => (.ok (.field σ.fields.size),
          { σ with fields := σ.fields.push (.wrap f (.unique names)) })
      | .error e => (.error e, σ) := by
  have e : σ.plan (.unique v scope) =
      σ.checkScope scope >>= fun names => pure (σ.wrapPlan f [] (.unique names)) := by
    simp only [plan, unique, h]
    rfl
  cases hs : σ.checkScope scope
  case error => exact perform_of_refusal (by rw [e, hs]; rfl)
  case ok => exact perform_of_plan (by rw [e, hs]; rfl)

-- The scope that a field has, and how it is written.
structure HasScope (σ : Store) (v : Value) (names : List String) : Prop where
  scope : (σ.perform (.property v "scope")).1 = .ok (.texts names)
  text : ∃ t, (σ.perform (.directive v)).1 = .ok (.text t) ∧ (t = "@unique" ↔ names = []) ∧
    (names ≠ [] → t = "@unique(fields: [" ++ ", ".intercalate (names.map quote) ++ "])")

theorem hasScope_of_fields (h : σ.fields[n]? = some (.wrap f (.unique names))) :
    σ.HasScope (.field n) names where
  scope := by
    have e : σ.fields.getD n default = .wrap f (.unique names) := by simp [h]
    rw [answer_eq, plan, property, propertyOf, property?, refProperty, e]
    rfl
  text := by
    have hf : σ.field? (.field n) = some ⟨n, .wrap f (.unique names)⟩ :=
      field?_eq_some_iff.mpr ⟨rfl, h⟩
    refine ⟨Directive.uniqueText names, answer_of_plan (p := .say _) ?_, ?_, fun hn => ?_⟩
    · simp only [plan, directive, hf]
      rfl
    · cases names
      case nil => exact iff_of_true rfl rfl
      case cons =>
        refine iff_of_false (fun e => ?_) (List.cons_ne_nil _ _)
        simpa [Directive.uniqueText] using congrArg String.toList e
    · cases names
      case nil => exact absurd rfl hn
      case cons => exact String.toList_injective (by simp [Directive.uniqueText, quoteList])

-- A call for a unique field goes by the items of the scope: if it succeeds, the field keeps just
-- them from then on, all of them names; and it is refused if and only if one is no name.
structure KeepsScope (σ : Store) (call : Call) (items : List Value) : Prop where
  kept : ∀ v τ, σ.perform call = (.ok v, τ) → ∃ names : List String, items = names.map .text ∧
    (∀ s ∈ names, Name.InGrammar s) ∧ ∀ cs, (τ.run cs).HasScope v names
  refused : (∃ m, (σ.perform call).1 = .error (.misuse m)) ↔ ∃ x ∈ items, ¬ x.IsGrammatical

theorem texts_injective {ss ts : List String} (h : texts ss = texts ts) : ss = ts :=
  List.map_injective_iff.mpr (fun _ _ => Value.text.inj) (Value.list.inj h)

theorem rest_eq_self {scope : Value} (h : ∀ ys, scope = .stream ys → xs = []) :
    scope.rest xs = xs := by
  cases scope
  case stream ys => exact (h ys rfl).symm
  all_goals rfl

-- Where all items pass for names, the call succeeds with those that are left.
theorem keepsScope_iff_of_names (hc : σ.checkWrap .unique v = .ok f) {scope : Value}
    (hs : σ.checkScope scope = .ok ((scope.rest xs).filterMap (·.text?)))
    (hn : ∀ x ∈ xs, x.isNameText) :
    σ.KeepsScope (.unique v scope) xs ↔
      (∀ ys, scope = .stream ys → xs = []) ∧ ∀ s, .text s ∈ xs → ¬ Name.IsBroken s := by
  have hp := perform_unique hc scope
  rw [hs] at hp
  constructor
  · intro h
    have ⟨names, e, grammatical, has⟩ := h.kept _ _ hp
    have left := (has []).scope.symm.trans (hasScope_of_fields Array.getElem?_push_size).scope
    have left : names = (scope.rest xs).filterMap (·.text?) := texts_injective (Except.ok.inj left)
    refine ⟨fun ys hy => ?_, fun s hm hb => ?_⟩
    · rw [e, left, hy]
      rfl
    · rw [e] at hm
      obtain ⟨t, ht, ets⟩ := List.mem_map.mp hm
      cases ets
      exact hb.not_inGrammar (grammatical _ ht)
  · intro ⟨still, unbroken⟩
    have grammatical : ∀ x ∈ xs, x.IsGrammatical := fun x hx =>
      Value.isGrammatical_of_isNameText (hn x hx) fun s e => unbroken s (e ▸ hx)
    have e := Value.eq_map_filterMap_text? hn
    rw [rest_eq_self still] at hp
    constructor
    case kept =>
      intro v τ h
      cases hp.symm.trans h
      refine ⟨_, e, fun s hm => ?_, fun cs => ?_⟩
      · have ⟨t, et, ht⟩ := grammatical (.text s) (e ▸ List.mem_map_of_mem hm)
        exact Value.text.inj et ▸ ht
      · exact hasScope_of_fields (fields_run cs Array.getElem?_push_size)
    case refused =>
      refine iff_of_false (fun ⟨m, hm⟩ => ?_) fun ⟨x, hx, h⟩ => h (grammatical x hx)
      rw [hp] at hm
      exact nomatch hm

-- Where one does not, the call is refused.
theorem keepsScope_iff_of_find? (hw : σ.AllWorded) (hc : σ.checkWrap .unique v = .ok f)
    {scope x : Value} (hs : σ.checkScope scope = x.refuse σ.display .scopeName)
    (hx : x ∈ xs) (hn : ¬ x.isNameText) :
    σ.KeepsScope (.unique v scope) xs ↔ Succeeds (σ.display x) := by
  have invalid : ∃ x ∈ xs, ¬ x.IsGrammatical := ⟨x, hx, fun h => hn h.isNameText⟩
  have misuse := refuse_eq_misuse_iff (v := x) (α := List String) hw .scopeName
  have hp := perform_unique hc scope
  rw [hs] at hp
  rw [← misuse]
  cases hr : (x.refuse σ.display .scopeName : Except Error (List String))
  case ok => exact absurd hr Value.refuse_ne_ok
  case error e =>
    rw [hr] at hp
    constructor
    · intro h
      have ⟨m, hm⟩ := h.refused.mpr invalid
      rw [hp] at hm
      exact ⟨m, congrArg Except.error (Except.error.inj hm)⟩
    · intro ⟨m, hm⟩
      refine ⟨fun v τ h => absurd (hp.symm.trans h) nofun, iff_of_true ⟨m, ?_⟩ invalid⟩
      rw [hp]
      exact congrArg Except.error (Except.error.inj hm)

-- A scope is kept exactly if it does not come from an iterator that has names, no name has a line
-- break behind it, and the first item that is no name can be shown.
theorem keepsScope_run_iff (cs : List Call) {g : Field}
    (hf : (({} : Store).run cs).fields[n]? = some g)
    (may : Grammatical ((({} : Store).run cs).shape g.shape).isObject
      (g.kinds.reverse ++ [.unique])) {scope : Value} (noText : scope.text? = none)
    (iterable : (({} : Store).run cs).items? scope = some xs) :
    let σ := ({} : Store).run cs
    σ.KeepsScope (.unique (.field n) scope) xs ↔
      ((∀ x ∈ xs, x.isNameText) →
        (∀ ys, scope = .stream ys → xs = []) ∧ ∀ s, .text s ∈ xs → ¬ Name.IsBroken s) ∧
      ∀ x, xs.find? (! ·.isNameText) = some x → Succeeds (σ.display x) := by
  intro σ
  have hw : g.wrapFault? (σ.shape g.shape) .unique = none :=
    (Field.wrapFault?_eq_none_iff_grammatical (formed_run cs n g hf).grammatical).mpr may
  have hc : σ.checkWrap .unique (.field n) = .ok ⟨n, g⟩ :=
    checkWrap_eq_ok.mpr ⟨field?_eq_some_iff.mpr ⟨rfl, hf⟩, hw⟩
  have hs := checkScope_eq noText iterable
  cases first : xs.find? (! ·.isNameText)
  case none =>
    have hn : ∀ x ∈ xs, x.isNameText := by simpa using List.find?_eq_none.mp first
    rw [first] at hs
    rw [keepsScope_iff_of_names hc hs hn]
    exact ⟨fun h => ⟨fun _ => h, nofun⟩, fun h => h.left hn⟩
  case some x =>
    have hx := List.mem_of_find?_eq_some first
    have hn : ¬ x.isNameText := by simpa using List.find?_some first
    rw [first] at hs
    rw [keepsScope_iff_of_find? (allWorded_run cs) hc hs hx hn]
    exact ⟨fun h => ⟨fun all => absurd (all x hx) hn, fun _ e => Option.some.inj e ▸ h⟩,
      fun h => h.right x rfl⟩

-- A text that is unique among those with one id and slug, whatever holds the two names.

def oneText : List Call := [.leaf (.scalar .string) (.bool false)]

def scopeNames : List Value := [.text "id", .text "slug"]

theorem keepsScope_oneText :
    (({} : Store).run oneText).KeepsScope (.unique (.field 0)
      (.dict [(.text "id", .int 1), (.text "slug", .null)])) scopeNames := by
  have plain : ∀ s, .text s ∈ scopeNames → ¬ Name.IsBroken s := by
    intro s hs hb
    have hs : s = "id" ∨ s = "slug" := by simpa [scopeNames] using hs
    have word : IsWord s := by rcases hs with rfl | rfl <;> decide
    exact hb.not_inGrammar (Name.inGrammar_iff.mpr word)
  exact (keepsScope_run_iff oneText (n := 0) rfl
    ⟨[.unique], [], rfl, by decide, by decide, nofun⟩ rfl rfl).mpr
    ⟨fun _ => ⟨nofun, plain⟩, nofun⟩

-- Names that are taken from an iterator are all lost.
theorem not_keepsScope : ¬ ∀ (cs : List Call) (n : FieldId) (g : Field),
    (({} : Store).run cs).fields[n]? = some g →
    Grammatical ((({} : Store).run cs).shape g.shape).isObject (g.kinds.reverse ++ [.unique]) →
    ∀ scope xs, scope.text? = none → (({} : Store).run cs).items? scope = some xs →
      (({} : Store).run cs).KeepsScope (.unique (.field n) scope) xs := by
  intro h
  have keeps : (({} : Store).run oneText).KeepsScope (.unique (.field 0) (.stream scopeNames))
      scopeNames :=
    h oneText 0 _ rfl ⟨[.unique], [], rfl, by decide, by decide, nofun⟩ _ _ rfl rfl
  obtain ⟨names, e, _, has⟩ := keeps.kept (.field 1) _ rfl
  have empty : ((({} : Store).run (oneText ++ [.unique (.field 0) (.stream scopeNames)])).perform
      (.property (.field 1) "scope")).1 = .ok (texts []) := rfl
  have left : names = [] := texts_injective (Except.ok.inj ((has []).scope.symm.trans empty))
  subst left
  exact nomatch e

end Store

end GraphSchema
