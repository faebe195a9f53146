import GraphSchema.Proofs.Definition.Conformance
import GraphSchema.Proofs.Definition.History
import GraphSchema.Proofs.Field.Frame
import GraphSchema.Proofs.Field.Rendering

namespace GraphSchema.Store

open Outcome Declaration

variable {σ σ' : Store} {c : Call} {cs bs : List Call} {n : TypeId} {t : ObjectType} {f : Field}
  {m : FieldId}

-- What has changed the shape of a field.

-- Whether the field is a list and where it can be null does not depend on other objects.
def Steady (σ : Store) (f : Field) : Prop := ∀ v ∈ (σ.outline f.shape).flags, v.isPlain

instance (σ : Store) (f : Field) : Decidable (σ.Steady f) :=
  inferInstanceAs <| Decidable (∀ v ∈ _, _)

-- A call to make a field optional, or a list, changed the shape of the scalar in it.
def Reshaped (σ : Store) (cs : List Call) (f : Field) : Prop :=
  ∃ as c bs v g, cs = as ++ c :: bs ∧ (c = .optional v ∨ c = .list v) ∧
    (σ.run as).field? v = some g ∧ g.val.leaf = f.leaf ∧
    (σ.run (as ++ [c])).outline f.shape ≠ (σ.run as).outline f.shape

theorem Reshaped.cons (h : (σ.perform c).2.Reshaped cs f) :
    σ.Reshaped (c :: cs) f :=
  have ⟨as, d, bs, v, g, e, h⟩ := h
  ⟨c :: as, d, bs, v, g, congrArg _ e, h⟩

theorem asked_of_outline_ne (hσ : σ.Formed) (hr : σ.Rooted) (hf : σ.fields[m]? = some f)
    (s : FieldStep σ c σ') (h : σ'.outline f.shape ≠ σ.outline f.shape) :
    ∃ v g, (c = .optional v ∨ c = .list v) ∧ σ.field? v = some g ∧ g.val.leaf = f.leaf := by
  have hs : f.shape < σ.shapes.size := (hσ m f hf).shape_lt
  cases s
  case still e _ | wrap e _ => exact absurd (by simp only [outline, e]) h
  case shape e _ | leaf e _ => exact absurd (outline_of_push e hs) h
  case optional v g ha hg e _ | list v g ha hg _ _ e _ =>
    rw [outline_of_modify e hs] at h
    split at h
    case isTrue hgs =>
      exact ⟨v, g, by simp [ha], hg, hr.leaf_eq g.id m g.val f (field?_eq_some hg) hf hgs⟩
    case isFalse => exact absurd rfl h

theorem reshaped_of_outline_ne (as : List Call)
    (hf : (({} : Store).run as).fields[m]? = some f)
    (h : ((({} : Store).run as).run bs).outline f.shape ≠ (({} : Store).run as).outline f.shape) :
    (({} : Store).run as).Reshaped bs f := by
  induction bs generalizing as
  case nil => exact absurd rfl h
  case cons c bs hi =>
    have hc := run_concat {} as c
    by_cases ho : (({} : Store).run (as ++ [c])).outline f.shape =
        (({} : Store).run as).outline f.shape
    case pos =>
      refine Reshaped.cons (hc ▸ hi (as ++ [c]) ?_ ?_)
      · exact run_append .. ▸ fields_run [c] hf
      · rw [ho, hc]
        exact h
    case neg =>
      cases hp : (({} : Store).run as).plan c
      case error e => exact absurd (by rw [hc, perform_of_refusal hp]) ho
      case ok p =>
        rw [hc, perform_of_plan hp] at ho
        have ⟨v, g, ha, hg, hl⟩ := asked_of_outline_ne (formed_run as) (rooted_run as) hf
          (step_of_plan hp).fieldStep ho
        refine ⟨[], c, bs, v, g, rfl, ha, hg, hl, ?_⟩
        rwa [List.nil_append, run_cons, perform_of_plan hp]

-- Declarations.

theorem Steady.shapeText_eq (h : σ.Steady f) (ho : σ'.outline f.shape = σ.outline f.shape) :
    σ'.shapeText f = σ.shapeText f :=
  congrArg Shape.text (shape_eq_of_flags (fun _ hr => nomatch h _ hr) ho)

theorem declarationsOf_congr {owner : String} {fs : FieldList}
    (h : ∀ p ∈ fs, σ'.shapeText p.2.val = σ.shapeText p.2.val) :
    σ'.declarationsOf owner fs = σ.declarationsOf owner fs :=
  List.map_congr_left fun p hp => congrArg (Declaration.mk owner p.1) (h p hp)

theorem declarations_congr
    (h : ∀ p ∈ t.sources.flatten, σ'.shapeText p.2.val = σ.shapeText p.2.val) :
    σ'.declarations t t.interfaces = σ.declarations t t.interfaces := by
  have own : ∀ p ∈ t.fields, σ'.shapeText p.2.val = σ.shapeText p.2.val :=
    fun p hp => h p (ObjectType.mem_sources.mpr (.inr hp))
  rw [declarations, declarations, declarationsOf_congr own]
  congr 1
  refine List.flatMap_congr fun i hi => declarationsOf_congr fun p hp => ?_
  exact h p (ObjectType.mem_sources.mpr (.inl ⟨i, hi, hp⟩))

-- What has been checked.

theorem types_run (σ : Store) (cs : List Call) (h : σ.types[n]? = some t) :
    ∃ u, (σ.run cs).types[n]? = some u ∧ u.name = t.name ∧ u.fields = t.fields := by
  refine run_induction (P := fun τ => ∃ u, τ.types[n]? = some u ∧ u.name = t.name ∧
    u.fields = t.fields) cs ⟨t, h, rfl, rfl⟩ ?_
  intro σ c p ⟨u, hu, hn, hf⟩ hp
  have ⟨u', hu', hn', hf'⟩ := (step_of_plan hp).definitionStep.getElem?_types hu
  exact ⟨u', hu', hn'.trans hn, hf'.trans hf⟩

theorem perform_checkFields (h : σ.types[n]? = some t) :
    (σ.perform (.checkFields (.definition (.type n)))).1 =
      (σ.checkFields t).map fun _ => .null := by
  simp only [answer_eq, plan, checkTypeFields, type?, h, Option.map_some]
  cases σ.checkFields t <;> rfl

-- Where the declarations agree, all that can be wrong with a type is that it has no fields.
theorem checkFields_of_agree (h : Agree (σ.declarations t t.interfaces)) :
    σ.checkFields t = .ok () ∨ σ.checkFields t = .error (.misuse (.emptyType t.name)) := by
  rw [checkFields, checkConflicts_eq_ok_iff.mpr h]
  by_cases he : t.fields.isEmpty ∧ t.interfaces.isEmpty
  case pos => exact .inr (if_pos he)
  case neg => exact .inl (if_neg he)

theorem answer_ne_conflict_of_agree (ht : σ.types[n]? = some t)
    (ha : Agree (σ.declarations t t.interfaces)) (x : Conflict) :
    (σ.perform (.checkFields (.definition (.type n)))).1 ≠ .error (.conflict x) := by
  rw [perform_checkFields ht]
  rcases checkFields_of_agree ha with h | h <;> rw [h] <;> exact nofun

-- A type without interfaces declares each of its fields once.
theorem agree_of_nodup (hn : (t.fields.map (·.1)).Nodup) (hi : t.interfaces = []) :
    Agree (σ.declarations t t.interfaces) := by
  rw [hi]
  intro d hd e he h
  have ⟨p, hp, ed⟩ := List.mem_map.mp hd
  have ⟨q, hq, ee⟩ := List.mem_map.mp he
  subst ed ee
  cases List.inj_on_of_nodup_map hn hp hq h
  rfl

-- The type as it was when it got its last interface, in the store right after that.
theorem agree_of_gained {σ : Store} (hg : σ.gained n c ≠ [])
    (ht : (σ.perform c).2.types[n]? = some t)
    (hs : ∀ p ∈ t.sources.flatten, (σ.perform c).2.Steady p.2.val) :
    Agree ((σ.perform c).2.declarations t t.interfaces) ∧ t.interfaces ≠ [] := by
  obtain ⟨w, rfl, p, hp⟩ := eq_implement_of_gained hg
  have ⟨u, i, hv, _, _, ha, e⟩ := implement_eq_ok hp
  obtain ⟨e', hu⟩ := type?_eq_some hv
  cases e'
  -- Giving a type an interface changes no shapes.
  have ho (s : ShapeId) : σ.outline s =
      (σ.perform (.implement (.definition (.type u.id)) w)).2.outline s := by
    rw [perform_of_plan hp, e]
    rfl
  rw [← declarations_congr fun p hp => (hs p hp).shapeText_eq (ho p.2.val.shape)]
  rw [perform_of_plan hp, e] at ht
  simp only [applyAll_cons, applyAll_nil, apply, Array.getElem?_modify, if_true, hu,
    Option.map_some, Option.some.injEq] at ht
  subst ht
  exact ⟨checkConflicts_eq_ok_iff.mp ha, by simp [ObjectType.implement]⟩

-- The type as it is after calls that give it no more interfaces.
theorem exists_type_before {τ : Store} (hi : implemented n τ bs = []) (hn : τ.interfacesOf n ≠ [])
    (ht : (τ.run bs).types[n]? = some t) :
    ∃ u, τ.types[n]? = some u ∧ u.sources = t.sources ∧
      ∀ σ : Store, σ.declarations u u.interfaces = σ.declarations t t.interfaces := by
  cases hu : τ.types[n]?
  case none => exact absurd (interfacesOf_of_none hu) hn
  case some u =>
    have ⟨t', ht', en, ef⟩ := types_run τ bs hu
    cases ht.symm.trans ht'
    have ei : t.interfaces = u.interfaces := by
      rw [← interfacesOf_eq ht, ← interfacesOf_eq hu, interfacesOf_run, hi, List.append_nil]
    exact ⟨u, rfl, by simp [ObjectType.sources, ei, ef],
      fun σ => by simp only [declarations, ei, en, ef]⟩

-- As long as no shape of its fields changes, a type agrees with its interfaces.
theorem agree_of_not_reshaped {as : List Call} (hg : (({} : Store).run as).gained n c ≠ [])
    (hi : implemented n (({} : Store).run (as ++ [c])) bs = [])
    (ht : ((({} : Store).run (as ++ [c])).run bs).types[n]? = some t)
    (hs : ∀ p ∈ t.sources.flatten, ((({} : Store).run (as ++ [c])).run bs).Steady p.2.val)
    (hr : ∀ p ∈ t.sources.flatten, ¬ (({} : Store).run (as ++ [c])).Reshaped bs p.2.val) :
    Agree (((({} : Store).run (as ++ [c])).run bs).declarations t t.interfaces) := by
  have hc := run_concat {} as c
  have hl := linked_run (as ++ [c])
  generalize hτ : ({} : Store).run (as ++ [c]) = τ at *
  have hn : τ.interfacesOf n ≠ [] := by
    rw [hc, interfacesOf_perform]
    exact fun h => hg (List.append_eq_nil_iff.mp h).right
  have ⟨u, hu, es, ed⟩ := exists_type_before hi hn ht
  have still : ∀ p ∈ t.sources.flatten,
      (τ.run bs).outline p.2.val.shape = τ.outline p.2.val.shape := by
    intro p hp
    by_contra ho
    have hf := hl.hasFields_sources hu p (es ▸ hp)
    exact hr p hp (hτ ▸ reshaped_of_outline_ne (as ++ [c]) (hτ ▸ hf) (hτ ▸ ho))
  have steady : ∀ p ∈ t.sources.flatten, τ.Steady p.2.val := by
    intro p hp
    have h := hs p hp
    rwa [Steady, still p hp] at h
  have ha := (agree_of_gained hg (hc ▸ hu) (hc ▸ es ▸ steady)).left
  rw [← hc, ed] at ha
  rwa [declarations_congr fun p hp => (steady p hp).shapeText_eq (still p hp)]

-- Since a type got its last interface, the shape of one of its fields has changed.
def ReshapedSince (cs : List Call) (n : TypeId) (t : ObjectType) : Prop :=
  ∃ as w bs, cs = as ++ .implement (.definition (.type n)) w :: bs ∧
    Succeeds ((({} : Store).run as).plan (.implement (.definition (.type n)) w)) ∧
    implemented n (({} : Store).run (as ++ [.implement (.definition (.type n)) w])) bs = [] ∧
    ∃ p ∈ t.sources.flatten,
      (({} : Store).run (as ++ [.implement (.definition (.type n)) w])).Reshaped bs p.2.val

-- Along every run, the interfaces of a type are those that it was told to implement. There is no
-- conflict before the first of them or right after any of them, and none later unless a call
-- changed the shape of a field since the last one.
theorem conflictFree_run (cs : List Call) (ht : (({} : Store).run cs).types[n]? = some t)
    (steady : ∀ p ∈ t.sources.flatten, (({} : Store).run cs).Steady p.2.val) :
    let σ := ({} : Store).run cs
    let check := Call.checkFields (.definition (.type n))
    t.interfaces = implemented n {} cs ∧ t.interfaceNames.Nodup ∧
      (implemented n {} cs = [] → ∀ x, (σ.perform check).1 ≠ .error (.conflict x)) ∧
      (∀ as w, cs = as ++ [.implement (.definition (.type n)) w] →
        Succeeds ((({} : Store).run as).plan (.implement (.definition (.type n)) w)) →
          (σ.perform check).1 = .ok .null) ∧
      ∀ x, (σ.perform check).1 = .error (.conflict x) → ReshapedSince cs n t := by
  intro σ check
  have hi : t.interfaces = implemented n {} cs := by
    rw [← interfacesOf_eq ht, interfacesOf_run, interfacesOf_of_none (by simp), List.nil_append]
  have before (h : implemented n {} cs = []) : ∀ x, (σ.perform check).1 ≠ .error (.conflict x) :=
    answer_ne_conflict_of_agree ht (agree_of_nodup t.distinct (hi.trans h))
  refine ⟨hi, allDistinct_run cs n t ht, before, ?after, ?since⟩
  case after =>
    rintro as w rfl hw
    have e := run_concat {} as (.implement (.definition (.type n)) w)
    have ⟨ha, hn⟩ := agree_of_gained (gained_of_succeeds hw) (e ▸ ht) (e ▸ steady)
    rw [← e] at ha
    rw [perform_checkFields ht, checkFields_eq_ok_iff.mpr ⟨ha, fun h => absurd h hn⟩]
    rfl
  case since =>
    intro x hx
    have ⟨as, c, bs, e, hg, hb⟩ := exists_last_of_implemented fun h => before h x hx
    obtain ⟨w, rfl, hw⟩ := eq_implement_of_gained hg
    refine ⟨as, w, bs, e, hw, hb, ?_⟩
    by_contra hr
    have er : ({} : Store).run cs =
        (({} : Store).run (as ++ [.implement (.definition (.type n)) w])).run bs := by
      rw [← run_append, List.append_assoc, e, List.singleton_append]
    refine answer_ne_conflict_of_agree ht ?_ x hx
    rw [er] at ht steady ⊢
    exact agree_of_not_reshaped hg hb ht steady fun p hp h => hr ⟨p, hp, h⟩

-- A field with the type that the interface gives it, until it becomes optional.

def loosened : List Call :=
  [.leaf (.scalar .id) (.bool false), .leaf (.scalar .id) (.bool false),
    .interface (.text "Node") (.dict [(.text "id", .field 0)]),
    .type (.text "User") (.dict [(.text "id", .field 1)]),
    .implement (.definition (.type 0)) (.definition (.interface 0)), .optional (.field 1)]

def loose : ObjectType :=
  ⟨"User", [("id", ⟨1, 1, 1, none, []⟩)],
    [⟨0, "Node", [("id", ⟨0, 0, 0, none, []⟩)], by decide⟩], none, by decide⟩

theorem conflictFree_loosened :
    let σ := ({} : Store).run loosened
    loose.interfaces = implemented 0 {} loosened ∧
      (σ.perform (.checkFields (.definition (.type 0)))).1 =
        .error (.conflict ⟨"id", "User", "ID", "Node", "ID!"⟩) ∧
      ReshapedSince loosened 0 loose := by
  intro σ
  have steady : ∀ p ∈ loose.sources.flatten, σ.Steady p.2.val := by decide
  have hx : (σ.perform (.checkFields (.definition (.type 0)))).1 =
      .error (.conflict ⟨"id", "User", "ID", "Node", "ID!"⟩) := rfl
  have ⟨hi, _, _, _, h⟩ := conflictFree_run (n := 0) (t := loose) loosened rfl steady
  exact ⟨hi, hx, h _ hx⟩

end GraphSchema.Store
