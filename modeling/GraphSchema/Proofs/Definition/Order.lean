import Mathlib.Data.List.Induction
import GraphSchema.Proofs.Definition.Conflict
import GraphSchema.Proofs.Definition.Merging

namespace GraphSchema

-- Whether a type is told to implement something.
def Call.isImplement (n : TypeId) : Call → Bool
  | .implement (.object (.definition (.type m))) _ => m == n
  | _ => false

def Call.implementOf (n : TypeId) (i : Numbered Interface) : Call :=
  .implement (.definition (.type n)) (.definition (.interface i.id))

namespace Declaration

theorem Agree.subset {ds es : List Declaration} (h : Agree es) (hs : ds ⊆ es) : Agree ds :=
  fun d hd e he => h d (hs hd) e (hs he)

end Declaration

section Earliest

variable {α β : Type} {ps qs : List (String × α)} {g : α → β}

-- Of fields that agree it does not matter which is first.
theorem map_earliest_perm (h : ps.Perm qs)
    (agree : ∀ p ∈ ps, ∀ q ∈ ps, p.1 = q.1 → g p.2 = g q.2) :
    ((earliest ps).map fun p => (p.1, g p.2)).Perm
      ((earliest qs).map fun p => (p.1, g p.2)) := by
  have nodup (ps : List (String × α)) : ((earliest ps).map fun p => (p.1, g p.2)).Nodup := by
    refine List.Nodup.of_map Prod.fst ?_
    rw [List.map_map, ← firstOfEach_eq_earliest]
    exact nodup_firstOfEach [] ps
  have mem_of_mem {ps qs : List (String × α)} (h : ps.Perm qs)
      (agree : ∀ p ∈ ps, ∀ q ∈ ps, p.1 = q.1 → g p.2 = g q.2) {x : String × β}
      (hx : x ∈ (earliest ps).map fun p => (p.1, g p.2)) :
      x ∈ (earliest qs).map fun p => (p.1, g p.2) := by
    simp only [← firstOfEach_eq_earliest] at hx ⊢
    obtain ⟨p, hp, rfl⟩ := List.mem_map.mp hx
    have hp : p ∈ ps := (mem_of_mem_firstOfEach hp).left
    have hn : p.1 ∈ (firstOfEach [] qs).map (·.1) :=
      mem_names_firstOfEach.mpr (List.mem_map.mpr ⟨p, h.mem_iff.mp hp, rfl⟩)
    have ⟨q, hq, e⟩ := List.mem_map.mp hn
    have hq' : q ∈ ps := h.mem_iff.mpr (mem_of_mem_firstOfEach hq).left
    exact List.mem_map.mpr ⟨q, hq, by rw [e, agree q hq' p hp e]⟩
  refine (List.perm_ext_iff_of_nodup (nodup ps) (nodup qs)).mpr fun x => ?_
  refine ⟨mem_of_mem h agree, mem_of_mem h.symm fun p hp q hq => ?_⟩
  exact agree p (h.mem_iff.mpr hp) q (h.mem_iff.mpr hq)

-- What is declared next is kept in one piece, as far as it is new.
theorem filter_infix_earliest (above rest : List (String × α)) (h : (ps.map (·.1)).Nodup) :
    ps.filter (·.1 ∉ above.map (·.1)) <:+: earliest (above ++ ps ++ rest) := by
  rw [← firstOfEach_eq_earliest, firstOfEach_append, firstOfEach_append,
    firstOfEach_eq_filter _ h, List.append_nil]
  exact ⟨_, _, rfl⟩

end Earliest

namespace ObjectType

-- All that a type would declare with more interfaces.
def declaredWith (t : ObjectType) (is : List (Numbered Interface)) : FieldList :=
  (t.interfaces ++ is).flatMap (·.val.fields) ++ t.fields

variable {t : ObjectType} {is js : List (Numbered Interface)}

theorem declaredWith_perm (t : ObjectType) (h : is.Perm js) :
    (t.declaredWith is).Perm (t.declaredWith js) :=
  ((h.append_left _).flatMap_right _).append_right _

theorem declaredWith_subset (t : ObjectType) (is js : List (Numbered Interface)) :
    t.declaredWith is ⊆ t.declaredWith (is ++ js) := by
  intro p
  simp only [declaredWith, List.flatMap_append, List.mem_append]
  exact fun h => h.imp_left (·.imp_right .inl)

theorem filter_infix_declaredWith (t : ObjectType) (before after : List (Numbered Interface))
    {i : Numbered Interface} (h : (i.val.fields.map (·.1)).Nodup) :
    i.val.fields.filter
        (·.1 ∉ ((t.interfaces ++ before).flatMap (·.val.fields)).map (·.1)) <:+:
      earliest (t.declaredWith (before ++ i :: after)) := by
  have parts : t.declaredWith (before ++ i :: after) =
      (t.interfaces ++ before).flatMap (·.val.fields) ++ i.val.fields ++
        (after.flatMap (·.val.fields) ++ t.fields) := by
    simp [declaredWith, List.append_assoc]
  rw [parts]
  exact filter_infix_earliest _ _ h

def implementAll (t : ObjectType) (is : List (Numbered Interface)) : ObjectType :=
  { t with interfaces := t.interfaces ++ is }

theorem flatten_sources_implementAll (t : ObjectType) (is : List (Numbered Interface)) :
    (t.implementAll is).sources.flatten = t.declaredWith is := flatten_sources _

end ObjectType

namespace Store

open Outcome Declaration

variable {σ : Store} {n : TypeId} {t : ObjectType} {is js : List (Numbered Interface)}
  {i : Numbered Interface} {cs ds es : List Call} {c : Call}

-- The type takes every interface that it is told to implement.
def TakesAll (σ : Store) (n : TypeId) : List Call → Prop
  | [] => True
  | c :: cs => (c.isImplement n → Succeeds (σ.plan c)) ∧ TakesAll (σ.perform c).2 n cs

instance decidableTakesAll (n : TypeId) : (σ : Store) → (cs : List Call) →
    Decidable (σ.TakesAll n cs)
  | _, [] => .isTrue trivial
  | σ, c :: cs =>
    have := decidableTakesAll n (σ.perform c).2 cs
    inferInstanceAs <|
      Decidable ((c.isImplement n → Succeeds (σ.plan c)) ∧ TakesAll (σ.perform c).2 n cs)

-- At no time does a shape read differently.
def ShapesKept (σ : Store) (cs : List Call) : Prop :=
  ∀ k ≤ cs.length, ∀ s < σ.shapes.size,
    ((σ.run (cs.take k)).shape s).text = (σ.shape s).text

instance (σ : Store) (cs : List Call) : Decidable (σ.ShapesKept cs) :=
  inferInstanceAs <| Decidable (∀ k ≤ _, ∀ s < _, _)

-- The calls let a type implement the interfaces in the given order. Whatever else they do, they
-- change no shapes.
structure Implementing (σ : Store) (n : TypeId) (is : List (Numbered Interface))
    (cs : List Call) : Prop where
  asked : cs.filter (·.isImplement n) = is.map (.implementOf n)
  kept : σ.ShapesKept cs

theorem takesAll_concat (ds : List Call) (c : Call) :
    σ.TakesAll n (ds ++ [c]) ↔
      σ.TakesAll n ds ∧ (c.isImplement n → Succeeds ((σ.run ds).plan c)) := by
  induction ds generalizing σ
  case nil => simp [TakesAll]
  case cons d ds hi => rw [List.cons_append, TakesAll, TakesAll, hi, run_cons, and_assoc]

theorem ShapesKept.of_concat (h : σ.ShapesKept (ds ++ [c])) : σ.ShapesKept ds := by
  intro k hk s hs
  have e := h k (by simp; omega) s hs
  rwa [List.take_append_of_le_length hk] at e

theorem ShapesKept.text_eq (h : σ.ShapesKept ds) {f : Field} (hf : f.shape < σ.shapes.size) :
    (σ.run ds).shapeText f = σ.shapeText f := by
  have e := h ds.length (Nat.le_refl _) f.shape hf
  rwa [List.take_length] at e

-- What has to hold for a type to take interfaces, whatever their order.

structure Fits (σ : Store) (t : ObjectType) (is : List (Numbered Interface)) : Prop where
  distinct : ((t.interfaces ++ is).map (·.val.name)).Nodup
  agree : is ≠ [] → Agree (σ.declarations t (t.interfaces ++ is))

theorem declarations_perm (σ : Store) (t : ObjectType) (h : is.Perm js) :
    (σ.declarations t (t.interfaces ++ is)).Perm (σ.declarations t (t.interfaces ++ js)) :=
  ((h.append_left _).flatMap_right _).append_right _

theorem fits_of_perm (h : is.Perm js) (hf : σ.Fits t is) : σ.Fits t js where
  distinct := ((h.append_left _).map _).nodup_iff.mp hf.distinct
  agree hn := by
    have hi : is ≠ [] := fun e => hn (List.perm_nil.mp (e ▸ h.symm))
    exact (agree_of_perm (declarations_perm σ t h)).mp (hf.agree hi)

theorem fits_concat :
    σ.Fits t (is ++ [i]) ↔ σ.Fits t is ∧ i.val.name ∉ (t.interfaces ++ is).map (·.val.name) ∧
      Agree (σ.declarations t (t.interfaces ++ is ++ [i])) := by
  have less : σ.declarations t (t.interfaces ++ is) ⊆
      σ.declarations t (t.interfaces ++ is ++ [i]) := by
    intro d hd
    simp only [declarations, List.flatMap_append, List.mem_append] at hd ⊢
    exact hd.imp_left .inl
  constructor
  · rintro ⟨hd, ha⟩
    rw [← List.append_assoc] at hd ha
    rw [List.map_append, List.nodup_append_comm] at hd
    obtain ⟨hn, hd⟩ := List.nodup_cons.mp hd
    have ha := ha (by simp)
    exact ⟨⟨hd, fun _ => ha.subset less⟩, hn, ha⟩
  · rintro ⟨⟨hd, _⟩, hn, ha⟩
    constructor
    · rw [← List.append_assoc, List.map_append, List.nodup_append_comm]
      exact List.nodup_cons.mpr ⟨hn, hd⟩
    · exact fun _ => List.append_assoc .. ▸ ha

-- One call.

theorem interfaces_run {m : InterfaceId} {i : Interface} (cs : List Call)
    (h : σ.interfaces[m]? = some i) : (σ.run cs).interfaces[m]? = some i :=
  run_induction (P := fun τ => τ.interfaces[m]? = some i) cs h fun _ _ _ h hp =>
    (step_of_plan hp).definitionStep.getElem?_interfaces h

theorem succeeds_implement_iff (ht : σ.types[n]? = some t)
    (hi : σ.interfaces[i.id]? = some i.val) :
    Succeeds (σ.plan (.implementOf n i)) ↔
      i.val.name ∉ t.interfaceNames ∧ Agree (σ.declarations t (t.interfaces ++ [i])) := by
  have hi : σ.interface? (.definition (.interface i.id)) = some i := by simp [interface?, hi]
  have ht : σ.type? (.definition (.type n)) = some ⟨n, t⟩ := by simp [type?, ht]
  have e : σ.plan (.implementOf n i) =
      σ.implement (.definition (.type n)) (.definition (.interface i.id)) := rfl
  rw [← checkConflicts_eq_ok_iff, e]
  by_cases hn : i.val.name ∈ t.interfaceNames
  case pos => simp [implement, ht, hi, hn, Misuse.refusal]
  case neg =>
    simp only [implement, ht, hi, if_neg hn]
    rw [succeeds_bind_pure, succeeds_unit, and_iff_right hn]

theorem gained_implementOf (hi : σ.interfaces[i.id]? = some i.val)
    (h : Succeeds (σ.plan (.implementOf n i))) : σ.gained n (.implementOf n i) = [i] := by
  have ⟨p, hp⟩ := h
  have hi : σ.interface? (.definition (.interface i.id)) = some i := by simp [interface?, hi]
  rw [Call.implementOf] at hp ⊢
  simp [gained, hp, hi]

theorem gained_of_not_isImplement (h : ¬ c.isImplement n) : σ.gained n c = [] := by
  by_contra hg
  obtain ⟨w, rfl, _⟩ := eq_implement_of_gained hg
  exact h (by simp [Call.isImplement])

theorem ShapesKept.declarations_eq {u : ObjectType} (h : σ.ShapesKept ds)
    (below : ∀ p ∈ t.declaredWith is, p.2.val.shape < σ.shapes.size)
    (name : u.name = t.name) (fields : u.fields = t.fields) :
    (σ.run ds).declarations u (t.interfaces ++ is) = σ.declarations t (t.interfaces ++ is) := by
  rw [declarations, declarations, name, fields]
  refine declarations_congr (t := t.implementAll is) fun p hp => h.text_eq (below p ?_)
  rwa [ObjectType.flatten_sources_implementAll] at hp

-- A run of calls that lets the type implement the interfaces. What is checked each time is what the
-- type declares with the interfaces up to that one, as it was in the beginning.
theorem takesAll_iff_fits (ht : σ.types[n]? = some t) (distinct : t.interfaceNames.Nodup)
    (made : ∀ i ∈ is, σ.interfaces[i.id]? = some i.val)
    (below : ∀ p ∈ t.declaredWith is, p.2.val.shape < σ.shapes.size)
    (h : σ.Implementing n is ds) :
    (σ.TakesAll n ds ↔ σ.Fits t is) ∧
      (σ.TakesAll n ds → (σ.run ds).interfacesOf n = t.interfaces ++ is) := by
  induction ds using List.reverseRecOn generalizing is
  case nil =>
    obtain rfl : is = [] := List.map_eq_nil_iff.mp h.asked.symm
    have fits : σ.Fits t [] := ⟨by simpa [ObjectType.interfaceNames] using distinct, by simp⟩
    exact ⟨⟨fun _ => fits, fun _ => trivial⟩, fun _ => by simp [interfacesOf_eq ht]⟩
  case append_singleton ds c hi =>
    have asked := h.asked
    have kept := h.kept.of_concat
    rw [takesAll_concat, run_concat, interfacesOf_perform]
    rw [List.filter_append] at asked
    by_cases hc : c.isImplement n
    case neg =>
      obtain ⟨hf, hn⟩ := hi made below ⟨by simpa [hc] using asked, kept⟩
      rw [gained_of_not_isImplement hc, List.append_nil]
      exact ⟨⟨fun h => hf.mp h.left, fun h => ⟨hf.mpr h, fun h => absurd h hc⟩⟩,
        fun h => hn h.left⟩
    case pos =>
      rw [List.filter_singleton, hc, cond_true] at asked
      obtain ⟨is', js, rfl, before, last⟩ := List.append_eq_map_iff.mp asked
      obtain ⟨i, rfl, rfl⟩ := List.map_eq_singleton_iff.mp last
      have made' : ∀ j ∈ is', σ.interfaces[j.id]? = some j.val :=
        fun j hj => made j (List.mem_append_left [i] hj)
      have below' : ∀ p ∈ t.declaredWith is', p.2.val.shape < σ.shapes.size :=
        fun p hp => below p (t.declaredWith_subset is' [i] hp)
      obtain ⟨hf, hn⟩ := hi made' below' ⟨before.symm, kept⟩
      have mi := interfaces_run ds (made i (by simp))
      obtain ⟨u, hu, name, fields⟩ := types_run σ ds ht
      rw [fits_concat, ← hf]
      refine ⟨and_congr_right fun h => ?_, ?_⟩
      · -- The type has got all the interfaces before this one.
        have interfaces : u.interfaces = t.interfaces ++ is' :=
          (interfacesOf_eq hu).symm.trans (hn h)
        rw [forall_prop_of_true hc, succeeds_implement_iff hu mi, ObjectType.interfaceNames,
          interfaces, List.append_assoc, kept.declarations_eq below name fields]
      · rintro ⟨h, hs⟩
        rw [hn h, gained_implementOf mi (hs hc), List.append_assoc]

-- The merged fields.

-- Each name with the type that the field has now.
def typed (σ : Store) (fs : FieldList) : List (String × String) :=
  fs.map fun p => (p.1, σ.shapeText p.2.val)

theorem ShapesKept.typed_eq (h : σ.ShapesKept ds) {fs : FieldList}
    (below : ∀ p ∈ fs, p.2.val.shape < σ.shapes.size) : (σ.run ds).typed fs = σ.typed fs :=
  List.map_congr_left fun p hp => congrArg (Prod.mk p.1) (h.text_eq (below p hp))

theorem ShapesKept.typed_merged_eq (h : σ.ShapesKept ds)
    (below : ∀ p ∈ t.declaredWith is, p.2.val.shape < σ.shapes.size) :
    (σ.run ds).typed (earliest (t.declaredWith is)) = σ.typed (earliest (t.declaredWith is)) := by
  refine h.typed_eq fun p hp => below p ?_
  rw [← firstOfEach_eq_earliest] at hp
  exact (mem_of_mem_firstOfEach hp).left

theorem typed_merged_perm (h : σ.Fits t is) (perm : is.Perm js) :
    (σ.typed (earliest (t.declaredWith is))).Perm (σ.typed (earliest (t.declaredWith js))) := by
  by_cases hn : is = []
  case pos =>
    subst hn
    rw [List.nil_perm.mp perm]
  case neg =>
    refine map_earliest_perm (g := fun f => σ.shapeText f.val) (t.declaredWith_perm perm) ?_
    rw [← ObjectType.flatten_sources_implementAll]
    exact fun p hp q hq => shapeText_eq_of_agree (h.agree hn) hp hq

theorem perform_mergeFields_of_interfacesOf (cs : List Call) (ht : σ.types[n]? = some t)
    (hi : (σ.run cs).interfacesOf n = t.interfaces ++ is) :
    ((σ.run cs).perform (.mergeFields (.definition (.type n)))).1 =
      .ok (pairs (earliest (t.declaredWith is))) := by
  have ⟨u, hu, _, fields⟩ := types_run σ cs ht
  rw [perform_mergeFields_type hu, ← interfacesOf_eq hu, hi, fields]
  rfl

theorem shape_lt_of_made {cs : List Call} (ht : (({} : Store).run cs).types[n]? = some t)
    (made : ∀ i ∈ is, (({} : Store).run cs).interfaces[i.id]? = some i.val) :
    ∀ p ∈ t.declaredWith is, p.2.val.shape < (({} : Store).run cs).shapes.size := by
  intro p hp
  have hl := linked_run cs
  suffices h : (({} : Store).run cs).fields[p.2.id]? = some p.2.val from
    (formed_run cs p.2.id p.2.val h).shape_lt
  rw [← ObjectType.flatten_sources_implementAll] at hp
  rcases ObjectType.mem_sources.mp hp with ⟨i, hi, hp⟩ | hp
  · rcases List.mem_append.mp hi with hi | hi
    · exact (hl.interfaces i.id i.val ((hl.types n t ht).right i hi)).right p hp
    · exact (hl.interfaces i.id i.val (made i hi)).right p hp
  · exact (hl.types n t ht).left p hp

-- Along every run, and whatever is called in between that changes no shapes: a type takes given
-- interfaces in one order exactly if it takes them in another. It has the same fields of the same
-- types then, and those of each interface that are new with it as they are declared there.
theorem implement_order_run (cs : List Call)
    (ht : (({} : Store).run cs).types[n]? = some t)
    (made : ∀ i ∈ is, (({} : Store).run cs).interfaces[i.id]? = some i.val) (perm : is.Perm js)
    (hd : (({} : Store).run cs).Implementing n is ds)
    (he : (({} : Store).run cs).Implementing n js es) :
    let σ := ({} : Store).run cs
    let merged (ks : List (Numbered Interface)) := earliest (t.declaredWith ks)
    let mergeFields := Call.mergeFields (.definition (.type n))
    (σ.TakesAll n ds ↔ σ.TakesAll n es) ∧
      (σ.TakesAll n ds →
        ((σ.run ds).perform mergeFields).1 = .ok (pairs (merged is)) ∧
        ((σ.run es).perform mergeFields).1 = .ok (pairs (merged js)) ∧
        ((σ.run ds).typed (merged is)).Perm ((σ.run es).typed (merged js))) ∧
      ∀ ks before i after, ks.Perm is → ks = before ++ i :: after →
        i.val.fields.filter
          (·.1 ∉ ((t.interfaces ++ before).flatMap (·.val.fields)).map (·.1)) <:+: merged ks := by
  intro σ merged mergeFields
  have distinct := allDistinct_run cs n t ht
  have made' : ∀ j ∈ js, σ.interfaces[j.id]? = some j.val :=
    fun j hj => made j (perm.mem_iff.mpr hj)
  have below := shape_lt_of_made ht made
  have below' := shape_lt_of_made ht made'
  have ⟨fits, taken⟩ := takesAll_iff_fits ht distinct made below hd
  have ⟨fits', taken'⟩ := takesAll_iff_fits ht distinct made' below' he
  have same : σ.TakesAll n ds ↔ σ.TakesAll n es :=
    fits.trans (Iff.trans ⟨fits_of_perm perm, fits_of_perm perm.symm⟩ fits'.symm)
  refine ⟨same, fun h => ⟨?first, ?second, ?types⟩, ?order⟩
  case first => exact perform_mergeFields_of_interfacesOf ds ht (taken h)
  case second => exact perform_mergeFields_of_interfacesOf es ht (taken' (same.mp h))
  case types =>
    rw [hd.kept.typed_merged_eq below, he.kept.typed_merged_eq below']
    exact typed_merged_perm (fits.mp h) perm
  case order =>
    rintro ks before i after hk rfl
    have hi : i ∈ is := hk.mem_iff.mp (List.mem_append_right before List.mem_cons_self)
    exact t.filter_infix_declaredWith before after i.val.distinct

-- The name of a page comes from either interface, and something else is made in between.

def node : Numbered Interface := 
  ⟨0, "Node", [("id", plainField 0), ("name", plainField 1)], by decide⟩

def titledNamed : Numbered Interface :=
  ⟨1, "Titled", [("title", plainField 1), ("name", plainField 3), ("slug", plainField 3)],
    by decide⟩

def page : ObjectType :=
  ⟨"Page", [("slug", plainField 1), ("id", plainField 2), ("body", plainField 3)], [], none,
    by decide⟩

def nodeFirst : List Call :=
  [.implementOf 0 node, .leaf (.scalar .id) (.bool true), .implementOf 0 titledNamed]

def titledFirst : List Call := [.implementOf 0 titledNamed, .implementOf 0 node]

theorem implement_order_declaring :
    let σ := ({} : Store).run declaring
    let mergeFields := Call.mergeFields (.definition (.type 0))
    σ.TakesAll 0 titledFirst ∧
      ((σ.run nodeFirst).perform mergeFields).1 = .ok (pairs [("id", plainField 0),
        ("name", plainField 1), ("title", plainField 1), ("slug", plainField 3),
        ("body", plainField 3)]) ∧
      ((σ.run titledFirst).perform mergeFields).1 = .ok (pairs [("title", plainField 1),
        ("name", plainField 3), ("slug", plainField 3), ("id", plainField 0),
        ("body", plainField 3)]) := by
  intro σ mergeFields
  have made : ∀ i ∈ [node, titledNamed], σ.interfaces[i.id]? = some i.val := by
    simpa using ⟨rfl, rfl⟩
  have hd : σ.Implementing 0 [node, titledNamed] nodeFirst := ⟨rfl, by decide⟩
  have he : σ.Implementing 0 [titledNamed, node] titledFirst := ⟨rfl, by decide⟩
  have taken : σ.TakesAll 0 nodeFirst := by decide
  have ⟨same, fields, _⟩ := implement_order_run (n := 0) (t := page) declaring rfl made
    (.swap titledNamed node []) hd he
  have ⟨first, second, _⟩ := fields taken
  exact ⟨same.mp taken, first, second⟩

end Store

end GraphSchema
