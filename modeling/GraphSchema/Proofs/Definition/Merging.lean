import GraphSchema.Proofs.Definition.Conformance
import GraphSchema.Proofs.Definition.History

namespace GraphSchema

section Earliest

variable {α : Type} {above own gained : List (String × α)}

-- What has a name that occurs at no earlier place.
def earliest (ps : List (String × α)) : List (String × α) :=
  (ps.zipIdx.filter fun (p, k) => p.1 ∉ (ps.take k).map (·.1)).map (·.1)

-- The names seen so far are those of the places before.
theorem firstOfEach_eq_filter_zipIdx (before ps : List (String × α)) :
    firstOfEach (before.map (·.1)) ps =
      ((ps.zipIdx before.length).filter fun (p, k) =>
        p.1 ∉ ((before ++ ps).take k).map (·.1)).map (·.1) := by
  induction ps generalizing before
  case nil => rfl
  case cons p ps hi =>
    have e : firstOfEach (p.1 :: before.map (·.1)) ps =
        firstOfEach ((before ++ [p]).map (·.1)) ps :=
      firstOfEach_congr fun n => by simp [or_comm]
    have here : (before ++ p :: ps).take before.length = before := List.take_left
    rw [firstOfEach_cons, e, hi, List.zipIdx_cons, List.filter_cons]
    by_cases hp : p.1 ∈ before.map (·.1) <;> simp only [here, hp] <;> simp

theorem firstOfEach_eq_earliest (ps : List (String × α)) : firstOfEach [] ps = earliest ps :=
  firstOfEach_eq_filter_zipIdx [] ps

theorem merge_eq_earliest (sources : List (List (String × α))) :
    merge sources = earliest sources.flatten := firstOfEach_eq_earliest _

theorem earliest_append (above : List (String × α)) (h : (own.map (·.1)).Nodup) :
    earliest (above ++ own) = earliest above ++ own.filter (·.1 ∉ above.map (·.1)) := by
  simp only [← firstOfEach_eq_earliest]
  rw [firstOfEach_append, List.append_nil, firstOfEach_eq_filter _ h]

-- What comes in between is cut down by what is above it, and cuts down what is below it.
theorem earliest_append_append (above : List (String × α)) (hg : (gained.map (·.1)).Nodup)
    (ho : (own.map (·.1)).Nodup) :
    earliest (above ++ gained ++ own) =
      earliest above ++ gained.filter (·.1 ∉ (earliest above).map (·.1)) ++
        (own.filter (·.1 ∉ above.map (·.1))).filter (·.1 ∉ gained.map (·.1)) := by
  have e : gained.filter (·.1 ∉ (earliest above).map (·.1)) =
      gained.filter (·.1 ∉ above.map (·.1)) := by
    simp only [← firstOfEach_eq_earliest, mem_names_firstOfEach]
  rw [earliest_append _ ho, earliest_append _ hg, e, List.filter_filter]
  congr 1
  refine List.filter_congr fun p _ => ?_
  simp only [List.map_append, List.mem_append, not_or, Bool.decide_and, Bool.and_comm]

end Earliest

namespace Store

open Outcome

variable {σ σ' : Store} {c : Call} {n : TypeId} {t : ObjectType}

-- Names with the fields themselves.
def pairs (fs : FieldList) : Value := .list (fs.map fun (n, f) => .list [.text n, .field f.id])

theorem perform_mergeFields_interface {n : InterfaceId} {i : Interface}
    (h : σ.interfaces[n]? = some i) :
    σ.perform (.mergeFields (.definition (.interface n))) =
      (.ok (pairs (earliest i.fields)), σ) := by
  refine perform_of_plan (p := .say _) ?_
  simp only [plan, mergeFields, merged?, interface?, h, Option.map_some, merge_eq_earliest,
    List.flatten_singleton]
  rfl

theorem perform_mergeFields_type (h : σ.types[n]? = some t) :
    σ.perform (.mergeFields (.definition (.type n))) =
      (.ok (pairs (earliest (t.interfaces.flatMap (·.val.fields) ++ t.fields))), σ) := by
  refine perform_of_plan (p := .say _) ?_
  simp only [plan, mergeFields, merged?, interface?, type?, h, Option.map_some, merge_eq_earliest,
    ObjectType.flatten_sources]
  rfl

theorem types_perform_implement {w : Value} {j : Numbered Interface} (ht : σ.types[n]? = some t)
    (hj : σ.interface? w = some j)
    (h : Succeeds (σ.plan (.implement (.definition (.type n)) w))) :
    (σ.perform (.implement (.definition (.type n)) w)).2.types[n]? = some (t.implement j) := by
  have ⟨p, hp⟩ := h
  have ⟨u, i, hu, hi, _, _, e⟩ := implement_eq_ok hp
  cases hj.symm.trans hi
  obtain ⟨hn, _⟩ := type?_eq_some hu
  cases hn
  simp [perform_of_plan hp, e, apply, Array.getElem?_modify, ht]

-- What the interfaces of a definition declare in the order in which it was told to implement them,
-- and what it declares itself. An interface has no interfaces.
inductive Declares (cs : List Call) : Definition → FieldList → FieldList → Prop
  | interface {n : InterfaceId} {i : Interface}
      (made : (({} : Store).run cs).interfaces[n]? = some i) :
      Declares cs (.interface n) [] i.fields
  | type {n : TypeId} {t : ObjectType} (made : (({} : Store).run cs).types[n]? = some t) :
      Declares cs (.type n) ((implemented n {} cs).flatMap (·.val.fields)) t.fields

namespace Declares

variable {cs : List Call} {d : Definition} {above own : FieldList}

theorem perform_mergeFields (h : Declares cs d above own) :
    (({} : Store).run cs).perform (.mergeFields (.definition d)) =
      (.ok (pairs (earliest (above ++ own))), ({} : Store).run cs) := by
  cases h
  case interface hi => exact perform_mergeFields_interface hi
  case type ht =>
    have e := perform_mergeFields_type ht
    rwa [interfaces_eq_implemented ht] at e

theorem hasFields (h : Declares cs d above own) :
    (({} : Store).run cs).HasFields (above ++ own) := by
  have hl := linked_run cs
  cases h
  case interface hi => exact (hl.interfaces _ _ hi).right
  case type t ht =>
    rw [← interfaces_eq_implemented ht, ← ObjectType.flatten_sources]
    exact hl.hasFields_sources ht

theorem nodup_own (h : Declares cs d above own) : (own.map (·.1)).Nodup := by
  cases h
  case interface i _ => exact i.distinct
  case type t _ => exact t.distinct

-- Only a type takes an interface, and then declares what that has behind all that it inherited.
theorem implement {w : Value} {j : Numbered Interface} (h : Declares cs d above own)
    (hj : (({} : Store).run cs).interface? w = some j)
    (hs : Succeeds ((({} : Store).run cs).plan (.implement (.definition d) w))) :
    Declares (cs ++ [.implement (.definition d) w]) d (above ++ j.val.fields) own := by
  cases h
  case interface n i _ =>
    have ⟨p, hp⟩ := hs
    have hp : (({} : Store).run cs).implement (.definition (.interface n)) w = .ok p := hp
    have ⟨_, _, ht, _⟩ := implement_eq_ok hp
    exact nomatch ht
  case type n t ht =>
    have ht' := types_perform_implement ht hj hs
    rw [← run_concat] at ht'
    have e : implemented n {} (cs ++ [.implement (.definition (.type n)) w]) =
        implemented n {} cs ++ [j] := by
      rw [← interfaces_eq_implemented ht', ← interfaces_eq_implemented ht]
      rfl
    simpa [e, ObjectType.implement] using Declares.type ht'

end Declares

-- Along every run, the merged fields of a definition are the first of each name that its interfaces
-- and it declare, all of them objects that are there. They begin with what is inherited, and
-- another interface of a type adds what is new in it right behind that.
theorem mergeFields_run (cs : List Call) {d : Definition} {above own : FieldList}
    (declares : Declares cs d above own) :
    let σ := ({} : Store).run cs
    let merged := earliest (above ++ own)
    let inherited := earliest above
    let added := own.filter (·.1 ∉ above.map (·.1))
    σ.perform (.mergeFields (.definition d)) = (.ok (pairs merged), σ) ∧
      (merged.map (·.1)).Nodup ∧ merged.Sublist (above ++ own) ∧
      (∀ n, n ∈ merged.map (·.1) ↔ n ∈ (above ++ own).map (·.1)) ∧
      (∀ n, merged.find? (·.1 == n) = (above ++ own).find? (·.1 == n)) ∧
      (∀ p ∈ merged, σ.fields[p.2.id]? = some p.2.val) ∧
      merged = inherited ++ added ∧
      ∀ w j a τ, σ.interface? w = some j → σ.perform (.implement (.definition d) w) = (.ok a, τ) →
        (τ.perform (.mergeFields (.definition d))).1 = .ok (pairs
          (inherited ++ j.val.fields.filter (·.1 ∉ inherited.map (·.1)) ++
            added.filter (·.1 ∉ j.val.fields.map (·.1)))) := by
  intro σ merged inherited added
  have hm : firstOfEach [] (above ++ own) = merged := firstOfEach_eq_earliest _
  have sub : merged.Sublist (above ++ own) := hm ▸ firstOfEach_sublist [] _
  have own_nodup := declares.nodup_own
  refine ⟨declares.perform_mergeFields, hm ▸ nodup_firstOfEach [] _, sub,
    fun n => hm ▸ mem_names_firstOfEach, fun n => hm ▸ find?_firstOfEach _ n,
    fun p hp => declares.hasFields p (sub.subset hp), earliest_append above own_nodup, ?_⟩
  intro w j a τ hj he
  have answered := σ.answer_eq (.implement (.definition d) w)
  rw [he] at answered
  have ⟨p, hp, _⟩ := map_eq_ok.mp answered.symm
  have after := (declares.implement hj ⟨p, hp⟩).perform_mergeFields
  rw [run_concat, he, earliest_append_append above j.val.distinct own_nodup] at after
  exact congrArg Prod.fst after

-- A page declares some of what its interfaces declare again.

def declaring : List Call :=
  [.leaf (.scalar .id) (.bool false), .leaf (.scalar .string) (.bool false),
    .leaf (.scalar .id) (.bool false), .leaf (.scalar .string) (.bool false),
    .interface (.text "Node") (.dict [(.text "id", .field 0), (.text "name", .field 1)]),
    .interface (.text "Titled")
      (.dict [(.text "title", .field 1), (.text "name", .field 3), (.text "slug", .field 3)]),
    .type (.text "Page")
      (.dict [(.text "slug", .field 1), (.text "id", .field 2), (.text "body", .field 3)])]

def overlapping : List Call :=
  declaring ++ [.implement (.definition (.type 0)) (.definition (.interface 0))]

def plainField (n : FieldId) : Numbered Field := ⟨n, n, n, none, []⟩

theorem mergeFields_overlapping :
    let σ := ({} : Store).run overlapping
    let page := Value.definition (.type 0)
    (σ.perform (.mergeFields page)).1 = .ok (pairs [("id", plainField 0), ("name", plainField 1),
        ("slug", plainField 1), ("body", plainField 3)]) ∧
      ((σ.perform (.implement page (.definition (.interface 1)))).2.perform (.mergeFields page)).1 =
        .ok (pairs [("id", plainField 0), ("name", plainField 1), ("title", plainField 1),
          ("slug", plainField 3), ("body", plainField 3)]) := by
  intro σ page
  have ⟨now, _, _, _, _, _, _, after⟩ :=
    mergeFields_run overlapping (Declares.type (n := 0) rfl)
  exact ⟨congrArg Prod.fst now, after (.definition (.interface 1)) _ _ _ rfl rfl⟩

end Store

end GraphSchema
