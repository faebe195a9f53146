import GraphSchema.Proofs.Definition.Conformance
import GraphSchema.Proofs.Definition.History
import GraphSchema.Proofs.Field.Sharing

namespace GraphSchema

namespace Declaration

def firstOf (ds : List Declaration) (field : String) : Option Declaration :=
  ds.find? (·.field == field)

-- The first declaration of the name has another type.
structure Differs (ds : List Declaration) (first d : Declaration) : Prop where
  first_of : firstOf ds d.field = some first
  type_ne : first.type ≠ d.type

def EarliestDiffering (ds : List Declaration) (first d : Declaration) : Prop :=
  ∃ before after, ds = before ++ d :: after ∧ Differs ds first d ∧
    ∀ a ∈ before, ∀ f, ¬ Differs ds f a

variable {known seen ds : List Declaration} {d e first first' : Declaration} {n : String}
  {c : Conflict}

-- Declarations behind the first one of a name do not count.

theorem firstOf_append (seen ds : List Declaration) (n : String) :
    firstOf (seen ++ ds) n = (firstOf seen n).or (firstOf ds n) := List.find?_append

theorem firstOf_append_of_mem (h : d ∈ seen) (ds : List Declaration) :
    firstOf (seen ++ ds) d.field = firstOf seen d.field := by
  have hs : (firstOf seen d.field).isSome := List.find?_isSome.mpr ⟨d, h, beq_self_eq_true _⟩
  rw [firstOf_append, Option.or_of_isSome hs]

theorem differs_append_iff (h : d ∈ seen) :
    Differs (seen ++ ds) first d ↔ Differs seen first d := by
  have e := firstOf_append_of_mem h ds
  exact ⟨fun ⟨hf, hn⟩ => ⟨e ▸ hf, hn⟩, fun ⟨hf, hn⟩ => ⟨e.trans hf, hn⟩⟩

theorem not_differs_of_firstOf (hf : firstOf ds d.field = some first) (ht : first.type = d.type)
    (f : Declaration) : ¬ Differs ds f d := fun h =>
  h.type_ne (Option.some.inj (hf.symm.trans h.first_of) ▸ ht)

namespace EarliestDiffering

theorem not_agree (h : EarliestDiffering ds first d) : ¬ Agree ds := by
  have ⟨before, after, e, hd, _⟩ := h
  intro ha
  have hf : first ∈ ds := List.mem_of_find?_eq_some hd.first_of
  have hm : d ∈ ds := e ▸ List.mem_append_right before List.mem_cons_self
  exact hd.type_ne (ha first hf d hm (by simpa using List.find?_some hd.first_of))

theorem unique (h : EarliestDiffering ds first d) (h' : EarliestDiffering ds first' e) :
    first = first' ∧ d = e := by
  have ⟨as, bs, ea, hd, ha⟩ := h
  have ⟨as', bs', ea', hd', ha'⟩ := h'
  have hde : d = e := by
    rcases List.append_eq_append_iff.mp (ea.symm.trans ea') with ⟨cs, hc, hs⟩ | ⟨cs, hc, hs⟩
    all_goals cases cs <;> simp only [List.nil_append, List.cons_append, List.cons.injEq] at hs
    case inl.nil => exact hs.left
    case inl.cons => exact absurd hd (ha' d (by simp [hc, hs.left]) first)
    case inr.nil => exact hs.left.symm
    case inr.cons => exact absurd hd' (ha e (by simp [hc, hs.left]) first')
  refine ⟨?_, hde⟩
  have hf := hd.first_of
  rw [hde, hd'.first_of] at hf
  exact (Option.some.inj hf).symm

end EarliestDiffering

-- Of the declarations seen so far none stands out, and the known ones are the first of their names.
theorem earliestDiffering_of_conflict? (hk : ∀ n, firstOf known n = firstOf seen n)
    (hs : ∀ a ∈ seen, ∀ f, ¬ Differs seen f a) (h : conflict? known ds = some c) :
    ∃ first d, EarliestDiffering (seen ++ ds) first d ∧ c = d.conflictWith first := by
  induction ds generalizing known seen
  case nil => exact nomatch h
  case cons d ds hi =>
    have seen_of {f : Declaration} (hf : firstOf (seen ++ [d]) d.field = some f)
        (ht : f.type = d.type) : ∀ a ∈ seen ++ [d], ∀ f, ¬ Differs (seen ++ [d]) f a := by
      intro a ha g
      rcases List.mem_append.mp ha with ha | ha
      · exact fun hg => hs a ha g ((differs_append_iff ha).mp hg)
      · obtain rfl := List.mem_singleton.mp ha
        exact not_differs_of_firstOf hf ht g
    have hd : firstOf known d.field = firstOf seen d.field := hk d.field
    rw [conflict?] at h
    split at h
    case h_1 hn =>
      rw [firstOf, hn] at hd
      have hf : firstOf (seen ++ [d]) d.field = some d := by
        rw [firstOf_append, ← hd]
        simp [firstOf]
      have hk : ∀ n, firstOf (known ++ [d]) n = firstOf (seen ++ [d]) n := fun n => by
        rw [firstOf_append, firstOf_append, hk]
      simpa using hi hk (seen_of hf rfl) h
    case h_2 first hf =>
      rw [firstOf, hf] at hd
      have hf : firstOf (seen ++ [d]) d.field = some first := by
        rw [firstOf_append, ← hd, Option.some_or]
      split at h
      case isTrue ht =>
        have hk : ∀ n, firstOf known n = firstOf (seen ++ [d]) n := fun n => by
          rw [firstOf_append, hk]
          by_cases hn : d.field = n
          case pos => rw [← hn, ← hd, Option.some_or]
          case neg => simp [firstOf, hn]
        simpa using hi hk (seen_of hf ht) h
      case isFalse ht =>
        cases h
        have hm : d ∈ seen ++ [d] := List.mem_append_right seen (List.mem_singleton_self d)
        have e : seen ++ d :: ds = (seen ++ [d]) ++ ds := by simp
        refine ⟨first, d, ⟨seen, ds, rfl, ?_, fun a ha f hg => ?_⟩, rfl⟩
        · exact e ▸ (differs_append_iff hm).mpr ⟨hf, ht⟩
        · exact hs a ha f ((differs_append_iff ha).mp hg)

theorem conflict?_nil_eq_none_iff : conflict? [] ds = none ↔ Agree ds := by
  have none : Agree [] := fun _ h => absurd h List.not_mem_nil
  simpa using conflict?_eq_none_iff none

theorem conflict?_nil_eq_some_iff :
    conflict? [] ds = some c ↔
      ∃ first d, EarliestDiffering ds first d ∧ c = d.conflictWith first := by
  have none : ∀ a ∈ [], ∀ f, ¬ Differs [] f a := fun _ h => absurd h List.not_mem_nil
  have found {c : Conflict} (h : conflict? [] ds = some c) :=
    earliestDiffering_of_conflict? (fun _ => rfl) none h
  refine ⟨found, fun ⟨first, d, h, e⟩ => ?_⟩
  cases hc : conflict? [] ds
  case none => exact absurd (conflict?_nil_eq_none_iff.mp hc) h.not_agree
  case some c' =>
    have ⟨_, _, h', e'⟩ := found hc
    obtain ⟨rfl, rfl⟩ := h.unique h'
    rw [e, e']

end Declaration

namespace Store

open Declaration

variable {σ : Store} {v w : Value} {t : Numbered ObjectType} {i : Numbered Interface}

theorem perform_implement (ht : σ.type? v = some t) (hi : σ.interface? w = some i)
    (fresh : i.val.name ∉ t.val.interfaceNames) :
    σ.perform (.implement v w) =
      match conflict? [] (σ.declarations t.val (t.val.interfaces ++ [i])) with
      | none => (.ok v, { σ with types := σ.types.modify t.id (·.implement i) })
      | some c => (.error (.conflict c), σ) := by
  simp only [perform, plan, implement, ht, hi, if_neg fresh, checkConflicts]
  cases conflict? [] (σ.declarations t.val (t.val.interfaces ++ [i])) <;> rfl

-- Fields around one scalar have one type, whatever directives are on them.
theorem shapeText_eq_of_leaf_eq {m n : FieldId} {f g : Field} (h : σ.Anchored)
    (hf : σ.fields[m]? = some f) (hg : σ.fields[n]? = some g) (hl : f.leaf = g.leaf) :
    σ.shapeText f = σ.shapeText g := by
  have ⟨a, ha, ea⟩ := h m f hf
  have ⟨b, hb, eb⟩ := h n g hg
  rw [hl, hb] at ha
  cases ha
  rw [shapeText, shapeText, ← ea, ← eb]

-- A type takes an interface of a new name exactly if all declarations agree: those of the
-- interfaces that it has, those of the new one and its own, in this order. If they do not, the
-- earliest that differs from the first of its name is reported, and nothing has changed.
theorem implement_run (cs : List Call) (ht : (({} : Store).run cs).type? v = some t)
    (hi : (({} : Store).run cs).interface? w = some i)
    (fresh : i.val.name ∉ t.val.interfaceNames) :
    let σ := ({} : Store).run cs
    let declared (owner : String) (fs : FieldList) : List Declaration :=
      fs.map fun p => ⟨owner, p.1, (σ.shape p.2.val.shape).text⟩
    let ds := (t.val.interfaces ++ [i]).flatMap (fun j => declared j.val.name j.val.fields) ++
      declared t.val.name t.val.fields
    ((∀ d ∈ ds, ∀ e ∈ ds, d.field = e.field → d.type = e.type) →
      σ.perform (.implement v w) = (.ok v, { σ with
        types := σ.types.modify t.id fun u => { u with interfaces := u.interfaces ++ [i] } })) ∧
    ((¬ ∀ d ∈ ds, ∀ e ∈ ds, d.field = e.field → d.type = e.type) →
      ∃ first d, EarliestDiffering ds first d) ∧
    (∀ first d, EarliestDiffering ds first d → σ.perform (.implement v w) =
      (.error (.conflict ⟨d.field, d.owner, d.type, first.owner, first.type⟩), σ)) ∧
    ∀ (m n : FieldId) (f g : Field), σ.fields[m]? = some f → σ.fields[n]? = some g →
      f.leaf = g.leaf → (σ.shape f.shape).text = (σ.shape g.shape).text := by
  intro σ declared ds
  have e : σ.declarations t.val (t.val.interfaces ++ [i]) = ds := rfl
  have hp := perform_implement ht hi fresh
  rw [e] at hp
  refine ⟨fun ha => ?_, fun ha => ?_, fun first d hd => ?_, fun m n f g => ?_⟩
  · rw [hp, conflict?_nil_eq_none_iff.mpr ha]
    rfl
  · cases hc : conflict? [] ds
    case none => exact absurd (conflict?_nil_eq_none_iff.mp hc) ha
    case some =>
      have ⟨first, d, hd, _⟩ := conflict?_nil_eq_some_iff.mp hc
      exact ⟨first, d, hd⟩
  · rw [hp, conflict?_nil_eq_some_iff.mpr ⟨first, d, hd, rfl⟩]
    rfl
  · exact shapeText_eq_of_leaf_eq (anchored_run cs)

-- Titled gives the field id another type than Node does, and User gives title a type of its own.

def titled : List Call :=
  [.leaf (.scalar .id) (.bool false), .leaf (.scalar .string) (.bool false),
    .interface (.text "Node") (.dict [(.text "id", .field 0), (.text "name", .field 1)]),
    .interface (.text "Titled") (.dict [(.text "title", .field 1), (.text "id", .field 1)]),
    .type (.text "User") (.dict [(.text "title", .field 0), (.text "id", .field 0)])]

def nodeInterface : Numbered Interface :=
  ⟨0, "Node", [("id", ⟨0, 0, 0, none, []⟩), ("name", ⟨1, 1, 1, none, []⟩)], by decide⟩

def titledInterface : Numbered Interface :=
  ⟨1, "Titled", [("title", ⟨1, 1, 1, none, []⟩), ("id", ⟨1, 1, 1, none, []⟩)], by decide⟩

def titledUser : ObjectType :=
  ⟨"User", [("title", ⟨0, 0, 0, none, []⟩), ("id", ⟨0, 0, 0, none, []⟩)], [], none,
    by decide⟩

theorem implement_titled :
    let σ := ({} : Store).run titled
    let node := Call.implement (.definition (.type 0)) (.definition (.interface 0))
    (σ.perform node).1 = .ok (.definition (.type 0)) ∧
      ((({} : Store).run (titled ++ [node])).perform
        (.implement (.definition (.type 0)) (.definition (.interface 1)))).1 =
          .error (.conflict ⟨"id", "Titled", "String!", "Node", "ID!"⟩) := by
  intro σ node
  have ⟨accepts, _⟩ := implement_run (v := .definition (.type 0)) (w := .definition (.interface 0))
    (t := ⟨0, titledUser⟩) (i := nodeInterface) titled rfl rfl (by decide)
  have ⟨_, _, refuses, _⟩ := implement_run (v := .definition (.type 0))
    (w := .definition (.interface 1)) (t := ⟨0, titledUser.implement nodeInterface⟩)
    (i := titledInterface) (titled ++ [node]) rfl rfl (by decide)
  let before : List Declaration :=
    [⟨"Node", "id", "ID!"⟩, ⟨"Node", "name", "String!"⟩, ⟨"Titled", "title", "String!"⟩]
  let after : List Declaration := [⟨"User", "title", "ID!"⟩, ⟨"User", "id", "ID!"⟩]
  have same : ∀ d ∈ before, ∀ f, ¬ Differs (before ++ ⟨"Titled", "id", "String!"⟩ :: after) f d :=
    fun d hd => not_differs_of_firstOf (by revert d; decide) rfl
  have differs : Differs (before ++ ⟨"Titled", "id", "String!"⟩ :: after) ⟨"Node", "id", "ID!"⟩
    ⟨"Titled", "id", "String!"⟩ := ⟨rfl, by decide⟩
  exact ⟨congrArg _ (accepts (by decide)),
    congrArg _ (refuses _ _ ⟨before, after, rfl, differs, same⟩)⟩

end Store

end GraphSchema
