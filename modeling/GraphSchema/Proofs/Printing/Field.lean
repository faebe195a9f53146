import GraphSchema.Proofs.Decoding.Directive
import GraphSchema.Proofs.Field.Keyed
import GraphSchema.Proofs.Printing.Row

namespace GraphSchema

open Decoding Outcome

namespace Continued

variable {s : String}

theorem enclosed {a b : String} (h : Continued s.toList) (ha : '\n' ∉ a.toList)
    (hb : '\n' ∉ b.toList) : Continued (a ++ s ++ b).toList :=
  compositional.between h (.oneLine ha) (.oneLine hb)

theorem labelled (n : Nat) (h : Continued s.toList) : Continued (s ++ toString n).toList := by
  rw [String.toList_append]
  exact h.append (compositional.plain (plain_nat n))

theorem quotes (ss : List String) : Continued (", ".intercalate (ss.map quote)).toList :=
  compositional.commas (List.forall_mem_map.mpr fun s _ => compositional.quoted s)

end Continued

-- Caches.

theorem FieldCache.continued_directive {args : List String} (h : ∀ t ∈ args, Continued t.toList) :
    Continued (directive args).toList :=
  .enclosed (Continued.compositional.commas h) (by decide) (by decide)

theorem FieldCache.continued_arguments (c : FieldCache) :
    ∀ t ∈ c.arguments, Continued t.toList := by
  obtain ⟨age, stale⟩ := c
  refine List.forall_mem_cons.mpr ⟨.labelled age (.oneLine (by decide)), ?_⟩
  rcases stale with _ | _ | n
  · exact nofun
  · exact nofun
  · exact List.forall_mem_singleton.mpr (.labelled (n + 1) (.oneLine (by decide)))

theorem Invalidation.continued_text (i : Invalidation) : Continued i.text.toList := by
  cases i
  case policy p _ =>
    rw [text]
    cases p <;> exact .oneLine (by decide)
  case field n => exact .enclosed (Continued.compositional.quoted n) (by decide) (by decide)

theorem TypeCache.continued_text (c : TypeCache) : Continued c.text.toList := by
  apply FieldCache.continued_directive
  refine List.forall_mem_append.mpr ⟨c.params.continued_arguments, ?_⟩
  cases hi : c.invalidation
  case none => exact nofun
  case some i =>
    refine List.forall_mem_singleton.mpr ?_
    rw [String.toList_append]
    exact .append (.oneLine (by decide)) i.val.continued_text

theorem Directive.continued_lengthText (min max : Option Nat) :
    Continued (lengthText min max).toList := by
  have one {s : String} (h : '\n' ∉ s.toList) (n : Nat) :
      Continued (s ++ toString n ++ ")").toList := by
    rw [String.toList_append]
    exact .append (.labelled n (.oneLine h)) (.oneLine (by decide))
  -- Not by its equations, which take long.
  delta lengthText
  cases min <;> cases max
  case none.none => exact .oneLine (by decide)
  case none.some n | some.none n => exact one (by decide) n
  case some.some m n =>
    have first : Continued ("@length(min: " ++ toString m).toList :=
      .labelled m (.oneLine (by decide))
    have second : Continued ("@length(min: " ++ toString m ++ ", max: ").toList := by
      rw [String.toList_append]
      exact first.append (.oneLine (by decide))
    rw [String.toList_append]
    exact .append (.labelled n second) (.oneLine (by decide))

-- Rules.

namespace AuthRule

theorem continued_narrowing (os : List Operation) : Continued (narrowing os) := by
  have names : ∀ t ∈ os.map (·.name), Continued t.toList := by
    refine List.forall_mem_map.mpr fun o _ => ?_
    cases o <;> exact .oneLine (by decide)
  cases os
  case nil => exact .oneLine (by decide)
  case cons o os =>
    exact .append (.oneLine (by decide))
      (.append (Continued.compositional.commas names) (.oneLine (by decide)))

theorem Granted.continued {r : AuthRule} (h : r.Granted) : Continued r.wording.toList := by
  cases h
  case audience a os =>
    rw [wording_audience]
    refine .append (.oneLine (by decide)) (.append ?_ (continued_narrowing os))
    cases a <;> exact .oneLine (by decide)
  case groups ts os =>
    rw [wording_groups]
    refine .append (.oneLine (by decide)) (.append (.oneLine (by decide)) ?_)
    refine .append (.oneLine (by decide)) (.append (Continued.quotes ts) ?_)
    exact .char (by decide) (continued_narrowing os)

end AuthRule

theorem Shape.continued_text {s : Shape} (h : IsWord s.base.name) : Continued s.text.toList := by
  have marked (b : Bool) : Continued (mark b).toList := by cases b <;> exact .oneLine (by decide)
  have name : Continued s.base.name.toList := .of_isWord h
  unfold text
  split <;> simp only [String.toList_append]
  case isTrue =>
    refine .append (.append (.append (.append ?_ name) (marked _)) ?_) (marked _) <;>
      exact .oneLine (by decide)
  case isFalse => exact .append name (marked _)

theorem Scalar.isWord_name (s : Scalar) : IsWord s.name := by cases s <;> decide

-- Scalars come with the program.
def Base.InWords : Base → Prop
  | scalar _ => True
  | enum name _ | object name => IsWord name

instance : (b : Base) → Decidable b.InWords
  | .scalar _ => inferInstanceAs <| Decidable True
  | .enum name _ | .object name => inferInstanceAs <| Decidable (IsWord name)

theorem Base.InWords.isWord_name {b : Base} (h : b.InWords) : IsWord b.name := by
  cases b
  case scalar s => exact s.isWord_name
  case enum | object => exact h

namespace Store

variable {σ : Store} {f : Field} {t : String}

-- The texts of a directive that are not quoted where enum values are meant.
def bareTexts (σ : Store) : Directive → List String
  | .default v => (σ.settle v).bareTexts
  | _ => []

-- The type that a field refers to is a word, and so is all that its default is made of where that
-- is not quoted.
def FieldInWords (σ : Store) (f : Field) : Prop :=
  let shape := σ.shape f.shape
  shape.base.InWords ∧ (shape.isEnum → ∀ d ∈ f.directives, ∀ s ∈ σ.bareTexts d, IsWord s)

instance (σ : Store) (f : Field) : Decidable (σ.FieldInWords f) :=
  inferInstanceAs <| Decidable (_ ∧ _)

theorem continued_directiveText (hg : σ.AllRules AuthRule.Granted) (hw : σ.FieldInWords f)
    (hk : ∀ v, .default v ∈ f.directives → v.isKeyed) {d : Directive} (hd : d ∈ f.directives)
    (h : σ.directiveText (σ.shape f.shape).isEnum d = .ok t) : Continued t.toList := by
  cases d
  case length min max => exact pure_eq_ok.mp h ▸ Directive.continued_lengthText min max
  case unique scope =>
    cases pure_eq_ok.mp h
    cases scope
    case nil => exact .oneLine (by decide)
    case cons =>
      exact .enclosed (.enclosed (.quotes _) (by decide) (by decide)) (by decide) (by decide)
  case default v =>
    have ⟨l, hl, h⟩ := bind_eq_ok.mp h
    cases pure_eq_ok.mp h
    refine .enclosed ?_ (by decide) (by decide)
    have keyed : (σ.settle v).isKeyed := (isKeyed_settle v).trans (hk v hd)
    exact Value.literal_of_parts Continued.compositional _ keyed
      (fun hb s hs => .of_isWord (hw.right hb _ hd s hs)) l hl
  case search => exact pure_eq_ok.mp h ▸ .oneLine (by decide)
  case auth s =>
    have ⟨l, hl, h⟩ := bind_eq_ok.mp h
    cases pure_eq_ok.mp h
    rw [AllWorded.rulesText_eq (hg.imp fun _ => AuthRule.Granted.worded)] at hl
    cases hl
    have rules : ∀ t ∈ (σ.rulesOf s).map (·.wording), Continued t.toList :=
      List.forall_mem_map.mpr fun r hr => (hg.of_mem hr).continued
    exact .enclosed (.enclosed (Continued.compositional.commas rules) (by decide) (by decide))
      (by decide) (by decide)
  case cache c => exact pure_eq_ok.mp h ▸ FieldCache.continued_directive c.val.continued_arguments

theorem continued_fieldText (hg : σ.AllRules AuthRule.Granted) (hw : σ.FieldInWords f)
    (hk : ∀ v, .default v ∈ f.directives → v.isKeyed) (h : σ.fieldText f = .ok t) :
    Continued t.toList := by
  have ⟨ds, hds, h⟩ := bind_eq_ok.mp h
  cases pure_eq_ok.mp h
  have directives : ∀ t ∈ ds, Continued t.toList := by
    intro t ht
    have ⟨d, hd, h⟩ := mem_of_mapM_eq_ok hds ht
    exact continued_directiveText hg hw hk (List.mem_reverse.mp hd) h
  have shape := Shape.continued_text hw.left.isWord_name
  exact Continued.compositional.intercalate (List.forall_mem_cons.mpr ⟨shape, directives⟩)
    (.oneLine (by decide))

end Store

end GraphSchema
