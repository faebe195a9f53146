import GraphSchema.Definition.Basic
import GraphSchema.Error

namespace GraphSchema

-- Drops each pair whose name occurs before it or among the names already seen.
def firstOfEach {α : Type} (seen : List String) : List (String × α) → List (String × α)
  | [] => []
  | p :: ps =>
    if p.1 ∈ seen then firstOfEach seen ps else p :: firstOfEach (p.1 :: seen) ps

section

variable {α : Type} {seen : List String} {ps : List (String × α)}

theorem mem_of_mem_firstOfEach {p : String × α} (h : p ∈ firstOfEach seen ps) :
    p ∈ ps ∧ p.1 ∉ seen := by
  induction ps generalizing seen
  case nil => cases h
  case cons q ps hi =>
    simp only [firstOfEach] at h
    split at h
    case isTrue =>
      have ⟨hm, hs⟩ := hi h
      exact ⟨List.mem_cons_of_mem q hm, hs⟩
    case isFalse hq =>
      cases List.mem_cons.mp h
      case inl e => exact ⟨e ▸ List.mem_cons_self, e ▸ hq⟩
      case inr h =>
        have ⟨hm, hs⟩ := hi h
        exact ⟨List.mem_cons_of_mem q hm, fun hp => hs (List.mem_cons_of_mem q.1 hp)⟩

theorem nodup_firstOfEach (seen : List String) (ps : List (String × α)) :
    ((firstOfEach seen ps).map (·.1)).Nodup := by
  induction ps generalizing seen
  case nil => exact List.nodup_nil
  case cons p ps hi =>
    simp only [firstOfEach]
    split
    case isTrue => exact hi seen
    case isFalse =>
      refine List.nodup_cons.mpr ⟨fun h => ?_, hi _⟩
      have ⟨q, hq, e⟩ := List.mem_map.mp h
      exact (mem_of_mem_firstOfEach hq).right (e ▸ List.mem_cons_self)

end

-- Nothing is dropped from the entries of a dictionary, which have their keys once.
def Fields.ofEntries (fs : FieldList) : Fields := ⟨firstOfEach [] fs, nodup_firstOfEach [] fs⟩

def merge {α : Type} (sources : List (List (String × α))) : List (String × α) :=
  firstOfEach [] sources.flatten

structure Declaration where
  owner : String
  field : String
  type : String
  deriving DecidableEq, Inhabited

namespace Declaration

def conflictWith (d first : Declaration) : Conflict :=
  ⟨d.field, d.owner, d.type, first.owner, first.type⟩

-- The earliest declaration that differs from the first one of its name.
def conflict? (known : List Declaration) : List Declaration → Option Conflict
  | [] => none
  | d :: ds =>
    match known.find? (·.field == d.field) with
    | none => conflict? (known ++ [d]) ds
    | some first =>
      if first.type = d.type then conflict? known ds else some (d.conflictWith first)

end Declaration

end GraphSchema
