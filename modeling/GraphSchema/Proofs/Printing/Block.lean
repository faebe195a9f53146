import GraphSchema.Proofs.Printing.Row
import GraphSchema.Plan.Registry

namespace GraphSchema

open Decoding

-- What the block of a definition says.
inductive Block
  | interface (name : String) (fields : List (String × String))
  | type (name : String) (interfaces : List String) (cache : Option String)
    (fields : List (String × String))
  | enum (name : String) (values : List String)
  deriving DecidableEq

namespace Block

def kind : Block → DefinitionKind
  | interface .. => .interface
  | type .. => .type
  | enum .. => .enum

def implementing : List String → String
  | [] => ""
  | is => " implements " ++ " & ".intercalate is

def caching : Option String → String
  | none => ""
  | some t => " " ++ t

def head : Block → String
  | interface name _ => "interface " ++ name
  | type name is cache _ => "type " ++ name ++ implementing is ++ caching cache
  | enum name _ => "enum " ++ name

def fieldLine (indent : String) (f : String × String) : String := indent ++ f.1 ++ ": " ++ f.2

def valueLine (indent v : String) : String := indent ++ v

def lines (indent : String) : Block → List String
  | interface _ fs | type _ _ _ fs => fs.map (fieldLine indent)
  | enum _ vs => vs.map (valueLine indent)

def text (indent : String) (b : Block) : String := block b.head (b.lines indent)

-- What is known of the blocks that are printed.

structure IsField (f : String × String) : Prop where
  name : IsWord f.1
  continued : Continued f.2.toList

structure IsDirective (t : String) : Prop where
  sign : ∃ cs, t.toList = '@' :: cs
  continued : Continued t.toList

inductive Formed : Block → Prop
  | interface {name fields} (word : IsWord name) (nonempty : fields ≠ [])
    (each : ∀ f ∈ fields, IsField f) : Formed (interface name fields)
  | type {name is cache fields} (word : IsWord name) (words : ∀ i ∈ is, IsWord i)
    (cached : ∀ t ∈ cache, IsDirective t) (nonempty : fields ≠ [])
    (each : ∀ f ∈ fields, IsField f) : Formed (type name is cache fields)
  | enum {name values} (word : IsWord name) (nonempty : values ≠ [])
    (each : ∀ v ∈ values, IsWord v) : Formed (enum name values)

-- Lines.

section

variable {indent : String}

theorem rows_fieldLine (hi : ∀ c ∈ indent.toList, c = ' ') : Rows (fieldLine indent) IsField where
  isRow f hf := by
    have colon : Continued ": ".toList := .oneLine (by decide)
    simpa [fieldLine] using (hf.name.isRow (colon.append hf.continued)).indent hi
  inj f g hf hg h := by
    have h := congrArg String.toList h
    simp only [fieldLine, String.toList_append, List.append_assoc] at h
    have ⟨hn, h⟩ := run_append_inj hf.name.isPart hg.name.isPart (by rintro _ ⟨⟩; decide)
      (by rintro _ ⟨⟩; decide) (List.append_cancel_left h)
    exact Prod.ext (String.toList_inj.mp hn) (String.toList_inj.mp (List.append_cancel_left h))

theorem rows_valueLine (hi : ∀ c ∈ indent.toList, c = ' ') : Rows (valueLine indent) IsWord where
  isRow v hv := by
    simpa [valueLine] using (hv.isRow .nil).indent hi
  inj v w _ _ h := by
    have h := congrArg String.toList h
    simp only [valueLine, String.toList_append] at h
    exact String.toList_inj.mp (List.append_cancel_left h)

end

-- Heads.

-- What occurs between a keyword and a directive.
def isHeadChar (c : Char) : Bool := Name.isPart c || c == ' ' || c == '&'

theorem isHeadChar_of_isWord {w : String} (h : IsWord w) : ∀ c ∈ w.toList, isHeadChar c := by
  intro c hc
  simp [isHeadChar, h.isPart c hc]

-- What follows the first interface.
def others (is : List String) : List Char := is.flatMap fun i => " & ".toList ++ i.toList

theorem toList_implementing (i : String) (is : List String) :
    (implementing (i :: is)).toList = " implements ".toList ++ (i.toList ++ others is) := by
  rw [implementing, String.toList_append, Decoding.toList_intercalate, others]
  nofun

theorem isHeadChar_implementing {is : List String} (h : ∀ i ∈ is, IsWord i) :
    ∀ c ∈ (implementing is).toList, isHeadChar c := by
  cases is
  case nil => exact nofun
  case cons i is =>
    have ⟨hi, his⟩ := List.forall_mem_cons.mp h
    simp only [toList_implementing, others, List.forall_mem_append, List.forall_mem_flatMap]
    exact ⟨List.all_eq_true.mp rfl, isHeadChar_of_isWord hi,
      fun i hm => ⟨List.all_eq_true.mp rfl, isHeadChar_of_isWord (his i hm)⟩⟩

section

variable {i j : String} {is js : List String} {r s : List Char}

end

theorem continued_head {b : Block} (h : b.Formed) : Continued b.head.toList := by
  have plain {cs : List Char} (h : ∀ c ∈ cs, isHeadChar c) : Continued cs :=
    .oneLine fun hm => absurd (h _ hm) (by decide)
  cases h <;> simp only [head, String.toList_append]
  case interface word _ _ | enum word _ _ =>
    exact .append (.oneLine (by decide)) (plain (isHeadChar_of_isWord word))
  case type is cache _ word words cached _ _ =>
    refine .append (.append (.append (.oneLine (by decide)) ?_) ?_) ?_
    · exact plain (isHeadChar_of_isWord word)
    · exact plain (isHeadChar_implementing words)
    · cases cache
      case none => exact .nil
      case some t =>
        rw [caching, String.toList_append]
        exact .append (.oneLine (by decide)) (cached t rfl).continued

-- Blocks.

-- The first letter of the keyword.
def letter : DefinitionKind → Char
  | .interface => 'i'
  | .type => 't'
  | .enum => 'e'

theorem toList_head (b : Block) : ∃ cs, b.head.toList = letter b.kind :: cs := by
  cases b <;> simp [head, kind, letter]

theorem solid_text {indent : String} (hi : ∀ c ∈ indent.toList, c = ' ') {b : Block}
    (h : b.Formed) : Solid (b.text indent).toList := by
  have ⟨cs, e⟩ := toList_head b
  have hl : isBlank (letter b.kind) = false := by cases b.kind <;> decide
  have hh := continued_head h
  cases h
  case interface nonempty each | type nonempty each =>
    exact (rows_fieldLine hi).solid_block each nonempty e hl hh
  case enum nonempty each => exact (rows_valueLine hi).solid_block each nonempty e hl hh

end Block

end GraphSchema
