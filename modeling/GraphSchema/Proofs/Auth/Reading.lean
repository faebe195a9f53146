import GraphSchema.Proofs.Auth.Worded
import GraphSchema.Proofs.Constant.Reading
import GraphSchema.Proofs.Quoted.Surrogate

namespace GraphSchema

-- What the text of a rule says, where groups have names of some type.
structure RuleEntry (α : Type) where
  allow : String
  groups : Option (List α)
  operations : List String
  deriving DecidableEq

namespace RuleEntry

variable {α : Type}

-- How it says it, given how a name is written.
def text (write : α → String) (e : RuleEntry α) : String :=
  let groups := e.groups.map fun gs => "groups: [" ++ ", ".intercalate (gs.map write) ++ "]"
  let operations := if e.operations.isEmpty then none
    else some ("operations: [" ++ ", ".intercalate e.operations ++ "]")
  "\x7b " ++ ", ".intercalate (("allow: " ++ e.allow) :: (groups.toList ++ operations.toList))
    ++ " \x7d"

def texts (write : α → String) (es : List (RuleEntry α)) : String :=
  "[" ++ ", ".intercalate (es.map (text write)) ++ "]"

-- The text depends on what is written for a name only.
theorem texts_oneGroup (write : α → String) (name : α) :
    texts write [⟨"groups", some [name], []⟩] =
      "[\x7b allow: groups, groups: [" ++ write name ++ "] \x7d]" := by
  apply String.toList_inj.mp
  simp [texts, text]

-- The halves of a character make another name than the character, but the same text.
theorem exists_texts_eq : ∃ name : List CodePoint, name ≠ [] ∧ name ≠ [.char '😀'] ∧
    texts Quoted.quotePoints [⟨"groups", some [name], []⟩] =
      texts Quoted.quotePoints [⟨"groups", some [[.char '😀']], []⟩] := by
  obtain ⟨m, n, e⟩ := Quoted.exists_halves (c := '😀') (by decide)
  refine ⟨[.half m, .half n], nofun, nofun, ?_⟩
  rw [texts_oneGroup, texts_oneGroup, e]

end RuleEntry

namespace Constant

def enum? : Constant → Option String
  | enum s => some s
  | _ => none

def text? : Constant → Option String
  | text s => some s
  | _ => none

def items? : Constant → Option (List Constant)
  | list cs => some cs
  | _ => none

def texts? (c : Constant) : Option (List String) := do (← c.items?).mapM text?

def enums? (c : Constant) : Option (List String) := do (← c.items?).mapM enum?

-- There may be no groups, and no operations.
def rule? : Constant → Option (RuleEntry String)
  | object fs => do
    let allow ← (← fs.lookup "allow").enum?
    let groups ← (fs.lookup "groups").mapM texts?
    let operations ← (fs.lookup "operations").mapM enums?
    return ⟨allow, groups, operations.getD []⟩
  | _ => none

-- The parser of rules.
def entries? (s : String) : Option (List (RuleEntry String)) := do
  (← (← parse? s).items?).mapM rule?

open Token

theorem reads_spaced {ls : List String} {fs : List (String × Constant)}
    (h : List.Forall₂ ReadsField ls fs) :
    Reads ("\x7b " ++ ", ".intercalate ls ++ " \x7d") (.object fs) := by
  have ⟨ts, hd, hl⟩ := exists_fields h
  have blank (rest : List Char) : Lexes [' '] [] rest := lexes_ignored rfl
  have spaced (rest : List Char) (hr : Ends rest) :
      Lexes (' ' :: ((", ".intercalate ls).toList ++ [' '])) ts rest := by
    have inner := (hl (' ' :: rest) (by rintro _ ⟨⟩; decide)).append (blank rest)
    simpa using (blank _).append inner
  exact ⟨_, .object hd, fun _ _ => by simpa using lexes_object spaced⟩

theorem texts?_list (ts : List String) : (list (ts.map text)).texts? = some ts := by
  have h : (ts.map text).mapM text? = some ts := by
    induction ts
    case nil => rfl
    case cons t ts hi => rw [List.map_cons, List.mapM_cons, hi]; rfl
  exact h

theorem enums?_list (os : List Operation) :
    (list (os.map fun o => enum o.name)).enums? = some (os.map (·.name)) := by
  have h : (os.map fun o => enum o.name).mapM enum? = some (os.map (·.name)) := by
    induction os
    case nil => rfl
    case cons o os hi => rw [List.map_cons, List.mapM_cons, hi]; rfl
  exact h

theorem reads_enum {t : String} (hw : IsWord t) (h : ofName t = enum t) : Reads t (enum t) :=
  h ▸ reads_name hw

-- The fields of a rule, as they are written.

def allowField (allow : String) : String × Constant := ("allow", enum allow)

def groupsField (groups : Option (List String)) : List (String × Constant) :=
  (groups.map fun gs => ("groups", list (gs.map text))).toList

def operationsField : List Operation → List (String × Constant)
  | [] => []
  | os => [("operations", list (os.map fun o => enum o.name))]

theorem readsField_allow {a : String} (hw : IsWord a) (h : ofName a = enum a) :
    ReadsField ("allow: " ++ a) (allowField a) :=
  ⟨(by decide : IsWord "allow"), a, rfl, reads_enum hw h⟩

theorem reads_groupsField (groups : Option (List String)) :
    List.Forall₂ ReadsField (groups.map fun gs => "groups: " ++ quoteList gs).toList
      (groupsField groups) := by
  cases groups
  case none => exact .nil
  case some gs =>
    have quoted : List.Forall₂ Reads (gs.map quote) (gs.map text) := by
      rw [List.forall₂_map_left_iff, List.forall₂_map_right_iff]
      exact List.forall₂_same.mpr fun s _ => reads_quote s
    exact .cons ⟨(by decide : IsWord "groups"), _, rfl, reads_list quoted⟩ .nil

theorem reads_operationsField (os : List Operation) :
    List.Forall₂ ReadsField (AuthRule.operationsText os) (operationsField os) := by
  cases os
  case nil => exact .nil
  case cons o os =>
    have names :
        List.Forall₂ Reads ((o :: os).map (·.name)) ((o :: os).map fun o => enum o.name) := by
      rw [List.forall₂_map_left_iff, List.forall₂_map_right_iff]
      exact List.forall₂_same.mpr fun o _ => by cases o <;> exact reads_enum (by decide) rfl
    exact .cons ⟨(by decide : IsWord "operations"), _, rfl, reads_list names⟩ .nil

theorem rule?_object (allow : String) (groups : Option (List String)) (os : List Operation) :
    (object (allowField allow :: (groupsField groups ++ operationsField os))).rule? =
      some ⟨allow, groups, os.map (·.name)⟩ := by
  cases groups <;> cases os <;>
    simp [rule?, allowField, groupsField, operationsField, List.lookup_cons, enum?, texts?_list,
      enums?_list, -List.map_cons]

end Constant

namespace AuthRule

open Constant

variable {r : AuthRule} {rs : List AuthRule}

def entry (r : AuthRule) : RuleEntry String where
  allow := r.allow.text?.getD ""
  groups := r.groups.map (·.map fun v => v.text?.getD "")
  operations := r.operations.map (·.name)

theorem wording_eq (r : AuthRule) : r.wording = r.entry.text quote := by
  obtain ⟨allow, groups, operations⟩ := r
  apply String.toList_inj.mp
  cases groups <;> cases operations <;>
    simp [wording, RuleEntry.text, entry, operationsText, quoteList, String.intercalate_cons_cons]

theorem reads_wording (h : ReadsField ("allow: " ++ r.entry.allow) (allowField r.entry.allow)) :
    Reads r.wording
      (.object (allowField r.entry.allow ::
        (groupsField r.entry.groups ++ operationsField r.operations))) := by
  have fields := List.rel_append (reads_groupsField r.entry.groups)
    (reads_operationsField r.operations)
  have e : r.entry.groups.map (fun gs => "groups: " ++ quoteList gs) =
      r.groups.map fun gs => "groups: " ++ quoteList (gs.map fun v => v.text?.getD "") :=
    Option.map_map ..
  rw [e] at fields
  exact reads_spaced (.cons h fields)

-- Whom a rule of a set allows is a word that stands for itself.
theorem Granted.readsField_allow (h : r.Granted) :
    ReadsField ("allow: " ++ r.entry.allow) (allowField r.entry.allow) := by
  cases h
  case audience a _ =>
    have word : IsWord a.name ∧ Constant.ofName a.name = .enum a.name := by
      cases a <;> exact ⟨by decide, rfl⟩
    exact Constant.readsField_allow word.left word.right
  case groups => exact Constant.readsField_allow (by decide : IsWord "groups") rfl

theorem Granted.exists_reads (h : r.Granted) : ∃ c, Reads r.wording c ∧ c.rule? = some r.entry :=
  ⟨_, reads_wording h.readsField_allow, rule?_object ..⟩

theorem exists_reads_all (h : ∀ r ∈ rs, r.Granted) :
    ∃ cs, List.Forall₂ Reads (rs.map (·.wording)) cs ∧
      cs.mapM rule? = some (rs.map (·.entry)) := by
  induction rs
  case nil => exact ⟨[], .nil, rfl⟩
  case cons r rs hi =>
    have ⟨hr, hrs⟩ := List.forall_mem_cons.mp h
    have ⟨c, hc, e⟩ := hr.exists_reads
    have ⟨cs, hcs, es⟩ := hi hrs
    exact ⟨c :: cs, .cons hc hcs, by simp [e, es]⟩

theorem texts_wordings (rs : List AuthRule) :
    "[" ++ ", ".intercalate (rs.map (·.wording)) ++ "]" =
      RuleEntry.texts quote (rs.map (·.entry)) := by
  simp only [RuleEntry.texts, List.map_map, Function.comp_def, wording_eq]

-- Reading the text of rules gives back what they say, whatever the names of groups are.
theorem entries?_texts (h : ∀ r ∈ rs, r.Granted) :
    entries? (RuleEntry.texts quote (rs.map (·.entry))) = some (rs.map (·.entry)) := by
  have ⟨cs, hcs, es⟩ := exists_reads_all h
  have parsed := parse?_eq_some_iff.mpr (reads_list hcs).writes
  rw [← texts_wordings, entries?, parsed]
  simp [items?, es]

end AuthRule

end GraphSchema
