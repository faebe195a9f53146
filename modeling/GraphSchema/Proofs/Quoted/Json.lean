import GraphSchema.Call.Basic
import GraphSchema.Proofs.Decoding.Basic
import GraphSchema.Proofs.Outcome
import GraphSchema.Proofs.Quoted.Body

namespace GraphSchema

-- Reading strings of JSON, and lists of them with one comma and one blank between two strings.

namespace Json

-- The escapes are those of constants, but no control character stands in a string as it is.
def turn? : List Char → Option (Turn Char)
  | [] => none
  | c :: cs => if c < ' ' then none else Quoted.turn? (c :: cs)

def string? : List Char → Option (String × List Char)
  | '"' :: cs => do
    let (s, rest) ← scan turn? 0 cs
    return (String.ofList s, rest)
  | _ => none

-- What comes after a string of a list: the end, or the next string.
def next? : List Char → Option (Turn String)
  | ']' :: rest => some (.stop rest)
  | ',' :: ' ' :: cs => do
    let (s, rest) ← string? cs
    return .take s rest
  | _ => none

def strings? : List Char → Option (List String × List Char)
  | '[' :: ']' :: rest => some ([], rest)
  | '[' :: cs => do
    let (s, rest) ← string? cs
    (scan next? 0 rest).map fun (ss, rest) => (s :: ss, rest)
  | _ => none

-- What a text is read as from its start to its end.
def whole? {α : Type} (read? : List Char → Option (α × List Char)) (t : String) : Option α := do
  let (a, rest) ← read? t.toList
  if rest.isEmpty then return a else none

variable {α : Type} {read? : List Char → Option (α × List Char)}

theorem whole?_of_append {t : String} {a : α}
    (h : ∀ rest, read? (t.toList ++ rest) = some (a, rest)) : whole? read? t = some a := by
  have ended := h []
  rw [List.append_nil] at ended
  simp [whole?, ended]

-- What can be read back was written for one thing only.
theorem injective_of_whole? {write : α → String} (h : ∀ a, whole? read? (write a) = some a) :
    Function.Injective write := by
  have whole : whole? read? ∘ write = some := funext h
  exact .of_comp (whole ▸ Option.some_injective α)

variable {rest : List Char}

theorem turn?_escape (c : Char) : turn? (Quoted.escape c ++ rest) = some (.take c rest) := by
  have read : Quoted.turn? (Quoted.escape c ++ rest) = some (.take c rest) := Quoted.turn?_escape
  have ascii := (Quoted.body_escape c).isAscii
  cases hc : Quoted.escape c
  case nil => exact absurd hc Quoted.escape_ne_nil
  case cons a as =>
    rw [hc] at read ascii
    have visible : ¬ a < ' ' := Char.not_lt.mpr (ascii a List.mem_cons_self).left
    rw [List.cons_append] at read ⊢
    rw [turn?, if_neg visible, read]

theorem string?_quote (s : String) : string? ((quote s).toList ++ rest) = some (s, rest) := by
  have read : scan turn? 0 (Quoted.encode s.toList ++ '"' :: rest) = some (s.toList, rest) :=
    Quoted.scan_encode (fun _ => rfl) fun c _ => turn?_escape c
  rw [toList_quote, List.cons_append, List.append_assoc, List.singleton_append, string?, read]
  simp

example : whole? string? "\"\\u00e9\\uD83D\\ude00\\/\\\"\"" = some "é😀/\"" := by decide +kernel

-- Half of a surrogate pair is no character, and a tab has to be escaped.
example : whole? string? "\"\\uD83D\"" = none ∧ whole? string? "\"\t\"" = none := by decide +kernel

open Decoding

theorem scan_more (ss : List String) :
    scan next? 0 (more quote ss ++ ']' :: rest) = some (ss, rest) := by
  induction ss
  case nil => exact Scan.scan_stop rfl
  case cons s ss hi =>
    have taken (rest : List Char) :
        next? (',' :: ' ' :: (quote s).toList ++ rest) = some (.take s rest) := by
      simp [next?, string?_quote]
    have pieces : more quote (s :: ss) ++ ']' :: rest =
        ',' :: ' ' :: (quote s).toList ++ (more quote ss ++ ']' :: rest) := by
      simp [more]
    rw [pieces, Scan.scan_take (List.cons_ne_nil _ _) (taken _), hi]
    rfl

-- No string begins with the bracket that closes a list.
theorem strings?_of_string? {s : String} {cs : List Char} (h : string? cs = some (s, rest)) :
    strings? ('[' :: cs) = (scan next? 0 rest).map fun (ss, rest) => (s :: ss, rest) := by
  have continues : ∀ r, cs = ']' :: r → False := by
    rintro r rfl
    exact nomatch h
  rw [strings?, h]
  case x_1 => exact continues
  rfl

theorem strings?_quoteList (ss : List String) :
    strings? ((quoteList ss).toList ++ rest) = some (ss, rest) := by
  cases ss
  case nil =>
    have pieces : (quoteList []).toList ++ rest = '[' :: ']' :: rest := by simp [quoteList]
    rw [pieces, strings?]
  case cons s ss =>
    have pieces : (quoteList (s :: ss)).toList ++ rest =
        '[' :: ((quote s).toList ++ (more quote ss ++ ']' :: rest)) := by
      rw [quoteList, String.toList_append, String.toList_append, toList_intercalate_cons]
      simp
    rw [pieces, strings?_of_string? (string?_quote s), scan_more]
    rfl

example : whole? strings? "[\"\\\"\", \", \", \"]\", \"\"]" = some ["\"", ", ", "]", ""] := by
  decide +kernel

end Json

open Quoted Json Outcome

-- A text in double quotes that says where it ends and what it quotes.
structure Quotes (t s : String) : Prop where
  enclosed : ∃ w, t.toList = '"' :: (w ++ ['"'])
  ascii : ∀ c ∈ t.toList, IsAscii c
  oneLine : ∀ c ∈ t.toList, c ∉ lineBreaks
  -- All quotes but those at the ends have an odd number of backslashes directly before them.
  escaped : ∀ u v, t.toList = u ++ '"' :: v → (Odd (backslashes u) ↔ u ≠ [] ∧ v ≠ [])
  read : whole? string? t = some s

theorem quotes_quote (s : String) : Quotes (quote s) s where
  enclosed := ⟨encode s.toList, toList_quote s⟩
  ascii := isAscii_of_mem_quote
  oneLine c hc := (isAscii_of_mem_quote c hc).not_mem_lineBreaks
  escaped _ _ := odd_backslashes_iff
  read := whole?_of_append fun _ => string?_quote s

theorem read_quoteList (ss : List String) : whole? strings? (quoteList ss) = some ss :=
  whole?_of_append fun _ => strings?_quoteList ss

namespace Store

variable (σ : Store)

theorem perform_quoteItems (ss : List String) :
    σ.perform (.quoteItems (.texts ss)) = (.ok (.text (quoteList ss)), σ) := by
  have settled : (ss.map Value.text).map σ.settle = ss.map .text := by simp [settle]
  have written :
      Value.jsons σ.typeName ((ss.map Value.text).map σ.settle) = .ok (ss.map quote) := by
    rw [settled, Value.jsons_texts]
  have planned : σ.plan (.quoteItems (.texts ss)) = .ok (.say (.text (quoteList ss))) :=
    bind_eq_ok.mpr ⟨_, rfl, bind_eq_ok.mpr ⟨_, written, rfl⟩⟩
  rw [perform_of_plan planned]
  rfl

-- Texts are quoted so that they can be read back, each by itself and as items of a list.
theorem quotes_alone_and_listed :
    (∀ s, σ.perform (.quote (.text s)) = (.ok (.text (quote s)), σ) ∧ Quotes (quote s) s) ∧
    Function.Injective quote ∧
    (∀ ss, σ.perform (.quoteItems (.texts ss)) = (.ok (.text (quoteList ss)), σ) ∧
      whole? strings? (quoteList ss) = some ss) ∧
    Function.Injective quoteList := by
  refine ⟨fun s => ⟨rfl, quotes_quote s⟩, ?_, fun ss => ?_, ?_⟩
  · exact injective_of_whole? fun s => (quotes_quote s).read
  · exact ⟨σ.perform_quoteItems ss, read_quoteList ss⟩
  · exact injective_of_whole? read_quoteList

end Store

end GraphSchema
