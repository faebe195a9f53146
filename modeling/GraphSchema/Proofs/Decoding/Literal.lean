import GraphSchema.Proofs.Decoding.Basic
import GraphSchema.Proofs.Decoding.Plain
import GraphSchema.Proofs.Outcome
import GraphSchema.Proofs.Value.Keyed

namespace GraphSchema

open Decoding in
theorem Number.plain_toText (n : Number) : Plain n.toText := by
  cases n
  case int n => exact Decimal.plain_int n
  case float x => exact x.plain_toText
  case decimal d => exact d.plain_toText

open Decoding in
theorem Label.plain_text (l : Label) (n : Number) : Plain (l.text n) := by
  unfold text
  split
  case h_1 => exact n.plain_toText
  case h_2 s hs =>
    exact ((plain_of_isWord (l.words.right s hs)).append (by decide)).append
      (plain_of_isWord l.words.left)

open Decoding Outcome

namespace Decoding

-- What holds of all parts of a literal, and of two texts put together if it holds of both.
structure Compositional (P : List Char → Prop) : Prop where
  plain : ∀ {s : String}, Plain s → P s.toList
  quoted : ∀ s : String, P (quote s).toList
  key : ∀ {n : String}, isName n → P (n ++ ": ").toList
  append : ∀ {v w : List Char}, P v → P w → P (v ++ w)

namespace Compositional

variable {P : List Char → Prop} {a b s : String}

theorem between (hp : Compositional P) (h : P s.toList) (ha : P a.toList) (hb : P b.toList) :
    P (a ++ s ++ b).toList := by
  rw [String.toList_append, String.toList_append]
  exact hp.append (hp.append ha h) hb

theorem intercalate (hp : Compositional P) {l : List String} (h : ∀ t ∈ l, P t.toList)
    (hs : P s.toList) : P (s.intercalate l).toList := by
  induction l
  case nil => exact hp.plain (s := "") (by decide)
  case cons t l hi =>
    have ⟨ht, hl⟩ := List.forall_mem_cons.mp h
    cases l
    case nil => simpa using ht
    case cons =>
      have h := hp.append ht (hp.append hs (hi hl))
      simpa [String.intercalate_cons_cons] using h

theorem commas (hp : Compositional P) {l : List String} (h : ∀ t ∈ l, P t.toList) :
    P (", ".intercalate l).toList :=
  hp.intercalate h (hp.plain (by decide))

end Compositional

end Decoding

namespace Value

-- The texts in a value that are written bare where enum values are meant.

mutual

def bareTexts : Value → List String
  | text s => [s]
  | list xs | tuple xs => listBareTexts xs
  | dict es => entryBareTexts es
  | _ => []

def listBareTexts : List Value → List String
  | [] => []
  | x :: xs => bareTexts x ++ listBareTexts xs

def entryBareTexts : List (Value × Value) → List String
  | [] => []
  | (_, v) :: es => bareTexts v ++ entryBareTexts es

end

section

variable {P : List Char → Prop} {r : Reading} {bare : Bool}

mutual

theorem literal_of_parts (hp : Compositional P) : (v : Value) → isKeyed v →
    (bare → ∀ s ∈ bareTexts v, P s.toList) → ∀ t, literal r bare v = .ok t → P t.toList
  | null => fun _ _ _ h => by
    cases pure_eq_ok.mp h
    exact hp.plain (by decide)
  | bool b => fun _ _ _ h => by
    cases pure_eq_ok.mp h
    cases b <;> exact hp.plain (by decide)
  | text s => fun _ hb _ h => by
    cases pure_eq_ok.mp h
    cases bare
    case true => exact hb rfl s (List.mem_singleton_self s)
    case false => exact hp.quoted s
  | int n => fun _ _ _ h => by
    cases pure_eq_ok.mp h
    exact hp.plain (Decimal.plain_int n)
  | float x => fun _ _ _ h => by
    cases pure_eq_ok.mp h
    exact hp.plain x.plain_toText
  | decimal d => fun _ _ _ h => by
    cases pure_eq_ok.mp h
    exact hp.plain d.plain_toText
  | labelled n l => fun _ _ _ h => by
    cases pure_eq_ok.mp h
    exact hp.plain (l.plain_text n)
  | date d => fun _ _ _ h => by
    cases pure_eq_ok.mp h
    exact hp.quoted _
  | dateTime d => fun _ _ _ h => by
    cases pure_eq_ok.mp h
    exact hp.quoted _
  | list xs | tuple xs => fun hk hb _ h => by
    have ⟨l, hl, h⟩ := bind_eq_ok.mp h
    cases pure_eq_ok.mp h
    have hs := hp.commas (literals_of_parts hp xs hk hb l hl)
    exact hp.between hs (hp.plain (by decide)) (hp.plain (by decide))
  | dict es => fun hk hb _ h => by
    have ⟨l, hl, h⟩ := bind_eq_ok.mp h
    cases pure_eq_ok.mp h
    have hs := hp.commas (literalEntries_of_parts hp es hk hb l hl)
    exact hp.between hs (hp.plain (by decide)) (hp.plain (by decide))
  | bytes _ | byteArray _ | progression _ | foreign .. | enumClass .. | scalar _ | nodeKind _
  | enumRef .. | objectRef _ | script _ | object _ | stream _ | enumMember .. => fun _ _ _ h => by
    have ⟨_, _, h⟩ := bind_eq_ok.mp h
    exact absurd h throw_ne_ok

theorem literals_of_parts (hp : Compositional P) : (xs : List Value) → areKeyed xs →
    (bare → ∀ s ∈ listBareTexts xs, P s.toList) →
    ∀ l, literals r bare xs = .ok l → ∀ t ∈ l, P t.toList
  | [] => fun _ _ _ h => by
    cases pure_eq_ok.mp h
    nofun
  | x :: xs => fun hk hb _ h => by
    have ⟨t, ht, h⟩ := bind_eq_ok.mp h
    have ⟨l, hl, h⟩ := bind_eq_ok.mp h
    cases pure_eq_ok.mp h
    simp only [areKeyed, Bool.and_eq_true, listBareTexts, List.forall_mem_append] at hk hb
    exact List.forall_mem_cons.mpr ⟨literal_of_parts hp x hk.left (fun h => (hb h).left) t ht,
      literals_of_parts hp xs hk.right (fun h => (hb h).right) l hl⟩

theorem literalEntries_of_parts (hp : Compositional P) : (es : List (Value × Value)) →
    areKeyedEntries es → (bare → ∀ s ∈ entryBareTexts es, P s.toList) →
    ∀ l, literalEntries r bare es = .ok l → ∀ t ∈ l, P t.toList
  | [] => fun _ _ _ h => by
    cases pure_eq_ok.mp h
    nofun
  | (k, v) :: es => fun hk hb _ h => by
    have ⟨t, ht, h⟩ := bind_eq_ok.mp h
    have ⟨n, hn, h⟩ := bind_eq_ok.mp h
    have ⟨l, hl, h⟩ := bind_eq_ok.mp h
    cases pure_eq_ok.mp h
    simp only [areKeyedEntries, Bool.and_eq_true, entryBareTexts, List.forall_mem_append] at hk hb
    have hkey : P (n ++ ": ").toList := by
      cases k
      case text =>
        cases pure_eq_ok.mp hn
        exact hp.key hk.left.left
      all_goals exact nomatch hk.left.left
    have hv := literal_of_parts hp v hk.left.right (fun h => (hb h).left) t ht
    refine List.forall_mem_cons.mpr
      ⟨?_, literalEntries_of_parts hp es hk.right (fun h => (hb h).right) l hl⟩
    rw [String.toList_append]
    exact hp.append hkey hv

end

end

-- All texts are names, which need no quotes.

mutual

def namesOnly : Value → Bool
  | text s => isName s
  | list xs | tuple xs => areNamesOnly xs
  | dict es => areNamesOnlyEntries es
  | _ => true

def areNamesOnly : List Value → Bool
  | [] => true
  | x :: xs => namesOnly x && areNamesOnly xs

def areNamesOnlyEntries : List (Value × Value) → Bool
  | [] => true
  | (_, v) :: es => namesOnly v && areNamesOnlyEntries es

end

mutual

theorem isName_of_mem_bareTexts : (v : Value) → namesOnly v → ∀ s ∈ bareTexts v, isName s
  | text _ => fun h _ hs => List.mem_singleton.mp hs ▸ h
  | list xs | tuple xs => isName_of_mem_listBareTexts xs
  | dict es => isName_of_mem_entryBareTexts es
  | null | bool _ | int _ | float _ | decimal _ | date _ | dateTime _ | bytes _ | byteArray _
  | progression _ | foreign .. | enumClass .. | labelled .. | scalar _ | nodeKind _ | enumRef ..
  | objectRef _ | script _ | object _ | stream _ | enumMember .. => fun _ => nofun

theorem isName_of_mem_listBareTexts : (xs : List Value) → areNamesOnly xs →
    ∀ s ∈ listBareTexts xs, isName s
  | [] => fun _ => nofun
  | x :: xs => fun h => by
    have ⟨hx, hxs⟩ := Bool.and_eq_true_iff.mp h
    exact List.forall_mem_append.mpr
      ⟨isName_of_mem_bareTexts x hx, isName_of_mem_listBareTexts xs hxs⟩

theorem isName_of_mem_entryBareTexts : (es : List (Value × Value)) → areNamesOnlyEntries es →
    ∀ s ∈ entryBareTexts es, isName s
  | [] => fun _ => nofun
  | (_, v) :: es => fun h => by
    have ⟨hv, hes⟩ := Bool.and_eq_true_iff.mp h
    exact List.forall_mem_append.mpr
      ⟨isName_of_mem_bareTexts v hv, isName_of_mem_entryBareTexts es hes⟩

end

end Value

-- What closes a default is in no part of it.

namespace Decoding

-- Texts that hold no quote and no parenthesis.

def Unmarked (s : String) : Prop := ∀ c ∈ s.toList, c ≠ '"' ∧ c ≠ ')'

variable {s : String}

theorem closed_of_unmarked (h : Unmarked s) : Closed s.toList := by
  unfold Unmarked at h
  generalize s.toList = cs at h
  induction cs
  case nil => exact .nil
  case cons c cs hi =>
    have ⟨hc, hcs⟩ := List.forall_mem_cons.mp h
    exact .plain hc.left hc.right (hi hcs)

-- Not even the line break that may follow a name could be taken for the end.
theorem unmarked_of_isName (h : isName s) : Unmarked s := by
  intro c hc
  have hp := Name.isChar_of_isName h c hc
  constructor <;> rintro rfl <;> exact absurd hp (by decide)

theorem compositional_closed : Compositional Closed where
  plain h := closed_of_unmarked fun c hc => by
    have hp := h c hc
    constructor <;> rintro rfl <;> exact absurd hp (by decide)
  quoted s := by simpa [toList_quote] using Closed.quoted .nil
  key h := by
    rw [String.toList_append]
    exact (closed_of_unmarked (unmarked_of_isName h)).append
      (closed_of_unmarked (by simp [Unmarked]))
  append := Closed.append

end Decoding

theorem Value.closed_literal {r : Reading} {bare : Bool} (v : Value) (hk : v.isKeyed)
    (hn : bare → v.namesOnly) (t : String) (h : v.literal r bare = .ok t) : Closed t.toList := by
  refine literal_of_parts compositional_closed v hk (fun hb s hs => ?_) t h
  exact closed_of_unmarked (unmarked_of_isName (v.isName_of_mem_bareTexts (hn hb) s hs))

end GraphSchema
