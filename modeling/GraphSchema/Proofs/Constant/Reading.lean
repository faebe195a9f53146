import GraphSchema.Proofs.Constant.Double
import GraphSchema.Proofs.Constant.Literal
import GraphSchema.Proofs.Name.Grammar
import GraphSchema.Proofs.Value.Keyed

namespace GraphSchema

open Outcome Token

namespace Constant

-- No word may go on behind the text.
def Reads (t : String) (c : Constant) : Prop :=
  ∃ ts, Derives ts c ∧ ∀ rest, Ends rest → Lexes t.toList ts rest

variable {t k : String} {c : Constant} {ls : List String} {cs : List Constant}
  {fs : List (String × Constant)}

theorem Reads.writes (h : Reads t c) : Writes t.toList c := by
  have ⟨ts, hd, hl⟩ := h
  have hl := hl [] nofun
  rw [Lexes, List.append_nil, show tokens? [] = some [] from rfl] at hl
  exact ⟨ts, by simpa using hl, hd⟩

theorem reads_name (h : IsWord t) : Reads t (.ofName t) := ⟨_, .name, fun _ => lexes_name h⟩

theorem exists_reads_of_isNumber (h : Decimal.IsNumber t.toList) : ∃ q, Reads t (.number q) :=
  have ⟨q, hq⟩ := h.exists_spells
  ⟨q, _, .number, fun _ => lexes_number hq⟩

theorem reads_quote (s : String) : Reads (quote s) (.text s) := ⟨_, .text, fun _ => lexes_text⟩

theorem exists_items (h : List.Forall₂ Reads ls cs) :
    ∃ ts, DerivesItems ts cs ∧ ∀ rest, Ends rest → Lexes (", ".intercalate ls).toList ts rest := by
  induction h
  case nil => exact ⟨[], .nil, fun _ _ => .nil⟩
  case cons h _ hi =>
    have ⟨_, hd, hl⟩ := h
    have ⟨_, hds, hls⟩ := hi
    exact ⟨_, .cons hd hds, fun _ => lexes_intercalate_cons hl hls⟩

theorem reads_list (h : List.Forall₂ Reads ls cs) :
    Reads ("[" ++ ", ".intercalate ls ++ "]") (.list cs) :=
  have ⟨_, hd, hl⟩ := exists_items h
  ⟨_, .list hd, fun _ _ => by simpa using lexes_list hl⟩

-- A key in front of a constant.
def ReadsField (t : String) (f : String × Constant) : Prop :=
  IsWord f.1 ∧ ∃ u, t = f.1 ++ ": " ++ u ∧ Reads u f.2

theorem exists_fields (h : List.Forall₂ ReadsField ls fs) :
    ∃ ts, DerivesFields ts fs ∧ ∀ rest, Ends rest → Lexes (", ".intercalate ls).toList ts rest := by
  induction h
  case nil => exact ⟨[], .nil, fun _ _ => .nil⟩
  case cons h _ hi =>
    obtain ⟨hk, _, rfl, _, hd, hl⟩ := h
    have ⟨_, hds, hls⟩ := hi
    exact ⟨_, .cons hd hds,
      fun _ => lexes_intercalate_cons (fun _ h => lexes_field hk (hl _ h)) hls⟩

theorem reads_object (h : List.Forall₂ ReadsField ls fs) :
    Reads ("\x7b" ++ ", ".intercalate ls ++ "\x7d") (.object fs) :=
  have ⟨_, hd, hl⟩ := exists_fields h
  ⟨_, .object hd, fun _ _ => by simpa using lexes_object hl⟩

-- Texts in which reading stops at something that is no word, whatever follows them.

def Unread (t : String) : Prop := ∀ rest, tokens? (t.toList ++ rest) = none

namespace Unread

variable {s t : String} {ts : List Token}

theorem append (h : Unread s) : Unread (s ++ t) := by
  intro rest
  rw [String.toList_append, List.append_assoc]
  exact h _

theorem behind (h : Unread t) (hs : ∀ rest, Lexes s.toList ts (t.toList ++ rest)) :
    Unread (s ++ t) := by
  intro rest
  rw [String.toList_append, List.append_assoc, hs rest, h rest]
  rfl

theorem not_writes (h : Unread t) (c : Constant) : ¬ Writes t.toList c := by
  intro ⟨ts, ht, _⟩
  have stuck := h []
  rw [List.append_nil, ht] at stuck
  exact nomatch stuck

theorem intercalate_cons (h : Unread t) (ls : List String) :
    Unread (", ".intercalate (t :: ls)) := by
  cases ls
  case nil => exact h
  case cons u ls =>
    rw [String.intercalate_cons_cons, String.append_assoc]
    exact h.append

theorem intercalate_behind (h : Unread (", ".intercalate ls))
    (hs : ∀ rest, Ends rest → Lexes s.toList ts rest) : Unread (", ".intercalate (s :: ls)) := by
  cases ls
  case nil => exact nomatch h []
  case cons u ls =>
    rw [String.intercalate_cons_cons, String.append_assoc]
    have comma : Unread (", " ++ ", ".intercalate (u :: ls)) := h.behind fun _ =>
      (lexes_ignored (c := ',') rfl).append (lexes_ignored (c := ' ') rfl)
    refine comma.behind fun rest => hs _ ?_
    rw [String.toList_append]
    rintro _ ⟨⟩
    decide

theorem list (h : Unread (", ".intercalate ls)) : Unread ("[" ++ ", ".intercalate ls ++ "]") :=
  (h.behind (s := "[") fun _ => lexes_read (by decide) rfl).append

-- No word has a dot in it, and no number begins with one.
theorem dotted {n : String} (h : IsWord s) : Unread (s ++ "." ++ n) := by
  have dot : Unread ("." ++ n) := fun rest => by
    rw [String.toList_append]
    rfl
  rw [String.append_assoc]
  refine dot.behind fun rest => lexes_word h ?_
  rw [String.toList_append]
  rintro _ ⟨⟩
  rfl

end Unread

-- A text is read, or it is not because of something that is written by its name in it.

inductive Shown {γ : Type} (R : String → γ → Prop) : Bool → String → Prop
  | read {t : String} {c : γ} (h : R t c) : Shown R false t
  | unread {t : String} (h : Unread t) : Shown R true t

inductive ItemsShown {γ : Type} (R : String → γ → Prop) : Bool → List String → Prop
  | read {ls : List String} {cs : List γ} (h : List.Forall₂ R ls cs) : ItemsShown R false ls
  | unread {ls : List String} (h : Unread (", ".intercalate ls)) : ItemsShown R true ls

theorem ItemsShown.cons {γ : Type} {R : String → γ → Prop} {a b : Bool}
    (lexes : ∀ {t c}, R t c → ∃ ts, ∀ rest, Ends rest → Lexes t.toList ts rest)
    (h : Shown R a t) (hs : ItemsShown R b ls) : ItemsShown R (a || b) (t :: ls) := by
  cases h
  case unread h => exact .unread (h.intercalate_cons ls)
  case read h =>
    cases hs
    case read hs => exact .read (.cons h hs)
    case unread hs =>
      have ⟨_, ht⟩ := lexes h
      exact .unread (hs.intercalate_behind ht)

theorem Reads.lexes (h : Reads t c) : ∃ ts, ∀ rest, Ends rest → Lexes t.toList ts rest :=
  h.imp fun _ h => h.right

theorem ReadsField.lexes {f : String × Constant} (h : ReadsField t f) :
    ∃ ts, ∀ rest, Ends rest → Lexes t.toList ts rest := by
  obtain ⟨hk, _, rfl, _, _, hl⟩ := h
  exact ⟨_, fun rest h => lexes_field hk (hl rest h)⟩

theorem Shown.field {b : Bool} (hk : IsWord k) (h : Shown Reads b t) :
    Shown ReadsField b (k ++ ": " ++ t) := by
  cases h
  case read c h => exact .read (c := (k, c)) ⟨hk, t, rfl, h⟩
  case unread h =>
    have key (rest : List Char) :
        Lexes (k ++ ": " ++ "").toList [.name k, .colon] (t.toList ++ rest) := lexes_field hk .nil
    rw [String.append_empty] at key
    exact .unread (h.behind key)

theorem ItemsShown.list {b : Bool} (h : ItemsShown Reads b ls) :
    Shown Reads b ("[" ++ ", ".intercalate ls ++ "]") := by
  cases h
  case read h => exact .read (reads_list h)
  case unread h => exact .unread h.list

theorem ItemsShown.object {b : Bool} (h : ItemsShown ReadsField b ls) :
    Shown Reads b ("\x7b" ++ ", ".intercalate ls ++ "\x7d") := by
  cases h
  case read h => exact .read (reads_object h)
  case unread h =>
    exact .unread (h.behind (s := "\x7b") fun _ => lexes_read (by decide) rfl).append

end Constant

theorem Number.isNumber_toText (n : Number) (h : n.isFinite) :
    Decimal.IsNumber n.toText.toList := by
  cases n
  case int n => exact .inl (Decimal.isInteger_toString n)
  case float x => exact Double.isNumber_toText h
  case decimal d =>
    cases d
    case finite n c e => exact Decimal.isNumber_toText n c e
    all_goals exact nomatch h

namespace Value

open Constant

-- A number among these is written by its name.

mutual

def isNamed : Value → Bool
  | labelled _ l => l.scope.isSome
  | list xs | tuple xs => areNamed xs
  | dict es => areNamedEntries es
  | _ => false

def areNamed : List Value → Bool
  | [] => false
  | x :: xs => isNamed x || areNamed xs

def areNamedEntries : List (Value × Value) → Bool
  | [] => false
  | (_, v) :: es => isNamed v || areNamedEntries es

end

variable {r : Reading} {bare : Bool}

theorem shown_number {n : Number} (h : n.isFinite) : Shown Reads false n.toText :=
  have ⟨_, h⟩ := exists_reads_of_isNumber (n.isNumber_toText h)
  .read h

theorem shown_label {n : Number} (l : Label) (h : n.isFinite) :
    Shown Reads l.scope.isSome (l.text n) := by
  unfold Label.text
  split
  case h_1 e =>
    rw [e]
    exact shown_number h
  case h_2 s e =>
    rw [e]
    exact .unread (.dotted (l.words.right s e))

mutual

theorem exists_shown : (v : Value) → isConstant v → (∀ k ∈ keys v, IsWord k) →
    ∃ t, literal r false v = .ok t ∧ Shown Reads (isNamed v) t
  | null => fun _ _ => ⟨_, rfl, .read (reads_name (by decide))⟩
  | bool true => fun _ _ => ⟨_, rfl, .read (reads_name (by decide))⟩
  | bool false => fun _ _ => ⟨_, rfl, .read (reads_name (by decide))⟩
  | int n => fun _ _ => ⟨_, rfl, shown_number (n := .int n) rfl⟩
  | float x => fun h _ => ⟨_, rfl, shown_number (n := .float x) h⟩
  | decimal d => fun h _ => ⟨_, rfl, shown_number (n := .decimal d) h⟩
  | labelled _ l => fun h _ => ⟨_, rfl, shown_label l h⟩
  | text s => fun _ _ => ⟨_, rfl, .read (reads_quote s)⟩
  | list xs | tuple xs => fun h hk =>
    have ⟨_, hl, hx⟩ := exists_shownAll xs h hk
    ⟨_, bind_eq_ok.mpr ⟨_, hl, rfl⟩, hx.list⟩
  | dict es => fun h hk =>
    have ⟨_, hl, hx⟩ := exists_shownEntries es h hk
    ⟨_, bind_eq_ok.mpr ⟨_, hl, rfl⟩, hx.object⟩
  | date _ | dateTime _ | bytes _ | byteArray _ | progression _ | foreign .. | enumClass ..
  | scalar _ | nodeKind _ | enumRef .. | objectRef _ | script _ | object _ | stream _
  | enumMember .. => fun h => nomatch h

theorem exists_shownAll : (xs : List Value) → areConstants xs → (∀ k ∈ listKeys xs, IsWord k) →
    ∃ ls, literals r false xs = .ok ls ∧ ItemsShown Reads (areNamed xs) ls
  | [] => fun _ _ => ⟨[], rfl, .read .nil⟩
  | x :: xs => fun h hk => by
    rw [areConstants, Bool.and_eq_true] at h
    rw [listKeys, List.forall_mem_append] at hk
    have ⟨_, ht, hx⟩ := exists_shown x h.left hk.left
    have ⟨_, hl, hxs⟩ := exists_shownAll xs h.right hk.right
    exact ⟨_, bind_eq_ok.mpr ⟨_, ht, bind_eq_ok.mpr ⟨_, hl, rfl⟩⟩, .cons Reads.lexes hx hxs⟩

theorem exists_shownEntries : (es : List (Value × Value)) → areConstantEntries es →
    (∀ k ∈ entryKeys es, IsWord k) →
    ∃ ls, literalEntries r false es = .ok ls ∧ ItemsShown ReadsField (areNamedEntries es) ls
  | [] => fun _ _ => ⟨[], rfl, .read .nil⟩
  | (w, v) :: es => fun h hk => by
    rw [areConstantEntries, Bool.and_eq_true, Bool.and_eq_true] at h
    rw [entryKeys, List.forall_mem_append, List.forall_mem_append] at hk
    obtain ⟨k, rfl, _⟩ := isNameText_iff.mp h.left.left
    have ⟨t, ht, hx⟩ := exists_shown v h.left.right hk.left.right
    have ⟨ls, hl, hxs⟩ := exists_shownEntries es h.right hk.right
    have word : IsWord k := hk.left.left k (List.mem_singleton_self k)
    exact ⟨_, bind_eq_ok.mpr ⟨_, ht, bind_eq_ok.mpr ⟨_, rfl, bind_eq_ok.mpr ⟨_, hl, rfl⟩⟩⟩,
      .cons ReadsField.lexes (.field word hx) hxs⟩

end

end Value

end GraphSchema
