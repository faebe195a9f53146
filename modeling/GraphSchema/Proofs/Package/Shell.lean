import Mathlib.Tactic.SplitIfs

namespace GraphSchema

namespace Shell

-- Where in a line a shell is: between words, in a word, in quotes, or right after a backslash.
inductive Place
  | gap
  | bare
  | single
  | double
  | escaped (place : Place)
  deriving DecidableEq

def Place.IsUnquoted (p : Place) : Prop := p = .gap ∨ p = .bare

-- Characters that shells read as nothing but text.
def isHarmless (c : Char) : Bool := c.isAlphanum || c ∈ ['-', '.', '/', '_']

end Shell

open Shell

-- What shells differ in. A character acts in a place if it is no text there: operators, comments
-- and what stands for other text. A backslash escapes some characters in double quotes, and one at
-- the end of a line may continue it.
structure Shell where
  separates : Char → Bool
  acts : Place → Char → Bool
  escapes : Char → Bool
  continues : Bool
  separates_blank : separates ' '
  not_separates {c : Char} (harmless : isHarmless c) : ¬ separates c
  not_acts {c : Char} (harmless : isHarmless c) (p : Place) : ¬ acts p c

namespace Shell

theorem not_isHarmless_of_mem {l : List Char} {c : Char} (h : l.any isHarmless = false)
    (hc : c ∈ l) : ¬ isHarmless c :=
  List.any_eq_false.mp h c hc

-- Only white space and quotes mean anything.
def splitter : Shell where
  separates c := c ∈ [' ', '\t', '\r', '\n']
  acts _ _ := false
  escapes c := c ∈ ['"', '\\']
  continues := false
  separates_blank := rfl
  not_separates h hc := not_isHarmless_of_mem rfl (of_decide_eq_true hc) h
  not_acts _ _ := Bool.false_ne_true

def operators : List Char := ['|', '&', ';', '<', '>', '(', ')', '\n']

def expansions : List Char := ['$', '`']

def patterns : List Char := ['*', '?', '[']

-- A comment and the name of a home directory start at the first character of a word.
def acting : Place → List Char
  | .gap => operators ++ expansions ++ patterns ++ ['#', '~']
  | .bare => operators ++ expansions ++ patterns
  | .double => expansions
  | _ => []

theorem any_isHarmless_acting : (p : Place) → (acting p).any isHarmless = false
  | .gap | .bare | .double | .single | .escaped _ => rfl

-- With operators, expansions, patterns and comments as well.
def posix : Shell where
  separates c := c ∈ [' ', '\t']
  acts p c := c ∈ acting p
  escapes c := c ∈ expansions ++ ['"', '\\']
  continues := true
  separates_blank := rfl
  not_separates h hc := not_isHarmless_of_mem rfl (of_decide_eq_true hc) h
  not_acts h p hc := not_isHarmless_of_mem (any_isHarmless_acting p) (of_decide_eq_true hc) h

-- The words that are done, and what there is of the next one.
structure State where
  place : Place := .gap
  done : List String := []
  word : List Char := []

namespace State

def enter (st : State) (p : Place) : State := { st with place := p }

def add (st : State) (cs : List Char) (p : Place) : State :=
  { st with place := p, word := st.word ++ cs }

def close (st : State) : State := { done := st.done ++ [String.ofList st.word] }

-- The words of a line that ends here. Quotes have to be closed.
def words? (st : State) : Option (List String) :=
  match st.place with
  | .gap => some st.done
  | .bare => some st.close.done
  | _ => none

end State

def step (sh : Shell) (st : State) (c : Char) : Option State :=
  match st.place with
  | .single => some (if c = '\'' then st.enter .bare else st.add [c] .single)
  | .double =>
    if c = '"' then some (st.enter .bare)
    else if c = '\\' then some (st.enter (.escaped .double))
    else if sh.acts .double c then none
    else some (st.add [c] .double)
  | .escaped p =>
    if c = '\n' && sh.continues then some (st.enter p)
    else if p = .double then some (st.add (if sh.escapes c then [c] else ['\\', c]) .double)
    else some (st.add [c] .bare)
  | p =>
    if sh.separates c then some (if p = .gap then st else st.close)
    else if c = '\'' then some (st.enter .single)
    else if c = '"' then some (st.enter .double)
    else if c = '\\' then some (st.enter (.escaped p))
    else if sh.acts p c then none
    else some (st.add [c] .bare)

def run (sh : Shell) (st : State) (cs : List Char) : Option State := cs.foldlM sh.step st

def words (sh : Shell) (line : String) : Option (List String) :=
  sh.run {} line.toList >>= State.words?

example : posix.words "rm  -rf 'a b' \"*.\\\"c\" d\\ e" =
    some ["rm", "-rf", "a b", "*.\"c", "d e"] := by decide +kernel

example : splitter.words "rm 'a b" = none := by decide +kernel

variable {sh : Shell} {st st' : State} {c : Char} {cs : List Char} {line : String}
  {ws : List String}

-- Text is what is put into a word as it is.
structure IsText (sh : Shell) (p : Place) (c : Char) : Prop where
  inWord : ¬ sh.separates c
  single : c ≠ '\''
  double : c ≠ '"'
  backslash : c ≠ '\\'
  passive : ¬ sh.acts p c

inductive IsPlain (sh : Shell) : List Char → Prop
  | intro {c : Char} {cs : List Char} (first : sh.IsText .gap c)
      (rest : ∀ d ∈ cs, sh.IsText .bare d) : IsPlain sh (c :: cs)

instance decidableIsText (p : Place) (c : Char) : Decidable (sh.IsText p c) :=
  decidable_of_iff (¬ sh.separates c ∧ c ≠ '\'' ∧ c ≠ '"' ∧ c ≠ '\\' ∧ ¬ sh.acts p c)
    ⟨fun ⟨w, s, d, b, a⟩ => ⟨w, s, d, b, a⟩, fun ⟨w, s, d, b, a⟩ => ⟨w, s, d, b, a⟩⟩

instance decidableIsPlain : (cs : List Char) → Decidable (sh.IsPlain cs)
  | [] => isFalse nofun
  | c :: cs =>
    have := List.decidableBAll (sh.IsText .bare) cs
    decidable_of_iff (sh.IsText .gap c ∧ ∀ d ∈ cs, sh.IsText .bare d)
      ⟨fun ⟨first, rest⟩ => ⟨first, rest⟩, fun ⟨first, rest⟩ => ⟨first, rest⟩⟩

theorem isText_of_isHarmless (h : isHarmless c) (p : Place) : sh.IsText p c where
  inWord := sh.not_separates h
  single e := absurd h (e ▸ by decide)
  double e := absurd h (e ▸ by decide)
  backslash e := absurd h (e ▸ by decide)
  passive := sh.not_acts h p

theorem isPlain_of_isHarmless (text : cs ≠ []) (h : ∀ c ∈ cs, isHarmless c) : sh.IsPlain cs := by
  cases cs
  case nil => exact absurd rfl text
  case cons c cs =>
    have ⟨hc, hcs⟩ := List.forall_mem_cons.mp h
    exact ⟨isText_of_isHarmless hc .gap, fun d hd => isText_of_isHarmless (hcs d hd) .bare⟩

theorem IsPlain.blank_not_mem (h : sh.IsPlain cs) : ' ' ∉ cs := by
  obtain ⟨first, rest⟩ := h
  rintro (_ | ⟨_, hb⟩)
  case head => exact first.inWord sh.separates_blank
  case tail => exact (rest ' ' hb).inWord sh.separates_blank

theorem IsPlain.concat (h : sh.IsPlain cs) (hc : sh.IsText .bare c) : sh.IsPlain (cs ++ [c]) := by
  obtain ⟨first, rest⟩ := h
  exact ⟨first, List.forall_mem_append.mpr ⟨rest, List.forall_mem_singleton.mpr hc⟩⟩

-- Plain words are read as they are.

theorem step_unquoted (hp : st.place.IsUnquoted) : sh.step st c =
    if sh.separates c then some (if st.place = .gap then st else st.close)
    else if c = '\'' then some (st.enter .single)
    else if c = '"' then some (st.enter .double)
    else if c = '\\' then some (st.enter (.escaped st.place))
    else if sh.acts st.place c then none
    else some (st.add [c] .bare) := by
  rcases hp with hp | hp <;> simp only [step, hp]

theorem step_text (hp : st.place.IsUnquoted) (h : sh.IsText st.place c) :
    sh.step st c = some (st.add [c] .bare) := by
  rw [step_unquoted hp, if_neg h.inWord, if_neg h.single, if_neg h.double, if_neg h.backslash,
    if_neg h.passive]

theorem run_text (h : ∀ c ∈ cs, sh.IsText .bare c) (w : List Char) (done : List String) :
    sh.run ⟨.bare, done, w⟩ cs = some ⟨.bare, done, w ++ cs⟩ := by
  induction cs generalizing w
  case nil => rw [List.append_nil]; rfl
  case cons c cs hi =>
    have ⟨hc, hcs⟩ := List.forall_mem_cons.mp h
    rw [run, List.foldlM_cons, step_text (.inr rfl) hc]
    exact (hi hcs (w ++ [c])).trans (by simp)

theorem run_of_isPlain (h : sh.IsPlain cs) (done : List String) :
    sh.run { done } cs = some ⟨.bare, done, cs⟩ := by
  obtain ⟨first, rest⟩ := h
  rw [run, List.foldlM_cons, step_text (.inl rfl) first]
  exact run_text rest _ done

theorem run_append (cs ds : List Char) :
    sh.run st (cs ++ ds) = sh.run st cs >>= (sh.run · ds) := List.foldlM_append

theorem run_intercalate (h : ∀ w ∈ ws, sh.IsPlain w.toList) (done : List String) :
    sh.run { done } (" ".intercalate ws).toList >>= State.words? = some (done ++ ws) := by
  induction ws generalizing done
  case nil => simp [run, State.words?]
  case cons w ws hi =>
    obtain ⟨hw, hws⟩ := List.forall_mem_cons.mp h
    cases ws
    case nil =>
      rw [String.intercalate_singleton, run_of_isPlain hw]
      simp [State.words?, State.close]
    case cons v ws =>
      have blank : sh.run ⟨.bare, done, w.toList⟩ " ".toList = some { done := done ++ [w] } := by
        simp [run, step, sh.separates_blank, State.close]
      rw [String.intercalate_cons_cons, String.toList_append, String.toList_append, run_append,
        run_append, run_of_isPlain hw]
      change (sh.run _ " ".toList >>= (sh.run · _)) >>= State.words? = _
      rw [blank]
      exact (hi hws _).trans (by simp)

-- A line has no more characters in its words, and blanks between them, than it has characters. It
-- has as many only if there is nothing in it but plain words and single blanks.

def sizes : List String → Nat
  | [] => 0
  | w :: ws => w.length + 1 + sizes ws

theorem sizes_concat (ws : List String) (w : String) :
    sizes (ws ++ [w]) = sizes ws + w.length + 1 := by
  induction ws
  case nil => simp [sizes]
  case cons v ws hi =>
    rw [List.cons_append, sizes, hi, sizes]
    omega

theorem length_intercalate (w : String) (ws : List String) :
    (" ".intercalate (w :: ws)).length + 1 = sizes (w :: ws) := by
  induction ws generalizing w
  case nil => simp [sizes]
  case cons v ws hi =>
    have blank : " ".length = 1 := rfl
    rw [String.intercalate_cons_cons, String.length_append, String.length_append, Nat.add_assoc,
      hi v, blank, ← sizes]

-- A backslash in double quotes may turn out to be a character of the word.
def Place.due : Place → Nat
  | .escaped .double => 1
  | _ => 0

theorem due_of_isUnquoted {p : Place} (h : p.IsUnquoted) :
    p.due = 0 ∧ (Place.escaped p).due = 0 := by
  rcases h with rfl | rfl <;> exact ⟨rfl, rfl⟩

def State.size (st : State) : Nat := sizes st.done + st.word.length + st.place.due

theorem size_enter (st : State) (p : Place) :
    (st.enter p).size + st.place.due = st.size + p.due := by
  simp [State.size, State.enter, Nat.add_right_comm]

theorem size_add (st : State) (cs : List Char) (p : Place) :
    (st.add cs p).size + st.place.due = st.size + cs.length + p.due := by
  simp only [State.size, State.add, List.length_append]
  omega

theorem size_close (st : State) : st.close.size + st.place.due = st.size + 1 := by
  simp only [State.size, State.close, sizes_concat, String.length_ofList, List.length_nil,
    Place.due]
  omega

-- Outside quotes a character is text of a word or ends one, or it is lost.
theorem step_cases (hp : st.place.IsUnquoted) (h : sh.step st c = some st') :
    sh.IsText st.place c ∧ st' = st.add [c] .bare ∨ st.place = .bare ∧ st' = st.close ∨
      st'.size ≤ st.size := by
  have ⟨due, due'⟩ := due_of_isUnquoted hp
  have lost {p : Place} (hd : p.due = 0) : (st.enter p).size ≤ st.size := by
    have size := size_enter st p
    omega
  rw [step_unquoted hp] at h
  split_ifs at h with sep gap hs hd hb act <;> cases h
  · exact .inr (.inr (Nat.le_refl _))
  · exact .inr (.inl ⟨hp.resolve_left gap, rfl⟩)
  · exact .inr (.inr (lost rfl))
  · exact .inr (.inr (lost rfl))
  · exact .inr (.inr (lost due'))
  · exact .inl ⟨⟨sep, hs, hd, hb, act⟩, rfl⟩

theorem due_le (p : Place) : p.due ≤ 1 := by
  unfold Place.due
  split <;> decide

theorem step_size (h : sh.step st c = some st') : st'.size ≤ st.size + 1 := by
  have enter {p : Place} : (st.enter p).size ≤ st.size + 1 := by
    have size := size_enter st p
    have due := due_le p
    omega
  have add {p : Place} (hd : p.due = 0) : (st.add [c] p).size ≤ st.size + 1 := by
    have size := size_add st [c] p
    rw [List.length_singleton] at size
    omega
  cases hp : st.place
  case gap | bare =>
    rcases step_cases (by simp [hp, Place.IsUnquoted]) h with ⟨_, rfl⟩ | ⟨_, rfl⟩ | lost
    · exact add rfl
    · have size := size_close st
      omega
    · exact Nat.le_succ_of_le lost
  case single =>
    simp only [step, hp] at h
    split_ifs at h <;> cases h
    · exact enter
    · exact add rfl
  case double =>
    simp only [step, hp] at h
    split_ifs at h <;> cases h
    · exact enter
    · exact enter
    · exact add rfl
  case escaped p =>
    simp only [step, hp] at h
    split_ifs at h with _ quoted <;> cases h
    · exact enter
    · exact add rfl
    · have size := size_add st ['\\', c] .double
      rw [hp, quoted] at size
      exact Nat.le_of_eq (Nat.succ.inj size)
    · exact add rfl

theorem run_size (h : sh.run st cs = some st') : st'.size ≤ st.size + cs.length := by
  induction cs generalizing st
  case nil =>
    cases h
    exact Nat.le_refl _
  case cons c cs hi =>
    rw [run, List.foldlM_cons] at h
    have ⟨st₁, hc, hcs⟩ := Option.bind_eq_some_iff.mp h
    have head := step_size hc
    have tail := hi hcs
    rw [List.length_cons]
    omega

-- Nothing has been read but plain words and a single blank after each.
structure Clean (sh : Shell) (st : State) : Prop where
  done : ∀ w ∈ st.done, sh.IsPlain w.toList
  word : st.place = .gap ∧ st.word = [] ∨ st.place = .bare ∧ sh.IsPlain st.word

theorem Clean.close (h : sh.Clean st) (hp : st.place = .bare) : sh.Clean st.close := by
  rcases h.word with ⟨gap, _⟩ | ⟨_, plain⟩
  case inl => exact absurd (gap.symm.trans hp) nofun
  case inr =>
    refine ⟨List.forall_mem_append.mpr ⟨h.done, List.forall_mem_singleton.mpr ?_⟩, .inl ⟨rfl, rfl⟩⟩
    rwa [String.toList_ofList]

theorem Clean.add (h : sh.Clean st) (hc : sh.IsText st.place c) : sh.Clean (st.add [c] .bare) := by
  refine ⟨h.done, .inr ⟨rfl, ?_⟩⟩
  rcases h.word with ⟨hp, hw⟩ | ⟨hp, plain⟩ <;> rw [hp] at hc
  case inl =>
    rw [State.add, hw]
    exact ⟨hc, nofun⟩
  case inr => exact plain.concat hc

theorem Clean.step (h : sh.Clean st) (hc : sh.step st c = some st')
    (size : st'.size = st.size + 1) : sh.Clean st' := by
  rcases step_cases (h.word.imp And.left And.left) hc with ⟨text, rfl⟩ | ⟨hp, rfl⟩ | lost
  · exact h.add text
  · exact h.close hp
  · omega

theorem Clean.run (h : sh.Clean st) (hr : sh.run st cs = some st')
    (size : st'.size = st.size + cs.length) : sh.Clean st' := by
  induction cs generalizing st
  case nil =>
    cases hr
    exact h
  case cons c cs hi =>
    rw [Shell.run, List.foldlM_cons] at hr
    have ⟨st₁, hc, hcs⟩ := Option.bind_eq_some_iff.mp hr
    have head := step_size hc
    have tail := run_size hcs
    rw [List.length_cons] at size
    exact hi (h.step hc (by omega)) hcs (by omega)

theorem words?_cases (h : st.words? = some ws) :
    sizes ws ≤ st.size ∨ st.place = .bare ∧ ws = st.close.done ∧ sizes ws = st.size + 1 := by
  rw [State.words?] at h
  split at h <;> cases h
  case h_1 =>
    left
    rw [State.size, Nat.add_assoc]
    exact Nat.le_add_right _ _
  case h_2 hp =>
    have size := size_close st
    rw [hp] at size
    exact .inr ⟨hp, rfl, size⟩

theorem isPlain_of_words (h : sh.words line = some ws) (size : sizes ws = line.length + 1) :
    ∀ w ∈ ws, sh.IsPlain w.toList := by
  have ⟨st, hr, hw⟩ := Option.bind_eq_some_iff.mp h
  have start : sh.Clean {} := ⟨nofun, .inl ⟨rfl, rfl⟩⟩
  have empty : ({} : State).size = 0 := rfl
  have bound := run_size hr
  rw [empty, Nat.zero_add, String.length_toList] at bound
  rcases words?_cases hw with short | ⟨hp, rfl, last⟩
  · omega
  · refine ((start.run hr ?_).close hp).done
    rw [empty, String.length_toList]
    omega

-- Texts are the words of the line of them exactly if each is plain.
theorem words_intercalate_iff (ws : List String) :
    sh.words (" ".intercalate ws) = some ws ↔ ∀ w ∈ ws, sh.IsPlain w.toList := by
  constructor
  · intro h
    cases ws
    case nil => nofun
    case cons w ws => exact isPlain_of_words h (length_intercalate w ws).symm
  · intro h
    exact run_intercalate h []

end Shell

end GraphSchema
