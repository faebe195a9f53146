import GraphSchema.Package.Files
import GraphSchema.Proofs.Outcome

namespace GraphSchema

namespace Lines

def IsBreak (c : Char) : Prop := c = '\n' ∨ c = '\r'

-- The end of a line before a given rest. A carriage return before a line feed is only half of it.
inductive IsEnding : List Char → List Char → Prop
  | feed (rest : List Char) : IsEnding ['\n'] rest
  | both (rest : List Char) : IsEnding ['\r', '\n'] rest
  | carriage {rest : List Char} (alone : rest.head? ≠ some '\n') : IsEnding ['\r'] rest

-- A text with its lines. A line that has an end is read with a line feed for it.
inductive Lined : List Char → List (List Char) → Prop
  | nil : Lined [] []
  | last {l : List Char} (text : l ≠ []) (whole : ∀ c ∈ l, ¬ IsBreak c) : Lined l [l]
  | line {l e rest : List Char} {ls : List (List Char)} (whole : ∀ c ∈ l, ¬ IsBreak c)
      (ending : IsEnding e rest) (more : Lined rest ls) :
    Lined (l ++ e ++ rest) ((l ++ ['\n']) :: ls)

variable {c : Char} {cs e l rest : List Char} {ls : List (List Char)}

-- Reading a part of a line, and the end of one.

theorem unify_cons (h : ¬ IsBreak c) (cs : List Char) : unify (c :: cs) = c :: unify cs := by
  have hr : c ≠ '\r' := fun e => h (.inr e)
  rw [unify]
  case x_1 => exact fun _ e => absurd e hr
  rw [if_neg hr]

theorem unify_append (h : ∀ c ∈ l, ¬ IsBreak c) (cs : List Char) :
    unify (l ++ cs) = l ++ unify cs := by
  induction l
  case nil => rfl
  case cons c l hi =>
    have ⟨hc, hl⟩ := List.forall_mem_cons.mp h
    rw [List.cons_append, unify_cons hc, hi hl, List.cons_append]

theorem unify_ending (h : IsEnding e rest) : unify (e ++ rest) = '\n' :: unify rest := by
  cases h
  case feed => rfl
  case both => rfl
  case carriage alone =>
    change unify ('\r' :: rest) = _
    cases rest
    case nil => rfl
    case cons d ds =>
      have hd : d ≠ '\n' := fun e => alone (e ▸ rfl)
      rw [unify]
      case x_1 => exact fun _ _ e => hd (List.cons.inj e).left
      rfl

theorem split_cons (h : ¬ IsBreak c) (cs : List Char) :
    split (c :: cs) = match split cs with
      | [] => [[c]]
      | l :: ls => (c :: l) :: ls := by
  rw [split]
  exact if_neg fun e => h (.inl e)

theorem split_append_feed (h : ∀ c ∈ l, ¬ IsBreak c) (cs : List Char) :
    split (l ++ '\n' :: cs) = (l ++ ['\n']) :: split cs := by
  induction l
  case nil => rfl
  case cons c l hi =>
    have ⟨hc, hl⟩ := List.forall_mem_cons.mp h
    rw [List.cons_append, split_cons hc, hi hl]
    rfl

theorem split_of_whole (text : l ≠ []) (h : ∀ c ∈ l, ¬ IsBreak c) : split l = [l] := by
  induction l
  case nil => exact absurd rfl text
  case cons c l hi =>
    have ⟨hc, hl⟩ := List.forall_mem_cons.mp h
    rw [split_cons hc]
    cases l
    case nil => rfl
    case cons d l => rw [hi nofun hl]

theorem split_unify_of_lined (h : Lined cs ls) : split (unify cs) = ls := by
  induction h
  case nil => rfl
  case last l text whole =>
    have whole' : unify l = l := by simpa [unify] using unify_append whole []
    rw [whole', split_of_whole text whole]
  case line whole ending more hi =>
    rw [List.append_assoc, unify_append whole, unify_ending ending, split_append_feed whole, hi]

theorem Lined.cons (hc : ¬ IsBreak c) (h : Lined cs ls) : ∃ ls, Lined (c :: cs) ls := by
  cases h
  case nil => exact ⟨_, .last (List.cons_ne_nil c []) (List.forall_mem_singleton.mpr hc)⟩
  case last whole =>
    exact ⟨_, .last (List.cons_ne_nil c cs) (List.forall_mem_cons.mpr ⟨hc, whole⟩)⟩
  case line whole ending more =>
    exact ⟨_, .line (List.forall_mem_cons.mpr ⟨hc, whole⟩) ending more⟩

theorem exists_lined (cs : List Char) : ∃ ls, Lined cs ls := by
  fun_induction unify cs
  case case1 => exact ⟨[], .nil⟩
  case case2 cs hi =>
    have ⟨ls, h⟩ := hi
    exact ⟨_, .line (l := []) nofun (.both cs) h⟩
  case case3 c cs pair hi =>
    have ⟨ls, h⟩ := hi
    by_cases hc : IsBreak c
    case neg => exact h.cons hc
    case pos =>
      rcases hc with rfl | rfl
      case inl => exact ⟨_, .line (l := []) nofun (.feed cs) h⟩
      case inr =>
        refine ⟨_, .line (l := []) nofun (.carriage fun hf => ?_) h⟩
        obtain ⟨ds, e⟩ := List.head?_eq_some_iff.mp hf
        exact pair ds rfl e

theorem lined_iff : Lined cs ls ↔ split (unify cs) = ls := by
  refine ⟨split_unify_of_lined, fun e => ?_⟩
  have ⟨ls', h⟩ := exists_lined cs
  exact e ▸ split_unify_of_lined h ▸ h

-- A line has no line break in it but the line feed that it may end with.
theorem Lined.exists_whole (h : Lined cs ls) (hl : l ∈ ls) :
    ∃ w, (∀ c ∈ w, ¬ IsBreak c) ∧ (l = w ∨ l = w ++ ['\n']) := by
  induction h
  case nil => exact absurd hl List.not_mem_nil
  case last w _ whole => exact ⟨w, whole, .inl (List.mem_singleton.mp hl)⟩
  case line w _ _ _ whole _ _ hi =>
    rcases List.mem_cons.mp hl with e | hl
    case inl => exact ⟨w, whole, .inr e⟩
    case inr => exact hi hl

end Lines

namespace Package.Files

open Lines Outcome

variable {fs : Files} {path s : String} {ls : List (List Char)}

-- The path leads to a file with this text.
def Holds (fs : Files) (path s : String) : Prop :=
  ∃ p, fs.find path = .ok p ∧ fs.text? p = some s

theorem exists_holds_of_readLines (h : fs.readLines path = .ok ls) :
    ∃ s, fs.Holds path s ∧ Lined s.toList ls := by
  have ⟨_, hr, e⟩ := bind_eq_ok.mp h
  have ⟨p, hp, hs⟩ := bind_eq_ok.mp hr
  split at hs
  case h_1 s ht =>
    cases pure_eq_ok.mp hs
    exact ⟨s, ⟨p, hp, ht⟩, lined_iff.mpr (pure_eq_ok.mp e)⟩
  case h_2 => exact absurd hs throw_ne_ok

theorem readLines_of_holds (h : fs.Holds path s) (hl : Lined s.toList ls) :
    fs.readLines path = .ok ls := by
  obtain ⟨p, hp, hs⟩ := h
  have text : fs.read path = .ok (unify s.toList) := by
    simp only [read, hp, hs, bind, Except.bind, pure, Except.pure]
  rw [readLines, text, ← split_unify_of_lined hl]
  rfl

end Package.Files

end GraphSchema
