namespace GraphSchema

-- What is done at one place of a text: reading ends there, or goes on behind something that
-- was found, or behind something of no account.
inductive Turn (α : Type)
  | stop (rest : List Char)
  | take (found : Option α) (rest : List Char)

-- All that is found up to the end of reading, and what follows. Of the text, the first `n`
-- characters belong to what was found last.
def scan {α : Type} (turn? : List Char → Option (Turn α)) :
    (n : Nat) → List Char → Option (List α × List Char)
  | n + 1, _ :: cs => scan turn? n cs
  | _ + 1, [] => none
  | 0, [] =>
    match turn? [] with
    | some (.stop rest) => some ([], rest)
    | _ => none
  | 0, c :: cs =>
    match turn? (c :: cs) with
    | some (.stop rest) => some ([], rest)
    | some (.take found rest) => do
      let (more, rest) ← scan turn? (cs.length - rest.length) cs
      return (found.toList ++ more, rest)
    | none => none

namespace Scan

variable {α : Type} {turn? : List Char → Option (Turn α)} {cs rest : List Char}

theorem scan_stop (h : turn? cs = some (.stop rest)) : scan turn? 0 cs = some ([], rest) := by
  cases cs <;> simp [scan, h]

theorem scan_behind (w : List Char) : scan turn? w.length (w ++ cs) = scan turn? 0 cs := by
  induction w
  case nil => rfl
  case cons c w hi => exact hi

theorem scan_take {w : List Char} {found : Option α} (hw : w ≠ [])
    (h : turn? (w ++ cs) = some (.take found cs)) :
    scan turn? 0 (w ++ cs) =
      (scan turn? 0 cs).map fun (more, rest) => (found.toList ++ more, rest) := by
  obtain ⟨c, w, rfl⟩ := List.exists_cons_of_ne_nil hw
  rw [List.cons_append] at h ⊢
  have hl : (w ++ cs).length - cs.length = w.length := by simp
  simp only [scan, h, hl, scan_behind]
  cases scan turn? 0 cs <;> rfl

-- A run of characters, or bytes, of one class, up to one that is in it no more.

section

variable {β : Type} {p : β → Bool} {w rest : List β}

theorem takeWhile_append (hw : ∀ c ∈ w, p c) (hr : ∀ c ∈ rest.head?, p c = false) :
    (w ++ rest).takeWhile p = w := by
  rw [List.takeWhile_append_of_pos hw]
  cases rest
  case nil => simp
  case cons c cs => simp [hr c rfl]

theorem dropWhile_append (hw : ∀ c ∈ w, p c) (hr : ∀ c ∈ rest.head?, p c = false) :
    (w ++ rest).dropWhile p = rest := by
  rw [List.dropWhile_append_of_pos hw]
  cases rest
  case nil => rfl
  case cons c cs => simp [hr c rfl]

end

end Scan

end GraphSchema
