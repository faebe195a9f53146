import GraphSchema.Proofs.Printing.Row

namespace GraphSchema

namespace Name

def IsLetter (c : Char) : Prop := ('a' ≤ c ∧ c ≤ 'z') ∨ ('A' ≤ c ∧ c ≤ 'Z')

def IsDigit (c : Char) : Prop := '0' ≤ c ∧ c ≤ '9'

structure InGrammar (s : String) : Prop where
  start : ∃ c ∈ s.toList.head?, c = '_' ∨ IsLetter c
  each : ∀ c ∈ s.toList, c = '_' ∨ IsLetter c ∨ IsDigit c

-- A name of the grammar and a line break.
def IsBroken (s : String) : Prop := ∃ t, InGrammar t ∧ s = t ++ "\n"

variable {c : Char} {s : String}

theorem isStart_iff : isStart c ↔ c = '_' ∨ IsLetter c := by
  delta isStart Char.isAlpha Char.isUpper Char.isLower
  simp [IsLetter, Char.le_def, or_comm]

theorem isPart_iff : isPart c ↔ c = '_' ∨ IsLetter c ∨ IsDigit c := by
  have hs : isPart c ↔ isStart c ∨ c.isDigit := by simp [isPart, isStart, Char.isAlphanum, or_assoc]
  rw [hs, isStart_iff, or_assoc]
  simp [IsDigit, Char.isDigit, Char.le_def]

theorem inGrammar_iff : InGrammar s ↔ IsWord s := by
  constructor
  · rintro ⟨⟨c, hc, hs⟩, he⟩
    obtain ⟨cs, e⟩ := List.head?_eq_some_iff.mp hc
    have parts : cs.all isPart := List.all_eq_true.mpr fun d hd =>
      isPart_iff.mpr (he d (e ▸ List.mem_cons_of_mem c hd))
    simp [IsWord, e, isWord, isStart_iff.mpr hs, parts]
  · intro h
    obtain ⟨c, cs, e, hc, _⟩ := h.eq_cons
    exact ⟨⟨c, by simp [e], isStart_iff.mp hc⟩, fun d hd => isPart_iff.mp (h.isPart d hd)⟩

-- No character of a name is blank.

theorem isBlank_of_isPart (h : isPart c) : isBlank c = false := by
  rcases isPart_iff.mp h with rfl | hl | ⟨h0, h9⟩
  · decide
  · exact isBlank_of_isStart (isStart_iff.mpr (.inr hl))
  · have hl : 48 ≤ c.toNat := h0
    have hu : c.toNat ≤ 57 := h9
    simp only [isBlank, Blank.ranges, List.any_cons, List.any_nil, Bool.or_false,
      Bool.or_eq_false_iff, Bool.and_eq_false_imp, decide_eq_true_eq, decide_eq_false_iff_not]
    omega

theorem InGrammar.not_isBlank (h : InGrammar s) : ¬ ∃ c ∈ s.toList, isBlank c := by
  intro ⟨c, hc, hb⟩
  rw [isBlank_of_isPart (isPart_iff.mpr (h.each c hc))] at hb
  exact Bool.false_ne_true hb

namespace IsBroken

theorem exists_isBlank (h : IsBroken s) : ∃ c ∈ s.toList, isBlank c := by
  obtain ⟨t, _, rfl⟩ := h
  exact ⟨'\n', by simp, isBlank_newline⟩

theorem not_inGrammar (h : IsBroken s) : ¬ InGrammar s := fun hg => hg.not_isBlank h.exists_isBlank

end IsBroken

theorem isName_iff : isName s ↔ InGrammar s ∨ IsBroken s := by
  have hb : IsBroken s ↔ s.toList.getLast? = some '\n' ∧ isWord s.toList.dropLast := by
    constructor
    · rintro ⟨t, ht, rfl⟩
      have ht : IsWord t := inGrammar_iff.mp ht
      simpa [IsWord] using ht
    · intro ⟨hl, hw⟩
      have ht : IsWord (String.ofList s.toList.dropLast) := by simpa [IsWord] using hw
      refine ⟨_, inGrammar_iff.mpr ht, String.toList_injective ?_⟩
      simp [List.dropLast_append_getLast? _ hl]
  rw [hb, inGrammar_iff]
  simp [isName, accepts, IsWord]

theorem exists_isBlank_iff (h : isName s) : (∃ c ∈ s.toList, isBlank c) ↔ IsBroken s :=
  ⟨fun hc => (isName_iff.mp h).resolve_left fun hg => hg.not_isBlank hc, IsBroken.exists_isBlank⟩

end Name

namespace Value

theorem isNameText_iff {v : Value} :
    v.isNameText ↔ ∃ s, v = text s ∧ (Name.InGrammar s ∨ Name.IsBroken s) := by
  cases v
  case text s => simp [isNameText, Name.isName_iff]
  all_goals simp [isNameText]

end Value

end GraphSchema
