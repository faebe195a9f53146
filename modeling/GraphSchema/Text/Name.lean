namespace GraphSchema

namespace Name

def isStart (c : Char) : Bool := c == '_' || c.isAlpha

def isPart (c : Char) : Bool := c == '_' || c.isAlphanum

-- A letter or underscore, then letters, digits and underscores, all of them ASCII.
def isWord : List Char → Bool
  | [] => false
  | c :: cs => isStart c && cs.all isPart

theorem isPart_of_isStart {c : Char} (h : isStart c) : isPart c := by
  simp only [isStart, isPart, Bool.or_eq_true, Char.isAlphanum] at *
  rcases h with h | h <;> simp [h]

theorem all_isPart {cs : List Char} (h : isWord cs) : cs.all isPart := by
  cases cs with
  | nil => simp
  | cons c cs =>
    simp only [isWord, Bool.and_eq_true] at h
    simp [isPart_of_isStart h.1, h.2]

-- One line break may follow the word.
def accepts (cs : List Char) : Bool :=
  isWord cs || (cs.getLast? == some '\n' && isWord cs.dropLast)

theorem accepts_of_isWord {cs : List Char} (h : isWord cs) : accepts cs := by
  simp [accepts, h]

end Name

def isName (s : String) : Bool := Name.accepts s.toList

end GraphSchema
