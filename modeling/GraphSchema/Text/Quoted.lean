namespace GraphSchema

namespace Quoted

def hexDigit (n : Nat) : Char := Nat.digitChar (n % 16)

def hex (n : Nat) : List Char :=
  [hexDigit (n / 4096), hexDigit (n / 256), hexDigit (n / 16), hexDigit n]

def unit (n : Nat) : List Char := '\\' :: 'u' :: hex n

-- A character above the first plane takes two units.
def units (c : Char) : List Char :=
  let n := c.toNat
  if n < 0x10000 then unit n
  else unit (0xD800 + (n - 0x10000) / 0x400) ++ unit (0xDC00 + (n - 0x10000) % 0x400)

def escape (c : Char) : List Char :=
  match c with
  | '"' => ['\\', '"']
  | '\\' => ['\\', '\\']
  | '\n' => ['\\', 'n']
  | '\r' => ['\\', 'r']
  | '\t' => ['\\', 't']
  | '\x08' => ['\\', 'b']
  | '\x0c' => ['\\', 'f']
  | c => if ' ' ≤ c ∧ c ≤ '~' then [c] else units c

def encode (cs : List Char) : List Char := cs.flatMap escape

@[simp]
theorem encode_nil : encode [] = [] := rfl

@[simp]
theorem encode_cons (c : Char) (cs : List Char) : encode (c :: cs) = escape c ++ encode cs := rfl

end Quoted

def quote (s : String) : String :=
  String.ofList ('"' :: Quoted.encode s.toList ++ ['"'])

theorem toList_quote (s : String) :
    (quote s).toList = '"' :: (Quoted.encode s.toList ++ ['"']) := by
  simp [quote]

def quoteList (ss : List String) : String :=
  "[" ++ ", ".intercalate (ss.map quote) ++ "]"

end GraphSchema
