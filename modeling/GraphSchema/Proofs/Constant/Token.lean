import GraphSchema.Proofs.Constant.Basic
import GraphSchema.Proofs.Constant.Scan

namespace GraphSchema

-- Strings. The quotes around them are not read here.

namespace Quoted

def hexValue? (c : Char) : Option Nat :=
  if c.isDigit then some (c.toNat - '0'.toNat)
  else if 'a' ≤ c ∧ c ≤ 'f' then some (10 + c.toNat - 'a'.toNat)
  else if 'A' ≤ c ∧ c ≤ 'F' then some (10 + c.toNat - 'A'.toNat)
  else none

-- A UTF-16 unit in four hexadecimal digits.
def unit? : List Char → Option (Nat × List Char)
  | a :: b :: c :: d :: cs => do
    let n := 16 * (← hexValue? a) + (← hexValue? b)
    return (16 * (16 * n + (← hexValue? c)) + (← hexValue? d), cs)
  | _ => none

def isHigh (n : Nat) : Bool := 0xD800 ≤ n && n < 0xDC00

def isLow (n : Nat) : Bool := 0xDC00 ≤ n && n < 0xE000

-- A character in one unit or two. Half of a pair is none.
def units? (cs : List Char) : Option (Char × List Char) := do
  let (n, rest) ← unit? cs
  if isHigh n then
    match rest with
    | '\\' :: 'u' :: cs =>
      let (m, rest) ← unit? cs
      if isLow m then return (Char.ofNat (0x10000 + 0x400 * (n - 0xD800) + (m - 0xDC00)), rest)
      else none
    | _ => none
  else if isLow n then none
  else return (Char.ofNat n, rest)

def short? : Char → Option Char
  | '"' => some '"'
  | '\\' => some '\\'
  | '/' => some '/'
  | 'b' => some '\x08'
  | 'f' => some '\x0c'
  | 'n' => some '\n'
  | 'r' => some '\r'
  | 't' => some '\t'
  | _ => none

def isLineEnd (c : Char) : Bool := c == '\n' || c == '\r'

def char? : List Char → Option (Char × List Char)
  | [] => none
  | '\\' :: 'u' :: cs => units? cs
  | '\\' :: c :: cs => return (← short? c, cs)
  | c :: cs => if c = '"' ∨ c = '\\' ∨ isLineEnd c then none else some (c, cs)

def turn? : List Char → Option (Turn Char)
  | '"' :: rest => some (.stop rest)
  | cs => do
    let (c, rest) ← char? cs
    return .take c rest

def decode? (cs : List Char) : Option (List Char × List Char) := scan turn? 0 cs

end Quoted

-- Numbers.

namespace Decimal

-- Digits with no zero before others.
def whole? (cs : List Char) : Option (List Char × List Char) :=
  let ds := digits cs
  if ds = [] ∨ (ds.head? = some '0' ∧ ds ≠ ['0']) then none else some (ds, afterDigits cs)

def places? : List Char → Option (List Char × List Char)
  | '.' :: cs => if digits cs = [] then none else some (digits cs, afterDigits cs)
  | cs => some ([], cs)

def power? : List Char → Option (Int × List Char)
  | [] => some (0, [])
  | c :: cs =>
    if c = 'e' ∨ c = 'E' then
      let (negative, cs) := takeSign cs
      if digits cs = [] then none
      else some ((if negative then -1 else 1) * value (digits cs), afterDigits cs)
    else some (0, c :: cs)

-- Nothing follows that could belong to a number.
def endsBefore : List Char → Bool
  | [] => true
  | c :: _ => ! (Name.isPart c || c == '.')

def minus : List Char → Bool × List Char
  | '-' :: cs => (true, cs)
  | cs => (false, cs)

def number? (cs : List Char) : Option (ℚ × List Char) := do
  let (negative, cs) := minus cs
  let (whole, cs) ← whole? cs
  let (places, cs) ← places? cs
  let (e, cs) ← power? cs
  if endsBefore cs then
    return (rational negative (value (whole ++ places)) (e - places.length), cs)
  else none

end Decimal

inductive Token
  | listOpen
  | listClose
  | objectOpen
  | objectClose
  | colon
  | name (s : String)
  | number (q : ℚ)
  | text (s : String)
  deriving DecidableEq

namespace Token

def read? : List Char → Option (Token × List Char)
  | [] => none
  | '[' :: cs => some (listOpen, cs)
  | ']' :: cs => some (listClose, cs)
  | '\x7b' :: cs => some (objectOpen, cs)
  | '\x7d' :: cs => some (objectClose, cs)
  | ':' :: cs => some (colon, cs)
  -- A block string, which is no one-line string.
  | '"' :: '"' :: '"' :: _ => none
  | '"' :: cs => do
    let (s, rest) ← Quoted.decode? cs
    return (text (String.ofList s), rest)
  | c :: cs =>
    if Name.isStart c then
      some (name (String.ofList ((c :: cs).takeWhile Name.isPart)), cs.dropWhile Name.isPart)
    else do
      let (q, rest) ← Decimal.number? (c :: cs)
      return (number q, rest)

-- Blanks, line ends, commas and byte order marks.
def isIgnored (c : Char) : Bool :=
  c == ' ' || c == '\t' || Quoted.isLineEnd c || c == ',' || c == '\uFEFF'

def turn? : List Char → Option (Turn Token)
  | [] => some (.stop [])
  | c :: cs =>
    if isIgnored c then some (.take none cs)
    else if c = '#' then some (.take none (cs.dropWhile (! Quoted.isLineEnd ·)))
    else do
      let (t, rest) ← read? (c :: cs)
      return .take t rest

end Token

def tokens? (cs : List Char) : Option (List Token) := do
  let (ts, _) ← scan Token.turn? 0 cs
  return ts

example : tokens? "[-1.50e1, \x7bk: \"a\\\"\\u00e9\\ud83d\\ude00\"\x7d] # x".toList =
    some [.listOpen, .number (-15), .objectOpen, .name "k", .colon, .text "a\"é😀", .objectClose,
      .listClose] := by
  decide +kernel

end GraphSchema
