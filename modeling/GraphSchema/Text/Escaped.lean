import GraphSchema.Text.Printable
import GraphSchema.Text.Quoted

namespace GraphSchema

namespace Escaped

def hex (width n : Nat) : List Char :=
  (List.range width).map fun i => Quoted.hexDigit (n / Nat.pow 16 (width - 1 - i))

-- Single quotes, unless those are in the text and double ones are not.
def delimiter (cs : List Char) : Char :=
  if '\'' ∈ cs ∧ '"' ∉ cs then '"' else '\''

def code (n : Nat) : List Char :=
  if n < 0x100 then '\\' :: 'x' :: hex 2 n
  else if n < 0x10000 then '\\' :: 'u' :: hex 4 n
  else '\\' :: 'U' :: hex 8 n

def char (isEscaped : Char → Bool) (c : Char) : List Char :=
  if c = '\\' ∨ isEscaped c then ['\\', c]
  else if c = '\n' then ['\\', 'n']
  else if c = '\r' then ['\\', 'r']
  else if c = '\t' then ['\\', 't']
  else if isPrintable c then [c]
  else code c.toNat

def text (s : String) : String :=
  let q := delimiter s.toList
  String.ofList (q :: s.toList.flatMap (char (· == q)) ++ [q])

def byte (isEscaped : Char → Bool) (b : UInt8) : List Char :=
  if b < 0x7F then char isEscaped (Char.ofNat b.toNat) else code b.toNat

def chars (bs : List UInt8) : List Char := bs.map fun b => Char.ofNat b.toNat

def bytes (bs : List UInt8) : String :=
  let q := delimiter (chars bs)
  String.ofList ('b' :: q :: bs.flatMap (byte (· == q)) ++ [q])

-- The form of a growable array: a single quote is escaped whatever the delimiter.
def byteArray (bs : List UInt8) : String :=
  let q := delimiter (chars bs)
  let inner := 'b' :: q :: bs.flatMap (byte (· == '\'')) ++ [q]
  "bytearray(" ++ String.ofList inner ++ ")"

end Escaped

end GraphSchema
