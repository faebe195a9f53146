import GraphSchema.Text.Blank
import GraphSchema.Text.Digit

namespace GraphSchema

inductive Decimal
  | finite (negative : Bool) (coefficient : Nat) (exponent : Int)
  | infinite (negative : Bool)
  -- The payload is a number that may follow the letters; zero stands for none. Since none of
  -- these equals anything, each can have an identity to be known by.
  | notANumber (negative signaling : Bool) (payload : Nat) (identity : Nat)
  deriving DecidableEq, Inhabited

namespace Decimal

def isFinite : Decimal → Bool
  | finite .. => true
  | _ => false

def isNaN : Decimal → Bool
  | notANumber .. => true
  | _ => false

-- The same number; what is none takes an identity.
def identified (identity : Nat) : Decimal → Decimal
  | notANumber n s p _ => notANumber n s p identity
  | d => d

def isZero : Decimal → Bool
  | finite _ c _ => c == 0
  | _ => false

def sign (negative : Bool) : String := if negative then "-" else ""

def zeros (n : Nat) : String := String.ofList (List.replicate n '0')

def pointAfter (n : Nat) (digits : String) : String :=
  String.ofList (digits.toList.take n) ++ "." ++ String.ofList (digits.toList.drop n)

def signed (n : Int) : String := if n < 0 then toString n else "+" ++ toString n

-- Positional as long as no zero has to be added on the right and at most five after the point,
-- otherwise one digit before the point and an exponent.
def finiteText (coefficient : Nat) (exponent : Int) : String :=
  let digits := toString coefficient
  let left := exponent + digits.length
  if exponent ≤ 0 ∧ -6 < left then
    if left ≤ 0 then "0." ++ zeros (-left).toNat ++ digits
    else if exponent = 0 then digits
    else pointAfter left.toNat digits
  else
    let head := if digits.length = 1 then digits else pointAfter 1 digits
    head ++ "E" ++ signed (left - 1)

def toText : Decimal → String
  | finite n c e => sign n ++ finiteText c e
  | infinite n => sign n ++ "Infinity"
  | notANumber n s p _ =>
    sign n ++ (if s then "sNaN" else "NaN") ++ (if p = 0 then "" else toString p)

-- Reading: a sign, digits around an optional point, an optional exponent. Blanks around them and
-- underscores among them are allowed, and digits of any script.

def digits (cs : List Char) : List Char := cs.takeWhile Char.isDigit

def afterDigits (cs : List Char) : List Char := cs.dropWhile Char.isDigit

def value (ds : List Char) : Nat := Nat.ofDigitChars 10 ds 0

def takeSign : List Char → Bool × List Char
  | '-' :: cs => (true, cs)
  | '+' :: cs => (false, cs)
  | cs => (false, cs)

def exponentOf? : List Char → Option Int
  | [] => some 0
  | c :: cs =>
    let (negative, ds) := takeSign cs
    if (c = 'e' ∨ c = 'E') ∧ ds ≠ [] ∧ ds.all Char.isDigit then
      some (if negative then -(value ds : Int) else value ds)
    else none

def finiteOf? (negative : Bool) (cs : List Char) : Option Decimal := do
  let whole := digits cs
  let (places, rest) :=
    match afterDigits cs with
    | '.' :: cs => (digits cs, afterDigits cs)
    | cs => ([], cs)
  if whole = [] ∧ places = [] then none
  else
    let e ← exponentOf? rest
    some (.finite negative (value (whole ++ places)) (e - places.length))

def ofText? (s : String) : Option Decimal :=
  let (negative, cs) := takeSign (((stripBlank s.toList).filter (· != '_')).map Digit.plain)
  let payload? (signaling : Bool) (ds : List Char) : Option Decimal :=
    if ds.all Char.isDigit then some (.notANumber negative signaling (value ds) 0) else none
  match cs.map Char.toLower with
  | 'i' :: 'n' :: 'f' :: rest =>
    if rest = [] ∨ rest = "inity".toList then some (.infinite negative) else none
  | 'n' :: 'a' :: 'n' :: ds => payload? false ds
  | 's' :: 'n' :: 'a' :: 'n' :: ds => payload? true ds
  | _ => finiteOf? negative cs

def isInRange : Decimal → Bool
  | finite _ c e =>
    e + (toString c).length ≤ 1000000000000000000 && -1999999999999999997 ≤ e
  | _ => true

def dropZeros (fuel n : Nat) (e : Int) : Nat × Int :=
  match fuel with
  | 0 => (n, e)
  | fuel + 1 => if n ≠ 0 ∧ n % 10 = 0 then dropZeros fuel (n / 10) (e + 1) else (n, e)

-- One representative for each value: no zeros on the right, and zero is positive.
def normalize : Decimal → Decimal
  | finite n c e =>
    if c = 0 then finite false 0 0
    else
      let (c, e) := dropZeros (Nat.log2 c + 1) c e
      finite n c e
  | d => d

def ofInt (n : Int) : Decimal := finite (n < 0) n.natAbs 0

def equals (a b : Decimal) : Bool :=
  match a, b with
  | notANumber .., _ => false
  | _, notANumber .. => false
  | a, b => a.normalize == b.normalize

end Decimal

end GraphSchema
