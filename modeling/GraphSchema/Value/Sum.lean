import GraphSchema.Value.Display
import GraphSchema.Value.Equality

namespace GraphSchema.Value

inductive Sum
  | text (s : String)
  | other (type : String)
  deriving DecidableEq

-- Whole numbers from here on are too large for 64-bit floating point.
def floatLimit : Nat := Nat.pow 2 1024 - Nat.pow 2 970

def areOpposite : Decimal → Decimal → Bool
  | .infinite m, .infinite n => m != n
  | _, _ => false

-- Sums of decimals are rounded to twenty-eight digits, and may not reach 10 ^ 1000000.

def lead (c : Nat) (e : Int) : Int := e + (toString c).length - 1

-- A number in tenths of the place `k`. All that is below the place counts as one tenth.
def tenths (k : Int) (negative : Bool) (c : Nat) (e : Int) : Int :=
  let dropped := (k - e).toNat
  let size :=
    if c = 0 then 0
    else if k ≤ e then 10 * (c * Nat.pow 10 (e - k).toNat)
    else if (toString c).length < dropped then 1
    else
      let unit := Nat.pow 10 dropped
      10 * (c / unit) + (if c % unit = 0 then 0 else 1)
  if negative then -size else size

-- Whether a number of tenths of the place `k` is rounded to 10 ^ 1000000 or more.
def isBeyond (k : Int) (n : Nat) : Bool :=
  let length := (toString n).length
  let last := k + length - 2
  let roundsUp := 28 < length
    && (2 * Nat.pow 10 28 - 1) * Nat.pow 10 (length - 28) ≤ 2 * n
  n != 0 && (999999 < last || (last == 999999 && roundsUp))

-- Whether the sum of two numbers is too large. No place that matters is far below the first
-- digit and all that both have.
def overflows : Decimal → Decimal → Bool
  | .finite m a i, .finite n b j =>
    let top := if a = 0 then lead b j else if b = 0 then lead a i else max (lead a i) (lead b j)
    let k := max (min i j) (top - (60 + (toString a).length + (toString b).length : Nat))
    isBeyond k (tenths k m a i + tenths k n b j).natAbs
  | _, _ => false

def floatSum? : Value → Option (Except Error Sum)
  | bool _ | float _ | labelled (.float _) _ => some (.ok (.other "float"))
  | int n | labelled (.int n) _ => some <|
    if n.natAbs < floatLimit then .ok (.other "float") else .error (.arithmetic .tooLarge)
  | _ => none

def decimalSum (d e : Decimal) : Except Error Sum :=
  if (decimal d).isSignaling || (decimal e).isSignaling || areOpposite d e then
    .error (.arithmetic .signaling)
  else if overflows d e then .error (.arithmetic .overflow)
  else .ok (.other "decimal.Decimal")

def decimalSum? (d : Decimal) : Value → Option (Except Error Sum)
  | float _ | labelled (.float _) _ => none
  | v => v.number?.map (decimalSum d)

-- Whole numbers are taken for indents before this, so they do not stand on the left.
def sum (ref : Ref → String) (a b : Value) : Except Error Sum :=
  let left := a.typeName ref
  let right := b.typeName ref
  let unsupported : Except Error Sum := .error (.type (.cannotAdd left right))
  match a, b with
  | text s, text t => .ok (.text (s ++ t))
  | list _, list _ | tuple _, tuple _ => .ok (.other left)
  | bytes _, b | byteArray _, b =>
    if b.octets?.isSome then .ok (.other left) else .error (.type (.cannotConcatBytes left right))
  | text _, _ | list _, _ | tuple _, _ => .error (.type (.cannotConcat left right))
  | float _, b | labelled (.float _) _, b => (floatSum? b).getD unsupported
  | decimal d, b | labelled (.decimal d) _, b => (decimalSum? d b).getD unsupported
  | _, _ => unsupported

-- The texts in a list of sums, which have to be texts all.
def Sum.texts (index : Nat) : List Sum → Except Error (List String)
  | [] => return []
  | text s :: ss => return s :: (← texts (index + 1) ss)
  | other t :: _ => throw (.type (.notText index t))

theorem Sum.texts_map (index : Nat) (ss : List String) :
    Sum.texts index (ss.map .text) = .ok ss := by
  induction ss generalizing index with
  | nil => rfl
  | cons s ss ih => simp [texts, ih, pure, Except.pure, bind, Except.bind]

end GraphSchema.Value
