import GraphSchema.Value.Basic
import GraphSchema.Error

namespace GraphSchema.Value

-- Truth values count as zero and one here.
def number? : Value → Option Decimal
  | bool b => some (.ofInt (if b then 1 else 0))
  | int n => some (.ofInt n)
  | float x => some x.toDecimal
  | decimal d => some d
  | labelled n _ => some n.toDecimal
  | _ => none

def octets? : Value → Option (List UInt8)
  | bytes bs | byteArray bs => some bs
  | _ => none

def equalsNumber (d : Decimal) (v : Value) : Bool := v.number?.any d.equals

def equalsOctets (bs : List UInt8) (v : Value) : Bool := v.octets? == some bs

-- Whether two values are one and the same although they may not be equal: what is no number is
-- equal to nothing, and objects may be compared by what they hold.
def identical : Value → Value → Bool
  | float x, float y => x.isNaN && x == y
  | decimal d, decimal e => d.isNaN && d == e
  | labelled m k, labelled n l => m.toDecimal.isNaN && m == n && k == l
  | object a, object b => a == b
  | _, _ => false

mutual

-- Two objects are equal if the given relation says so; streams and scripts are equal to nothing.
-- Items and keys that are identical count as equal.
def equals (same : Ref → Ref → Bool) : Value → Value → Bool
  | null, null => true
  | bool b, v => equalsNumber (.ofInt (if b then 1 else 0)) v
  | int n, v => equalsNumber (.ofInt n) v
  | float x, v => equalsNumber x.toDecimal v
  | decimal d, v => equalsNumber d v
  | labelled n _, v => equalsNumber n.toDecimal v
  | bytes bs, v => equalsOctets bs v
  | byteArray bs, v => equalsOctets bs v
  | date a, date b => a == b
  | dateTime a, dateTime b => a.equals b
  | text a, text b => a == b
  | progression a, progression b => a.equals b
  | list as, list bs => equalsAll same as bs
  | tuple as, tuple bs => equalsAll same as bs
  | dict as, dict bs => as.length == bs.length && equalsEntries same as bs
  | foreign a _, foreign b _ => a == b
  | enumClass a _ _, enumClass b _ _ => a == b
  | enumMember o _ n _, enumMember o' _ n' _ => o == o' && n == n'
  | scalar a, scalar b => a == b
  | nodeKind a, nodeKind b => a == b
  | enumRef a _, enumRef b _ => a == b
  | objectRef a, objectRef b => a == b
  | object a, object b => same a b
  | _, _ => false

def equalsAll (same : Ref → Ref → Bool) : List Value → List Value → Bool
  | [], [] => true
  | a :: as, b :: bs => (identical a b || equals same a b) && equalsAll same as bs
  | _, _ => false

def equalsEntries (same : Ref → Ref → Bool) :
    List (Value × Value) → List (Value × Value) → Bool
  | [], _ => true
  | (k, v) :: es, fs =>
    (fs.any fun (k', v') =>
      (identical k k' || equals same k k') && (identical v v' || equals same v v'))
      && equalsEntries same es fs

end

def alike (same : Ref → Ref → Bool) (a b : Value) : Bool := identical a b || a.equals same b

def isSignaling : Value → Bool
  | decimal (.notANumber _ true _ _) | labelled (.decimal (.notANumber _ true _ _)) _ => true
  | _ => false

mutual

-- Whether comparing two values meets a signaling number, which cannot be compared with any.
def signals (same met : Ref → Ref → Bool) : Value → Value → Bool
  | list as, list bs => as.length == bs.length && signalsAny same met as bs
  | tuple as, tuple bs => signalsAny same met as bs
  | dict as, dict bs => as.length == bs.length && signalsEntries same met as bs
  | object a, object b => met a b
  | a, b => (a.isSignaling && b.number?.isSome) || (b.isSignaling && a.number?.isSome)

-- Up to the first two items that differ.
def signalsAny (same met : Ref → Ref → Bool) : List Value → List Value → Bool
  | a :: as, b :: bs =>
    (! identical a b && signals same met a b) || (alike same a b && signalsAny same met as bs)
  | _, _ => false

-- Up to the first entry that the other dictionary does not have.
def signalsEntries (same met : Ref → Ref → Bool) :
    List (Value × Value) → List (Value × Value) → Bool
  | [], _ => false
  | (k, v) :: es, fs =>
    match fs.find? fun f => alike same k f.1 with
    | none => false
    | some (_, w) =>
      (! identical v w && signals same met v w) || (alike same v w && signalsEntries same met es fs)

end

mutual

def keyFault? (ref : Ref → Option TypeFault) : Value → Option TypeFault
  | list _ => some (.unhashable "list")
  | dict _ => some (.unhashable "dict")
  | byteArray _ => some (.unhashable "bytearray")
  | tuple xs => keyFaults? ref xs
  | decimal (.notANumber _ true _ _) => some .signalingHash
  | labelled (.decimal (.notANumber _ true _ _)) _ => some .signalingHash
  | object r => ref r
  | _ => none

def keyFaults? (ref : Ref → Option TypeFault) : List Value → Option TypeFault
  | [] => none
  | x :: xs => (keyFault? ref x).or (keyFaults? ref xs)

end

-- An equal key keeps its place and takes the new value.
def insertEntry (same : Ref → Ref → Bool) (k v : Value) :
    List (Value × Value) → List (Value × Value)
  | [] => [(k, v)]
  | (k', v') :: es =>
    if alike same k' k then (k', v) :: es else (k', v') :: insertEntry same k v es

def dictOfList (same : Ref → Ref → Bool) (es : List (Value × Value)) : Value :=
  dict (es.foldl (fun ds (k, v) => insertEntry same k v ds) [])

def distinct (same : Ref → Ref → Bool) (vs : List Value) : List Value :=
  vs.foldl (fun ds v => if ds.any (alike same · v) then ds else ds ++ [v]) []

end GraphSchema.Value
