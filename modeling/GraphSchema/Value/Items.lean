import GraphSchema.Value.Basic

namespace GraphSchema.Value

mutual

-- Every list that belongs to an object, as it is now.
def settle (own : Ref → Option (List Value)) : Value → Value
  | object r => ((own r).map list).getD (object r)
  | list xs => list (settleAll own xs)
  | tuple xs => tuple (settleAll own xs)
  | stream xs => stream (settleAll own xs)
  | dict es => dict (settleEntries own es)
  | enumMember id owner name v => enumMember id owner name (settle own v)
  | v => v

def settleAll (own : Ref → Option (List Value)) : List Value → List Value
  | [] => []
  | x :: xs => settle own x :: settleAll own xs

def settleEntries (own : Ref → Option (List Value)) :
    List (Value × Value) → List (Value × Value)
  | [] => []
  | (k, v) :: es => (settle own k, settle own v) :: settleEntries own es

end

@[simp]
theorem settle_text (own : Ref → Option (List Value)) (s : String) :
    settle own (text s) = text s := rfl

theorem settleAll_eq_map (own : Ref → Option (List Value)) (xs : List Value) :
    settleAll own xs = xs.map (settle own) := by
  induction xs with
  | nil => rfl
  | cons x xs ih => simp [settleAll, ih]

def ofOctets (bs : List UInt8) : List Value := bs.map fun b => int b.toNat

-- The members of a class, without the other names that they have.
def membersOf (owner : OutsideId) (ownerName : String) (names : List (String × String × Value)) :
    List Value :=
  (names.filter fun (n, m, _) => n == m).map fun (_, m, v) => enumMember owner ownerName m v

def items? (ref : Ref → Option (List Value)) : Value → Option (List Value)
  | list xs | tuple xs | stream xs => some xs
  | dict es => some (es.map (·.1))
  | text s => some (s.toList.map fun c => text (String.singleton c))
  | bytes bs | byteArray bs => some (ofOctets bs)
  | progression p => some (p.toList.map int)
  | enumClass id name ms => some (membersOf id name ms)
  | object r => ref r
  | _ => none

-- A value with fewer items that passes the same checks: no check tells one number of a
-- progression from another.
def front : Value → Value
  | progression p => list (if p.size = 0 then [] else [int p.start])
  | v => v

-- The items that are still there when a value is gone through a second time.
def rest : Value → List Value → List Value
  | stream _, _ => []
  | _, xs => xs

-- The items of a value that can stand for a list; text and immutable bytes cannot. From outside
-- there can be more kinds of sequences, such as queues and arrays, which are no values here.
def sequence? : Value → Option (List Value)
  | list xs | tuple xs => some xs
  | byteArray bs => some (ofOctets bs)
  | progression p => some (p.toList.map int)
  | _ => none

def isTrue (size : Ref → Option Nat) : Value → Bool
  | null => false
  | bool b => b
  | int n => n != 0
  | float x => ! x.isZero
  | decimal d => ! d.isZero
  | labelled n _ => ! n.toDecimal.isZero
  | text s => s != ""
  | bytes bs | byteArray bs => ! bs.isEmpty
  | progression p => p.size != 0
  | list xs | tuple xs => ! xs.isEmpty
  | dict es => ! es.isEmpty
  | object r => size r != some 0
  | _ => true

end GraphSchema.Value
