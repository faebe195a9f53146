import GraphSchema.Plan.Printing
import GraphSchema.Text.Dedent

namespace GraphSchema.Store

-- Texts.

def sayText (t : Except Error String) : Decision := return .say (.text (← t))

def nameTest (v : Value) : Plan := .say (.bool v.isNameText)

def quoteOf (σ : Store) (v : Value) : Decision := sayText ((σ.settle v).json σ.typeName)

def quoteItems (σ : Store) (v : Value) : Decision := do
  let items := (← σ.items v).map σ.settle
  return .say (.text ("[" ++ ", ".intercalate (← Value.jsons σ.typeName items) ++ "]"))

def dedentOf (σ : Store) (v : Value) : Decision :=
  match v with
  | .text s => return .say (.text (dedent s))
  | .bytes _ | .byteArray _ => throw (.type .patternOnBytes)
  | v => throw (.type (.notPattern (v.typeName σ.typeName)))

def literalOf (σ : Store) (v bare : Value) : Decision :=
  sayText ((σ.settle v).literal σ.reading (σ.isTrue bare))

def scalarNamed (σ : Store) (v : Value) : Decision :=
  match v with
  | .scalar s => return .say (.scalar s)
  | v =>
    match v.text?.bind Scalar.ofName? with
    | some s => return .say (.scalar s)
    | none => do throw (.value (.notAScalar (← σ.display v)))

-- Collections.

def size? (σ : Store) : Value → Option Nat
  | .stream _ => none
  | .progression p => some p.size
  | v => (σ.items? v).map (·.length)

def sizeOf (σ : Store) (v : Value) : Decision :=
  match σ.size? v with
  | some n =>
    if n < indexLimit then return .say (.int n) else throw (.arithmetic .tooLong)
  | none => throw (.type (.noSize (v.typeName σ.typeName)))

def itemsOf (σ : Store) (v : Value) : Decision := return .say (.list (← σ.listed v))

def isInfix {α : Type} [BEq α] (xs : List α) : List α → Bool
  | [] => xs.isEmpty
  | y :: ys => xs.isPrefixOf (y :: ys) || isInfix xs ys

def containsOctets (σ : Store) (bs : List UInt8) (x : Value) : Except Error Bool :=
  let one (n : Int) : Except Error Bool :=
    if 0 ≤ n ∧ n < 256 then .ok (bs.any (·.toNat == n.toNat)) else .error (.value .octet)
  match x with
  | .int n | .labelled (.int n) _ => one n
  | .bool b => one (if b then 1 else 0)
  | x =>
    match x.octets? with
    | some ys => return isInfix ys bs
    | none => throw (.type (.notOctets (x.typeName σ.typeName)))

def containsMember (σ : Store) (members : List Value) (x : Value) : Except Error Bool :=
  match x with
  | .enumMember .. | .labelled .. | .scalar _ | .nodeKind _ => return members.any (σ.equals x)
  | x => throw (.type (.noMembership (x.shortTypeName σ.typeName)))

def containsIn (σ : Store) (c x : Value) : Except Error Bool :=
  let hashed (b : Bool) : Except Error Bool :=
    match σ.keyFault? x with
    | some t => throw (.type t)
    | none => return b
  match c with
  | .text s =>
    match x with
    | .text t => return isInfix t.toList s.toList
    | x => throw (.type (.textInclusion (x.typeName σ.typeName)))
  | .dict es => hashed (es.any fun (k, _) => σ.alike k x)
  | .object (.registry r) => hashed (x.text?.any (· ∈ (σ.registry r).names))
  | .bytes bs | .byteArray bs => σ.containsOctets bs x
  | .enumClass id name ms => σ.containsMember (Value.membersOf id name ms) x
  | .progression p =>
    match x with
    | .int n => return p.contains n
    | .bool b => return p.contains (if b then 1 else 0)
    | x => σ.isAmong x (p.toList.map .int)
  | c =>
    match σ.items? c with
    | some xs => σ.isAmong x xs
    | none => throw (.type (.notContainer (c.typeName σ.typeName)))

def contains (σ : Store) (c x : Value) : Decision := return .say (.bool (← σ.containsIn c x))

def equality (σ : Store) (a b : Value) : Decision := return .say (.bool (← σ.compare a b))

def countDistinct (σ : Store) (vs : List Value) : Decision :=
  match vs.findSome? σ.keyFault? with
  | some t => throw (.type t)
  | none => return .say (.int (Value.distinct σ.same (vs.map σ.settle)).length)

def wrapTable : Plan :=
  .say <| .list <| NodeKind.directives.map fun k =>
    .list [.text k.name, .texts ((k.wraps.map (·.name)).mergeSort (· ≤ ·))]

end GraphSchema.Store
