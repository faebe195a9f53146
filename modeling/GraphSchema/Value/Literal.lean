import GraphSchema.Value.Display
import GraphSchema.Text.Name

namespace GraphSchema.Value

structure Reading where
  display : Ref → Except Error String
  text : Ref → Except Error String

def toText (r : Reading) : Value → Except Error String
  | object o => r.text o
  | v => v.plainText r.display

mutual

def literal (r : Reading) (bare : Bool) : Value → Except Error String
  | null => return "null"
  | bool b => return if b then "true" else "false"
  | text s => return if bare then s else quote s
  | int n => return toString n
  | float x => return x.toText
  | decimal d => return d.toText
  | labelled n l => return l.text n
  | date d => return quote d.toText
  | dateTime t => return quote t.toText
  | dict es => return "\x7b" ++ ", ".intercalate (← literalEntries r bare es) ++ "\x7d"
  | list xs => return "[" ++ ", ".intercalate (← literals r bare xs) ++ "]"
  | tuple xs => return "[" ++ ", ".intercalate (← literals r bare xs) ++ "]"
  | v => do throw (.type (.noLiteral (← v.display r.display)))

def literals (r : Reading) (bare : Bool) : List Value → Except Error (List String)
  | [] => return []
  | x :: xs => return (← literal r bare x) :: (← literals r bare xs)

def literalEntries (r : Reading) (bare : Bool) :
    List (Value × Value) → Except Error (List String)
  | [] => return []
  | (k, v) :: es => do
    let value ← literal r bare v
    return ((← k.toText r) ++ ": " ++ value) :: (← literalEntries r bare es)

end

-- Infinities and what is no number have no literal.
def isNumber : Value → Bool
  | int _ => true
  | float x => x.isFinite
  | decimal d => d.isFinite
  | labelled n _ => n.isFinite
  | _ => false

def isNameText : Value → Bool
  | text s => isName s
  | _ => false

mutual

def isConstant : Value → Bool
  | null | bool _ | text _ | int _ => true
  | float x => x.isFinite
  | decimal d => d.isFinite
  | labelled n _ => n.isFinite
  | list xs | tuple xs => areConstants xs
  | dict es => areConstantEntries es
  | _ => false

def areConstants : List Value → Bool
  | [] => true
  | x :: xs => isConstant x && areConstants xs

def areConstantEntries : List (Value × Value) → Bool
  | [] => true
  | (k, v) :: es => isNameText k && isConstant v && areConstantEntries es

end

theorem areConstants_iff {xs : List Value} : areConstants xs ↔ ∀ x ∈ xs, isConstant x := by
  induction xs with
  | nil => simp [areConstants]
  | cons x xs ih => simp [areConstants, ih]

end GraphSchema.Value
