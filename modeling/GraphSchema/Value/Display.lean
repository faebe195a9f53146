import GraphSchema.Value.Basic
import GraphSchema.Text.Escaped
import GraphSchema.Error

namespace GraphSchema.Value

def typeName (ref : Ref → String) : Value → String
  | null => "NoneType"
  | bool _ => "bool"
  | int _ => "int"
  | float _ => "float"
  | decimal _ => "decimal.Decimal"
  | date _ => "datetime.date"
  | dateTime _ => "datetime.datetime"
  | text _ => "str"
  | bytes _ => "bytes"
  | byteArray _ => "bytearray"
  | progression _ => "range"
  | list _ => "list"
  | tuple _ => "tuple"
  | stream _ => "list_iterator"
  | dict _ => "dict"
  | foreign .. => "Opaque"
  | enumClass .. => "EnumType"
  | enumMember _ owner _ _ => owner
  | labelled _ l => l.owner
  | scalar _ => "ScalarKind"
  | nodeKind _ => "DecoratorKind"
  | enumRef .. => "EnumRef"
  | objectRef _ => "ObjectRef"
  | script _ => "function"
  | object r => ref r

def shortTypeName (ref : Ref → String) : Value → String
  | decimal _ => "Decimal"
  | date _ => "date"
  | dateTime _ => "datetime"
  | v => v.typeName ref

def call (name : String) (args : List String) : String :=
  name ++ "(" ++ ", ".intercalate args ++ ")"

def displayDate (d : Date) : String :=
  call "datetime.date" [toString d.year, toString d.month, toString d.day]

-- A negative duration is some days back and a positive rest.
def displayDuration (seconds : Int) : String :=
  let part (name : String) (n : Int) := if n = 0 then [] else [name ++ "=" ++ toString n]
  let parts := part "days" (seconds / 86400) ++ part "seconds" (seconds % 86400)
  call "datetime.timedelta" (if parts.isEmpty then ["0"] else parts)

def displayOffset (o : Int) : String :=
  if o = 0 then "datetime.timezone.utc" else call "datetime.timezone" [displayDuration o]

def displayDateTime (t : DateTime) : String :=
  let day := [t.date.year, t.date.month, t.date.day, t.hour, t.minute]
  let second := if t.second = 0 ∧ t.micro = 0 then [] else [t.second]
  let micro := if t.micro = 0 then [] else [t.micro]
  let zone := (t.offset.map fun o => "tzinfo=" ++ displayOffset o).toList
  call "datetime.datetime" ((day ++ second ++ micro).map toString ++ zone)

def displayProgression (p : Progression) : String :=
  let ends := [p.start, p.stop].map toString
  call "range" (if p.step = 1 then ends else ends ++ [toString p.step])

def displayTuple : List String → String
  | [x] => "(" ++ x ++ ",)"
  | xs => "(" ++ ", ".intercalate xs ++ ")"

mutual

def display (ref : Ref → Except Error String) : Value → Except Error String
  | null => return "None"
  | bool b => return if b then "True" else "False"
  | int n => return toString n
  | float x => return x.toText
  | decimal d => return "Decimal('" ++ d.toText ++ "')"
  | date d => return displayDate d
  | dateTime t => return displayDateTime t
  | text s => return Escaped.text s
  | bytes bs => return Escaped.bytes bs
  | byteArray bs => return Escaped.byteArray bs
  | progression p => return displayProgression p
  | list xs => return "[" ++ ", ".intercalate (← displays ref xs) ++ "]"
  | tuple xs => return displayTuple (← displays ref xs)
  | stream _ => return "<list_iterator object at ID>"
  | dict es => return "\x7b" ++ ", ".intercalate (← displayEntries ref es) ++ "\x7d"
  | foreign _ name => return "<" ++ name ++ ">"
  | enumClass _ name _ => return "<enum '" ++ name ++ "'>"
  | enumMember _ owner name v =>
    return "<" ++ owner ++ "." ++ name ++ ": " ++ (← display ref v) ++ ">"
  | labelled _ l => return l.shown
  | scalar s => return "<ScalarKind." ++ s.name ++ ": '" ++ s.name ++ "'>"
  | nodeKind k => return "<DecoratorKind." ++ k.name ++ ": '" ++ k.word ++ "'>"
  | enumRef name _ => return "EnumRef(" ++ name ++ ")"
  | objectRef name => return "ObjectRef(" ++ name ++ ")"
  | script _ => return "<function at ID>"
  | object r => ref r

def displays (ref : Ref → Except Error String) : List Value → Except Error (List String)
  | [] => return []
  | x :: xs => return (← display ref x) :: (← displays ref xs)

def displayEntries (ref : Ref → Except Error String) :
    List (Value × Value) → Except Error (List String)
  | [] => return []
  | (k, v) :: es =>
    return ((← display ref k) ++ ": " ++ (← display ref v)) :: (← displayEntries ref es)

end

def plainText (ref : Ref → Except Error String) : Value → Except Error String
  | text s => return s
  | decimal d => return d.toText
  | date d => return d.toText
  | dateTime t =>
    return String.ofList (t.toText.toList.map fun c => if c = 'T' then ' ' else c)
  | enumMember _ owner name _ => return owner ++ "." ++ name
  | labelled n l => return l.text n
  | scalar s => return "ScalarKind." ++ s.name
  | nodeKind k => return "DecoratorKind." ++ k.name
  | v => v.display ref

-- Refuses a call for a reason that quotes a value. A value that cannot be shown is itself the
-- error then.
def refuse {α : Type} (display : Value → Except Error String) (v : Value)
    (reason : String → Misuse) : Except Error α :=
  match display v with
  | .ok s => .error (.misuse (reason s))
  | .error e => .error e

@[simp]
theorem refuse_ne_ok {α : Type} {display : Value → Except Error String} {v : Value}
    {reason : String → Misuse} {a : α} : refuse display v reason ≠ .ok a := by
  unfold refuse
  split <;> simp

end GraphSchema.Value
