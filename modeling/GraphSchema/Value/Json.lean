import GraphSchema.Value.Literal

namespace GraphSchema.Value

def jsonFloat (x : Double) : String :=
  if x.isNaN then "NaN"
  else if ! x.isFinite then Decimal.sign x.negative ++ "Infinity"
  else x.toText

def jsonKey (ref : Ref → String) : Value → Except Error String
  | text s => return quote s
  | null => return quote "null"
  | bool b => return quote (if b then "true" else "false")
  | int n => return quote (toString n)
  | float x => return quote (jsonFloat x)
  | labelled (.int n) _ => return quote (toString n)
  | labelled (.float x) _ => return quote (jsonFloat x)
  | v => throw (.type (.noJsonKey (v.typeName ref)))

mutual

def json (ref : Ref → String) : Value → Except Error String
  | text s => return quote s
  | null => return "null"
  | bool b => return if b then "true" else "false"
  | int n => return toString n
  | float x => return jsonFloat x
  | labelled (.int n) _ => return toString n
  | labelled (.float x) _ => return jsonFloat x
  | list xs => return "[" ++ ", ".intercalate (← jsons ref xs) ++ "]"
  | tuple xs => return "[" ++ ", ".intercalate (← jsons ref xs) ++ "]"
  | dict es => return "\x7b" ++ ", ".intercalate (← jsonEntries ref es) ++ "\x7d"
  | v => throw (.type (.noJson (v.shortTypeName ref)))

def jsons (ref : Ref → String) : List Value → Except Error (List String)
  | [] => return []
  | x :: xs => return (← json ref x) :: (← jsons ref xs)

def jsonEntries (ref : Ref → String) : List (Value × Value) → Except Error (List String)
  | [] => return []
  | (k, v) :: es => return ((← jsonKey ref k) ++ ": " ++ (← json ref v)) :: (← jsonEntries ref es)

end

@[simp]
theorem jsons_texts (ref : Ref → String) (ss : List String) :
    jsons ref (ss.map text) = .ok (ss.map quote) := by
  induction ss with
  | nil => rfl
  | cons s ss ih => simp [jsons, json, ih, pure, Except.pure, bind, Except.bind]

-- The text that fills the one gap of a format. A tuple is taken for the list of fillings.
def filling (r : Reading) : Value → Except Error String
  | tuple [] => throw (.type .nothingToFormat)
  | tuple [v] => v.toText r
  | tuple _ => throw (.type .leftoverToFormat)
  | v => v.toText r

end GraphSchema.Value
