import GraphSchema.Store.Items
import GraphSchema.Definition.Merge
import GraphSchema.Value.Sum

namespace GraphSchema

namespace Directive

def lengthText : Option Nat → Option Nat → String
  | some min, some max =>
    "@length(min: " ++ toString min ++ ", max: " ++ toString max ++ ")"
  | some min, none => "@length(min: " ++ toString min ++ ")"
  | none, some max => "@length(max: " ++ toString max ++ ")"
  | none, none => "@length()"

def uniqueText : List String → String
  | [] => "@unique"
  | scope => "@unique(fields: " ++ quoteList scope ++ ")"

end Directive

structure Indent where
  given : Value
  text : Except Error String

namespace Indent

def ofText (s : String) : Indent := ⟨.text s, .ok s⟩

-- Numbers stand for as many spaces.
def spaces : Value → Except Error Value
  | .int n | .labelled (.int n) _ =>
    if n < -(indexLimit : Int) ∨ (indexLimit : Int) ≤ n then .error (.arithmetic .noIndex)
    else if memoryLimit ≤ n.toNat then .error (.arithmetic .noMemory)
    else .ok (.text (String.ofList (List.replicate n.toNat ' ')))
  | .bool b => .ok (.text (if b then " " else ""))
  | v => .ok v

def usual : Indent := ofText "  "

end Indent

def block (head : String) (lines : List String) : String :=
  head ++ " \x7b\n" ++ "\n".intercalate lines ++ "\n\x7d"

def joinBlocks (bs : List String) : String := "\n\n".intercalate bs

namespace Store

-- Names of objects, for places where they cannot be written out.

def definitionDisplay (σ : Store) (d : Definition) : String :=
  d.typeName ++ "(" ++ σ.nameOf d ++ " at ID)"

def refName (σ : Store) : Ref → String
  | .definition d => σ.definitionDisplay d
  | r => "<" ++ σ.typeName r ++ " object at ID>"

def names (σ : Store) : Value.Reading := ⟨fun r => return σ.refName r, fun r => return σ.refName r⟩

-- Rules and fields.

def ruleText (σ : Store) (reading : Value.Reading) (r : AuthRule) : Except Error String :=
  (r.settle σ.ownList?).text σ.typeName reading

-- Rules in a set allow no objects, so names will do.
def rulesText (σ : Store) (rs : List AuthRule) : Except Error String := do
  return "[" ++ ", ".intercalate (← rs.mapM (σ.ruleText σ.names)) ++ "]"

def directiveText (σ : Store) (bare : Bool) : Directive → Except Error String
  | .length min max => return Directive.lengthText min max
  | .unique scope => return Directive.uniqueText scope
  | .default v =>
    return "@default(value: " ++ (← (σ.settle v).literal σ.names bare) ++ ")"
  | .search => return "@search"
  | .auth s => return "@auth(rules: " ++ (← σ.rulesText (σ.rulesOf s)) ++ ")"
  | .cache c => return c.val.text

def fieldText (σ : Store) (f : Field) : Except Error String := do
  let shape := σ.shape f.shape
  let ds ← f.directives.reverse.mapM (σ.directiveText shape.isEnum)
  return " ".intercalate (shape.text :: ds)

def shapeText (σ : Store) (f : Field) : String := (σ.shape f.shape).text

-- Fields of types.

def declarationsOf (σ : Store) (owner : String) (fs : FieldList) : List Declaration :=
  fs.map fun (n, f) => ⟨owner, n, σ.shapeText f.val⟩

def declarations (σ : Store) (t : ObjectType) (is : List (Numbered Interface)) :
    List Declaration :=
  (is.flatMap fun i => σ.declarationsOf i.val.name i.val.fields)
    ++ σ.declarationsOf t.name t.fields

def checkConflicts (σ : Store) (t : ObjectType) (is : List (Numbered Interface)) :
    Except Error Unit :=
  match Declaration.conflict? [] (σ.declarations t is) with
  | some c => .error (.conflict c)
  | none => .ok ()

-- Shapes change, so agreement is checked again before a type is printed.
def checkFields (σ : Store) (t : ObjectType) : Except Error Unit := do
  σ.checkConflicts t t.interfaces
  if t.fields.isEmpty ∧ t.interfaces.isEmpty then throw (.misuse (.emptyType t.name))

-- Printing.

def fieldLines (σ : Store) (indent : Indent) (fs : FieldList) : Except Error (List String) :=
  fs.mapM fun (n, f) => do
    let text ← σ.fieldText f.val
    return (← indent.text) ++ n ++ ": " ++ text

def typeHead (t : ObjectType) : String :=
  "type " ++ t.name
    ++ (if t.interfaces.isEmpty then ""
        else " implements " ++ " & ".intercalate t.interfaceNames)
    ++ (match t.cache with
        | none => ""
        | some c => " " ++ c.val.text)

def printType (σ : Store) (indent : Indent) (t : ObjectType) : Except Error String := do
  σ.checkFields t
  return block (typeHead t) (← σ.fieldLines indent (merge t.sources))

def printFieldsAs (σ : Store) (indent : Indent) (name : String) (fs : FieldList) :
    Except Error String := do
  return block ("interface " ++ name) (← σ.fieldLines indent fs)

def printInterface (σ : Store) (indent : Indent) (i : Interface) : Except Error String :=
  σ.printFieldsAs indent i.name (merge [i.fields])

-- The lines of an enum. Each has to be a text, with all indents put before it first.
def valueLines (σ : Store) (indent : Indent) (vs : List Value) : Except Error (List String) := do
  let left := σ.settle indent.given
  let sums ← vs.mapM fun v => left.sum σ.typeName (σ.settle v)
  Value.Sum.texts 0 sums

def printValuesAs (σ : Store) (indent : Indent) (name : String) (vs : List Value) :
    Except Error String := do
  return block ("enum " ++ name) (← σ.valueLines indent vs)

def printEnum (σ : Store) (indent : Indent) (e : EnumType) : Except Error String :=
  σ.printValuesAs indent e.name (e.values.map .text)

def printDefinition (σ : Store) (indent : Indent) : Definition → Except Error String
  | .interface i => σ.printInterface indent (σ.interfaces.getD i default)
  | .type t => σ.printType indent (σ.types.getD t default)
  | .enum e => σ.printEnum indent (σ.enums.getD e default)

def printDefinitions (σ : Store) (indent : Indent) (ds : List Definition) :
    Except Error String := do
  return joinBlocks (← ds.mapM (σ.printDefinition indent))

theorem valueLines_texts (σ : Store) (s : String) (vs : List String) :
    σ.valueLines (.ofText s) (vs.map .text) = .ok (vs.map (s ++ ·)) := by
  have h : (vs.map Value.text).mapM (fun v => (Value.text s).sum σ.typeName (σ.settle v))
      = .ok ((vs.map (s ++ ·)).map Value.Sum.text) := by
    induction vs with
    | nil => rfl
    | cons v vs ih =>
      simp only [List.map_cons, List.mapM_cons, ih]
      rfl
  simp only [valueLines, Indent.ofText]
  exact (congrArg (· >>= Value.Sum.texts 0) h).trans (Value.Sum.texts_map 0 _)

-- Objects in messages.

def fieldDisplay (σ : Store) (f : Field) : Except Error String := do
  return "<" ++ f.kind.name ++ "Definition " ++ (← σ.fieldText f) ++ ">"

def refDisplay (σ : Store) : Ref → Except Error String
  | .shape s => return "FieldShape(" ++ (σ.shape s).text ++ ")"
  | .field f => σ.fieldDisplay (σ.fields.getD f default)
  | r => return σ.refName r

-- Rules can allow any object and configurations can be indented by any, and both of them are
-- objects. What they take was made before them, so their number bounds the depth.

def refText (σ : Store) : Nat → Ref → Except Error String
  | _, .shape s => return (σ.shape s).text
  | _, .field f => σ.fieldText (σ.fields.getD f default)
  | _, .ruleSet s => σ.rulesText (σ.rulesOf s)
  | _, .invalidation i => return (σ.invalidations.getD i default).text
  | _, .fieldCache c => return (σ.fieldCaches.getD c default).text
  | _, .typeCache c => return (σ.typeCaches.getD c default).text
  | _, .definition d => σ.printDefinition .usual d
  | _, .builder b =>
    σ.printDefinitions .usual (σ.definitions (σ.builders.getD b default).registry)
  | n + 1, .rule r => σ.ruleText ⟨σ.refDisplay, σ.refText n⟩ (σ.rule r)
  | n + 1, .config c =>
    let config := σ.configs.getD c default
    let text := (σ.settle config.indent).toText ⟨σ.refDisplay, σ.refText n⟩
    σ.printDefinitions ⟨config.indent, text⟩ config.definitions
  | _, r => σ.refDisplay r

def reading (σ : Store) : Value.Reading :=
  ⟨σ.refDisplay, σ.refText (σ.rules.size + σ.configs.size)⟩

def display (σ : Store) (v : Value) : Except Error String := (σ.settle v).display σ.refDisplay

def text (σ : Store) (v : Value) : Except Error String := (σ.settle v).toText σ.reading

def filling (σ : Store) (v : Value) : Except Error String := (σ.settle v).filling σ.reading

def indent (σ : Store) (v : Value) : Indent := ⟨v, σ.text v⟩

end Store

end GraphSchema
