import GraphSchema.Plan.Registry
import GraphSchema.Plan.Property

namespace GraphSchema

inductive Printout
  | definition | all | type | interface | fields | enum
  deriving DecidableEq, Inhabited

namespace Store

-- Values that are no definitions are refused by the first property that they lack, or that is
-- not what it has to be.

def refuseFields {α : Type} (σ : Store) (v : Value) : Except Error α := do
  if let some is := σ.property? v "interfaces" then
    discard (σ.items is)
  let fields ← σ.propertyOf v "fields"
  σ.lacks fields "items"

def refuseType {α : Type} (σ : Store) (v : Value) : Except Error α := do
  discard (σ.propertyOf v "name")
  let is ← σ.propertyOf v "interfaces"
  discard (σ.propertyOf v "fields")
  discard (σ.items is)
  σ.lacks is "fields"

-- Fields.

def merged? (σ : Store) (v : Value) : Option (String × FieldList) :=
  match σ.interface? v, σ.type? v with
  | some i, _ => some (i.val.name, merge [i.val.fields])
  | none, some t => some (t.val.name, merge t.val.sources)
  | none, none => none

def mergeFields (σ : Store) (v : Value) : Decision :=
  match σ.merged? v with
  | none => σ.refuseFields v
  | some (_, fs) => return .say (.list (fs.map fun (n, f) => .list [.text n, .field f.id]))

def checkTypeFields (σ : Store) (v : Value) : Decision :=
  match σ.type? v with
  | none => σ.refuseType v
  | some t => do
    σ.checkFields t.val
    return .say .null

def interfaceNames (σ : Store) (v : Value) : Decision :=
  match σ.type? v with
  | none => do
    let is ← σ.propertyOf v "interfaces"
    discard (σ.items is)
    σ.lacks is "name"
  | some t => return .say (.texts t.val.interfaceNames)

-- Printing with a given indent.

def printOne (σ : Store) (indent : Indent) (v : Value) : Except Error String :=
  match v.definition? with
  | some d => σ.printDefinition indent d
  | none => do throw (.type (.notADefinition (← σ.text v)))

def printAll (σ : Store) (indent : Indent) (ds : Value) : Except Error String := do
  return joinBlocks (← (← σ.items ds.front).mapM (σ.printOne indent))

def printAsType (σ : Store) (indent : Indent) (v : Value) : Except Error String :=
  match σ.type? v with
  | none => σ.refuseType v
  | some t => σ.printType indent t.val

def printAsInterface (σ : Store) (indent : Indent) (v : Value) : Except Error String :=
  match σ.merged? v with
  | none => do
    discard (σ.propertyOf v "name")
    σ.refuseFields v
  | some (name, fs) => σ.printFieldsAs indent name fs

def printFields (σ : Store) (indent : Indent) (v : Value) : Except Error String :=
  match σ.merged? v with
  | none => σ.refuseFields v
  | some (_, fs) => return "\n".intercalate (← σ.fieldLines indent fs)

-- A reference to an enum prints like the enum, as far as its values are known.
def printAsEnum (σ : Store) (indent : Indent) (v : Value) : Except Error String :=
  match σ.enum? v, v with
  | some e, _ => σ.printEnum indent e.val
  | none, .enumRef name (some vs) => σ.printValuesAs indent name vs
  | none, v => do
    discard (σ.propertyOf v "name")
    let values ← σ.propertyOf v "values"
    discard (σ.items values)
    σ.lacks v "values"

-- Printers.

def printer? (σ : Store) : Value → Option Value
  | .object (.printer p) => σ.printers[p]?
  | _ => none

def newPrinter (σ : Store) (indent : Value) : Decision := do
  return ⟨[.addPrinter (← Indent.spaces indent)], .object (.printer σ.printers.size)⟩

def printout (σ : Store) (p : Printout) (indent : Indent) (v : Value) : Except Error String :=
  match p with
  | .definition => σ.printOne indent v
  | .all => σ.printAll indent v
  | .type => σ.printAsType indent v
  | .interface => σ.printAsInterface indent v
  | .fields => σ.printFields indent v
  | .enum => σ.printAsEnum indent v

def print (σ : Store) (p : Printout) (indent v : Value) : Decision := do
  return .say (.text (← σ.printout p (σ.indent (← Indent.spaces indent)) v))

def printWith (σ : Store) (printer : Value) (p : Printout) (v : Value) : Decision :=
  match σ.printer? printer with
  | none => σ.lacks printer "print"
  | some indent => return .say (.text (← σ.printout p (σ.indent indent) v))

-- Builders and configurations.

def builderText (σ : Store) (builder indent : Value) : Decision :=
  match σ.builder? builder with
  | none => σ.lacks builder "text"
  | some b => do
    let text ← σ.printDefinitions (σ.indent (← Indent.spaces indent)) (σ.definitions b.registry)
    return .say (.text text)

def configure (σ : Store) (builder indent : Value) : Decision :=
  if builder.isNull then Misuse.noSchema.refusal
  else
    match σ.builder? builder with
    | none => builder.refuse σ.display .notABuilder
    | some b => do
      return ⟨[.addConfig ⟨σ.definitions b.registry, ← Indent.spaces indent⟩],
        .object (.config σ.configs.size)⟩

def configText (σ : Store) (config : Value) : Decision :=
  match config with
  | .object (.config _) => return .say (.text (← σ.text config))
  | v => σ.lacks v "text"

end Store

end GraphSchema
