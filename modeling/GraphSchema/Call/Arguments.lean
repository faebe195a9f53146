import GraphSchema.Value.Basic
import GraphSchema.Error

namespace GraphSchema

structure Parameter where
  name : String
  usual : Option Value

namespace Parameter

def required (name : String) : Parameter := ⟨name, none⟩

def usually (name : String) (v : Value) : Parameter := ⟨name, some v⟩

def optional (name : String) : Parameter := usually name .null

end Parameter

structure Arguments where
  positional : List Value
  named : List (String × Value)

structure Signature where
  function : String
  -- Arguments that go without saying, such as the owner of a method.
  implied : Nat
  parameters : List Parameter

namespace Signature

def lookup (as : Arguments) (p : Parameter) : Option Value :=
  ((as.named.find? (·.1 == p.name)).map (·.2)).or p.usual

def tooMany (f : Signature) (given : Nat) : TypeFault :=
  let least := (f.parameters.filter (·.usual.isNone)).length
  .tooMany f.function (f.implied + least) (f.implied + f.parameters.length) (f.implied + given)

def bind (f : Signature) (as : Arguments) : Except Error (List Value) :=
  let ps := f.parameters
  let given := as.positional.length
  match as.named.find? fun (n, _) => ! ps.any (·.name == n) with
  | some (n, _) => .error (.type (.unexpected f.function n))
  | none =>
    match (ps.take given).find? fun p => as.named.any (·.1 == p.name) with
    | some p => .error (.type (.twice f.function p.name))
    | none =>
      if ps.length < given then .error (.type (f.tooMany given))
      else
        let rest := ps.drop given
        match rest.filter fun p => (lookup as p).isNone with
        | [] => .ok (as.positional ++ rest.filterMap (lookup as))
        | missing => .error (.type (.missing f.function (missing.map (·.name))))

end Signature

end GraphSchema
