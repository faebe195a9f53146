import GraphSchema.Value.Items
import GraphSchema.Value.Json

namespace GraphSchema

inductive Operation
  | create | read | get | list | update | delete
  deriving DecidableEq, Inhabited

namespace Operation

def name : Operation → String
  | create => "create"
  | read => "read"
  | get => "get"
  | list => "list"
  | update => "update"
  | delete => "delete"

def ofName? (n : String) : Option Operation :=
  [create, read, get, list, update, delete].find? (·.name == n)

theorem ofName?_name (o : Operation) : ofName? o.name = some o := by cases o <;> decide

end Operation

inductive Audience
  | signedIn | anyone | owner
  deriving DecidableEq, Inhabited

namespace Audience

def name : Audience → String
  | signedIn => "private"
  | anyone => "public"
  | owner => "owner"

def ofName? (n : String) : Option Audience := [signedIn, anyone, owner].find? (·.name == n)

theorem ofName?_name (a : Audience) : ofName? a.name = some a := by cases a <;> decide

end Audience

structure AuthRule where
  allow : Value
  groups : Option (List Value)
  -- In the order in which they were first asked for.
  operations : List Operation
  deriving Inhabited

namespace AuthRule

def of (a : Audience) : AuthRule := ⟨.text a.name, none, []⟩

def ofGroups (gs : List Value) : AuthRule := ⟨.text "groups", some gs, []⟩

def narrow (r : AuthRule) (o : Operation) : AuthRule :=
  if o ∈ r.operations then r else { r with operations := r.operations ++ [o] }

def settle (own : Ref → Option (List Value)) (r : AuthRule) : AuthRule :=
  { r with allow := r.allow.settle own, groups := r.groups.map (Value.settleAll own) }

def groupsText (ref : Ref → String) : Option (List Value) → Except Error (List String)
  | none => return []
  | some gs => return ["groups: [" ++ ", ".intercalate (← Value.jsons ref gs) ++ "]"]

def operationsText : List Operation → List String
  | [] => []
  | os => ["operations: [" ++ ", ".intercalate (os.map (·.name)) ++ "]"]

def text (typeName : Ref → String) (r : Value.Reading) (a : AuthRule) : Except Error String := do
  let allow ← a.allow.filling r
  let groups ← groupsText typeName a.groups
  return "\x7b " ++ ", ".intercalate (("allow: " ++ allow) :: groups ++ operationsText a.operations)
    ++ " \x7d"

end AuthRule

end GraphSchema
