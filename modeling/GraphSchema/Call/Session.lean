import GraphSchema.Call.Basic

namespace GraphSchema

structure Session where
  store : Store := {}
  -- The earliest binding comes first.
  bindings : List (String × Value) := []
  -- How many things from outside the schema were given so far.
  outside : OutsideId := 0
  deriving Inhabited

namespace Session

def lookup? (s : Session) (name : String) : Option Value :=
  (s.bindings.find? (·.1 == name)).map (·.2)

def bind (s : Session) (name : String) (v : Value) : Session :=
  { s with bindings := s.bindings ++ [(name, v)] }

def perform (s : Session) (c : Call) : Except Error Value × Session :=
  let (answer, store) := s.store.perform c
  (answer, { s with store })

def newOutside (s : Session) : OutsideId × Session :=
  (s.outside, { s with outside := s.outside + 1 })

def hasIdentity : Ref → Bool
  | .builder _ | .printer _ | .config _ | .operations _ | .rules _ | .interfaces _ => false
  | _ => true

def nameOf? (s : Session) (v : Value) : Option String :=
  match v with
  | .object r =>
    if hasIdentity r then
      (s.bindings.find? fun b =>
        match b.2 with
        | .object r' => r == r'
        | _ => false).map (·.1)
    else none
  | _ => none

end Session

end GraphSchema
