namespace GraphSchema

inductive NodeKind
  | scalar | length | unique | default | search | auth | cache
  deriving DecidableEq, Inhabited

namespace NodeKind

def name : NodeKind → String
  | scalar => "Scalar"
  | length => "LengthLimit"
  | unique => "Unique"
  | default => "Default"
  | search => "Search"
  | auth => "Auth"
  | cache => "Cache"

def word : NodeKind → String
  | scalar => "scalar"
  | length => "length"
  | unique => "unique"
  | default => "default"
  | search => "search"
  | auth => "auth"
  | cache => "cache"

def directives : List NodeKind := [length, unique, default, search, auth, cache]

def wraps : NodeKind → List NodeKind
  | scalar => []
  | length => [scalar]
  | unique => [scalar, length]
  | default => [scalar, length, unique]
  | search => [scalar, length, unique, default]
  | auth => [scalar, length, unique, default, search, cache]
  | cache => [scalar, length, unique, default, search, auth]

-- These make sense on values only, not on references to other types.
def leafOnly : NodeKind → Bool
  | length | unique | default | search => true
  | _ => false

end NodeKind

end GraphSchema
