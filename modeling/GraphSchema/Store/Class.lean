import GraphSchema.Store.Text

namespace GraphSchema.Store

def isBetween (n : Nat) (cs : List Char) : Bool :=
  let marks := List.replicate n '_'
  let inner := (cs.drop n).take (cs.length - 2 * n)
  cs == marks ++ inner ++ marks && inner.head?.any (· != '_') && inner.getLast?.any (· != '_')

def hooks : List String :=
  ["_order_", "_generate_next_value_", "_numeric_repr_", "_missing_", "_ignore_", "_iter_member_",
    "_iter_member_by_value_", "_iter_member_by_def_"]

def isPrivate (owner : String) (cs : List Char) : Bool :=
  let start := ("_" ++ owner ++ "__").toList
  start.isPrefixOf cs && start.length < cs.length && ! ['_', '_'].isSuffixOf cs

def isHidden (owner name : String) : Bool :=
  isPrivate owner name.toList || isBetween 2 name.toList || name ∈ hooks

def isMethod : Value → Bool
  | .script _ => true
  | _ => false

def checkBody (display : Value → Except Error String) (owner : String)
    (seen : List (String × Value)) : List (String × Value) → Except Error (List (String × Value))
  | [] => .ok seen
  | (name, v) :: rest =>
    if isHidden owner name then checkBody display owner seen rest
    else if isBetween 1 name.toList then .error (.value (.reservedMember (Escaped.text name)))
    else
      match seen.find? (·.1 == name) with
      | some (_, w) => do throw (.type (.memberTwice (Escaped.text name) (← display w)))
      | none =>
        if isMethod v then checkBody display owner seen rest
        else checkBody display owner (seen ++ [(name, v)]) rest

def forbidden : List String := ["", "mro"]

-- Whether a value repeats an earlier one. A key is looked up among the keys; anything else is
-- compared with all values there are.
def repeats (σ : Store) (earlier v : Value) : Except Error Bool :=
  if (σ.keyFault? v).isSome then σ.compare earlier v
  else return (σ.keyFault? earlier).isNone && σ.alike earlier v

def twin? (σ : Store) (v : Value) :
    List (String × String × Value) → Except Error (Option (String × Value))
  | [] => .ok none
  | (_, m, w) :: rest => do if ← σ.repeats w v then return some (m, w) else σ.twin? v rest

-- Names whose value repeats an earlier one stand for the member that has it.
def nameMembers (σ : Store) (known : List (String × String × Value)) :
    List (String × Value) → Except Error (List (String × String × Value))
  | [] => .ok known
  | (n, v) :: rest => do
    let member := (← σ.twin? v known).getD (n, v)
    σ.nameMembers (known ++ [(n, member)]) rest

def enumClass (σ : Store) (id : OutsideId) (name : String) (body : List (String × Value)) :
    Except Error Value := do
  let members ← checkBody σ.display name [] body
  match forbidden.filter (· ∈ members.map (·.1)) with
  | [] => return .enumClass id name (← σ.nameMembers [] members)
  | names => throw (.value (.memberName (",".intercalate (names.map Escaped.text))))

end GraphSchema.Store
