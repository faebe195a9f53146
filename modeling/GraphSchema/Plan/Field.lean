import GraphSchema.Plan.Auth
import GraphSchema.Plan.Cache
import GraphSchema.Field.Default

namespace GraphSchema

def Field.wrapFault? (shape : Shape) (k : NodeKind) (f : Field) : Option Misuse :=
  if f.kind ∉ k.wraps then some (.cannotWrap k f.kind)
  else if k ∈ f.kinds then some (.applied k)
  else if k.leafOnly && shape.isObject then some (.onReference k shape.text)
  else none

namespace Store

-- The core.

def newShape (σ : Store) (base nullable isList itemNullable : Value) : Decision :=
  match Base.ofValue? base with
  | none => base.refuse σ.display .baseType
  | some b =>
    return ⟨[.addShape ⟨b, nullable, isList, itemNullable⟩], .object (.shape σ.shapes.size)⟩

def leafPlan (σ : Store) (b : Base) (nullable : Value) : Plan :=
  ⟨[.addShape (.single b nullable), .addField ⟨σ.shapes.size, σ.fields.size, none, []⟩],
    .field σ.fields.size⟩

def newLeaf (σ : Store) (base nullable : Value) : Decision :=
  match Base.ofValue? base with
  | none => base.refuse σ.display .baseType
  | some b => return σ.leafPlan b nullable

def optional (σ : Store) (v : Value) : Decision :=
  match σ.field? v with
  | none => σ.lacks v "optional"
  | some f => return ⟨[.makeNullable f.val.shape], v⟩

def list (σ : Store) (v : Value) : Decision :=
  match σ.field? v with
  | none => σ.lacks v "list"
  | some f =>
    if ! f.val.directives.isEmpty then Misuse.listAfterDirective.refusal
    else if (σ.shape f.val.shape).isList then Misuse.nestedList.refusal
    else return ⟨[.makeList f.val.shape], v⟩

-- Directives.

def checkWrap (σ : Store) (k : NodeKind) (v : Value) : Except Error (Numbered Field) :=
  match σ.field? v with
  | none => v.refuse σ.display (.notAField k)
  | some f =>
    match f.val.wrapFault? (σ.shape f.val.shape) k with
    | some m => m.refusal
    | none => .ok f

def wrapPlan (σ : Store) (inner : Numbered Field) (before : List Change) (d : Directive) : Plan :=
  ⟨before ++ [.addField (.wrap inner d)], .field σ.fields.size⟩

def checkBound (σ : Store) (bound : String) (v : Value) : Except Error (Option Nat) :=
  match v with
  | .null => .ok none
  | .int n | .labelled (.int n) _ =>
    if n < 0 then (Misuse.boundNegative bound n).refusal else .ok (some n.toNat)
  | v => v.refuse σ.display (.boundNotInteger bound)

def checkBounds (σ : Store) (min max : Value) : Except Error (Option Nat × Option Nat) :=
  if min.isNull && max.isNull then Misuse.lengthUnbounded.refusal
  else do
    let low ← σ.checkBound "min" min
    let high ← σ.checkBound "max" max
    match low, high with
    | some l, some h =>
      if h < l then (Misuse.boundsCrossed l h).refusal else return (some l, some h)
    | l, h => return (l, h)

def length (σ : Store) (v min max : Value) : Decision := do
  let f ← σ.checkWrap .length v
  let shape := σ.shape f.val.shape
  if ! shape.isString || shape.isList then (Misuse.lengthOn shape.text).refusal
  else
    let (low, high) ← σ.checkBounds min max
    return σ.wrapPlan f [] (.length low high)

def checkScope (σ : Store) (scope : Value) : Except Error (List String) :=
  match scope with
  | .null => .ok []
  | .text _ => scope.refuse σ.display .scopeIsText
  | scope => do
    let names ← σ.items scope.front
    match names.find? (! ·.isNameText) with
    | some v => v.refuse σ.display .scopeName
    | none => return (scope.rest names).filterMap (·.text?)

def unique (σ : Store) (v scope : Value) : Decision := do
  let f ← σ.checkWrap .unique v
  return σ.wrapPlan f [] (.unique (← σ.checkScope scope))

def withDefault (σ : Store) (v value : Value) : Decision := do
  let f ← σ.checkWrap .default v
  (σ.shape f.val.shape).checkDefault σ.display (σ.settle value)
  return σ.wrapPlan f [] (.default value)

def search (σ : Store) (v : Value) : Decision := do
  return σ.wrapPlan (← σ.checkWrap .search v) [] .search

def auth (σ : Store) (v rules : Value) : Decision := do
  let f ← σ.checkWrap .auth v
  match σ.ruleSet? rules with
  | some s =>
    if (σ.ruleIds s).isEmpty then Misuse.noRules.refusal
    else return σ.wrapPlan f [] (.auth s)
  | none =>
    let rs ← σ.checkScript rules
    return σ.wrapPlan f (σ.addRules rs) (.auth σ.ruleSets.size)

def cache (σ : Store) (v maxAge stale : Value) : Decision := do
  let f ← σ.checkWrap .cache v
  let c ← σ.checkFieldCache maxAge stale
  return σ.wrapPlan f [.addFieldCache c] (.cache ⟨σ.fieldCaches.size, c⟩)

-- Reading.

def kinds (σ : Store) (v : Value) : Decision :=
  match σ.field? v with
  | none => σ.lacks v "kinds"
  | some f => return .say (.list (f.val.kinds.map .nodeKind))

def render (σ : Store) (v : Value) : Decision :=
  match σ.field? v with
  | none => σ.lacks v "render"
  | some f => return .say (.text (← σ.fieldText f.val))

def directive (σ : Store) (v : Value) : Decision :=
  match σ.field? v with
  | none => σ.lacks v "directive"
  | some f =>
    match f.val.directives with
    | [] => σ.lacks v "directive"
    | d :: _ => return .say (.text (← σ.directiveText (σ.shape f.val.shape).isEnum d))

def checkDefault (σ : Store) (shape value : Value) : Decision :=
  if value.isNull then Misuse.nullDefault.refusal
  else
    match shape with
    | .object (.shape s) => do
      (σ.shape s).checkDefault σ.display (σ.settle value)
      return .say .null
    | v => σ.lacks v "is_object"

end Store

end GraphSchema
