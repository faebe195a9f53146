import GraphSchema.Plan.Basic

namespace GraphSchema.Store

def checkSeconds (σ : Store) (what : String) (required : Bool) (v : Value) :
    Except Error (Option Nat) :=
  match v with
  | .int n | .labelled (.int n) _ =>
    if n < 0 then (Misuse.secondsNegative what n).refusal else .ok (some n.toNat)
  | .null =>
    if required then v.refuse σ.display (.secondsNotInteger what) else .ok none
  | v => v.refuse σ.display (.secondsNotInteger what)

def checkFieldCache (σ : Store) (maxAge stale : Value) : Except Error FieldCache := do
  let age ← σ.checkSeconds "maxAge" true maxAge
  let stale ← σ.checkSeconds "staleWhileRevalidate" false stale
  return ⟨age.getD 0, stale⟩

def checkInvalidation (σ : Store) (policy fieldName : Value) : Except Error Invalidation :=
  match policy with
  | .text "field" =>
    match fieldName with
    | .text n =>
      if isName n then .ok (.field n) else (fieldName.refuse σ.display .invalidationField)
    | v => v.refuse σ.display .invalidationField
  | .text p =>
    match Policy.ofName? p with
    | some p => .ok (.policy p fieldName)
    | none => policy.refuse σ.display .invalidationPolicy
  | v => v.refuse σ.display .invalidationPolicy

def coerceInvalidation (σ : Store) (v : Value) :
    Except Error (Numbered Invalidation × List Change) :=
  match σ.invalidation? v with
  | some i => .ok (i, [])
  | none => do
    let i ← σ.checkInvalidation v .null
    return (⟨σ.invalidations.size, i⟩, [.addInvalidation i])

def checkTypeCache (σ : Store) (maxAge stale invalidation : Value) :
    Except Error (TypeCache × List Change) := do
  let params ← σ.checkFieldCache maxAge stale
  if invalidation.isNull then return (⟨params, none⟩, [])
  else
    let (i, changes) ← σ.coerceInvalidation invalidation
    return (⟨params, some i⟩, changes)

def newInvalidation (σ : Store) (policy fieldName : Value) : Decision := do
  let i ← σ.checkInvalidation policy fieldName
  return ⟨[.addInvalidation i], .object (.invalidation σ.invalidations.size)⟩

def invalidationOf (σ : Store) (v : Value) : Decision := do
  let (i, changes) ← σ.coerceInvalidation v
  return ⟨changes, .object (.invalidation i.id)⟩

-- The general policy of the given name; it is the same object every time.
def generalPolicy (p : Policy) : Plan :=
  .say <| .object <| .invalidation <|
    match p with
    | .entity => 0
    | .type => 1
    | .list => 2

def newFieldCache (σ : Store) (maxAge stale : Value) : Decision := do
  let c ← σ.checkFieldCache maxAge stale
  return ⟨[.addFieldCache c], .object (.fieldCache σ.fieldCaches.size)⟩

def newTypeCache (σ : Store) (maxAge stale invalidation : Value) : Decision := do
  let (c, changes) ← σ.checkTypeCache maxAge stale invalidation
  return ⟨changes ++ [.addTypeCache c], .object (.typeCache σ.typeCaches.size)⟩

def cacheArguments (σ : Store) (v : Value) : Decision :=
  match v with
  | .object (.fieldCache c) => return .say (.texts (σ.fieldCaches.getD c default).arguments)
  | .object (.typeCache c) => return .say (.texts (σ.typeCaches.getD c default).arguments)
  | v => σ.lacks v "arguments"

end GraphSchema.Store
