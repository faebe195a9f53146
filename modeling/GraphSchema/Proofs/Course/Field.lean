import GraphSchema.Proofs.Course.Rule
import GraphSchema.Proofs.Plan.Wrapping

namespace GraphSchema

open Course

namespace Course

-- The core.

def shape (base nullable isList itemNullable : Value) : Course Value := do
  let σ ← get
  match Base.ofValue? base with
  | none => base.refuse σ.display .baseType
  | some b =>
    make (.addShape ⟨b, nullable, isList, itemNullable⟩)
    return .object (.shape σ.shapes.size)

-- Makes a scalar, its shape first.
def scalar (b : Base) (nullable : Value) : Course Value := do
  let σ ← get
  make (.addShape (.single b nullable))
  make (.addField ⟨σ.shapes.size, σ.fields.size, none, []⟩)
  return .field σ.fields.size

def leaf (base nullable : Value) : Course Value := do
  let σ ← get
  match Base.ofValue? base with
  | none => base.refuse σ.display .baseType
  | some b => scalar b nullable

def optional (v : Value) : Course Value := do
  let σ ← get
  match σ.field? v with
  | none => σ.lacks v "optional"
  | some f =>
    make (.makeNullable f.val.shape)
    return v

def list (v : Value) : Course Value := do
  let σ ← get
  match σ.field? v with
  | none => σ.lacks v "list"
  | some f =>
    if ! f.val.directives.isEmpty then Misuse.listAfterDirective.refusal
    else if (σ.shape f.val.shape).isList then Misuse.nestedList.refusal
    else
      make (.makeList f.val.shape)
      return v

-- Directives.

-- The field that a directive is asked to go around.
def inner (k : NodeKind) (v : Value) : Course (Numbered Field) := do
  (← get).checkWrap k v

def wrap (f : Numbered Field) (d : Directive) : Course Value := do
  let n := (← get).fields.size
  make (.addField (.wrap f d))
  return .field n

def length (v min max : Value) : Course Value := do
  let f ← inner .length v
  let σ ← get
  let shape := σ.shape f.val.shape
  if ! shape.isString || shape.isList then (Misuse.lengthOn shape.text).refusal
  else
    let (low, high) ← σ.checkBounds min max
    wrap f (.length low high)

def unique (v scope : Value) : Course Value := do
  let f ← inner .unique v
  let names ← (← get).checkScope scope
  wrap f (.unique names)

def withDefault (v value : Value) : Course Value := do
  let f ← inner .default v
  let σ ← get
  (σ.shape f.val.shape).checkDefault σ.display (σ.settle value)
  wrap f (.default value)

def search (v : Value) : Course Value := do
  let f ← inner .search v
  wrap f .search

def auth (v rules : Value) : Course Value := do
  let f ← inner .auth v
  let σ ← get
  match σ.ruleSet? rules with
  | some s => if (σ.ruleIds s).isEmpty then Misuse.noRules.refusal else wrap f (.auth s)
  | none =>
    let s ← build rules
    wrap f (.auth s)

def cache (v maxAge stale : Value) : Course Value := do
  let f ← inner .cache v
  let σ ← get
  let c ← σ.checkFieldCache maxAge stale
  make (.addFieldCache c)
  wrap f (.cache ⟨σ.fieldCaches.size, c⟩)

-- What they come to.

variable {σ : Store} {v w : Value}

theorem realizes_shape (n l i : Value) : Realizes (shape v n l i) σ (σ.newShape v n l i) := by
  refine .look ?_
  unfold Store.newShape
  cases Base.ofValue? v
  case none => exact .refuse σ.retains_refl ..
  case some b => exact .of_ok rfl

theorem realizes_scalar (b : Base) (n : Value) :
    Realizes (scalar b n) σ (pure (σ.leafPlan b n)) :=
  .of_ok rfl

theorem realizes_leaf : Realizes (leaf v w) σ (σ.newLeaf v w) := by
  refine .look ?_
  unfold Store.newLeaf
  cases Base.ofValue? v
  case none => exact .refuse σ.retains_refl ..
  case some b => exact realizes_scalar b w

theorem realizes_optional : Realizes (optional v) σ (σ.optional v) := by
  refine .look ?_
  unfold Store.optional
  cases σ.field? v
  case none => exact .lacks σ.retains_refl ..
  case some f => exact .of_ok rfl

theorem realizes_list : Realizes (list v) σ (σ.list v) := by
  refine .look ?_
  unfold Store.list
  cases σ.field? v
  case none => exact .lacks σ.retains_refl ..
  case some f =>
    exact .ite (.misuse σ.retains_refl _) (.ite (.misuse σ.retains_refl _) (.of_ok rfl))

theorem follows_inner (k : NodeKind) (v : Value) :
    Follows (inner k v) σ (σ.checkWrap k v) (·, σ) σ.Retains :=
  .look (.lift σ.retains_refl)

theorem realizes_wrap (f : Numbered Field) (d : Directive) :
    Realizes (wrap f d) σ (pure (σ.wrapPlan f [] d)) :=
  .of_ok rfl

theorem realizes_length (min max : Value) :
    Realizes (length v min max) σ (σ.length v min max) := by
  refine .bind (follows_inner ..) fun f _ => .look (.ite (.misuse σ.retains_refl _) ?_)
  exact .check σ.retains_refl fun _ _ => realizes_wrap ..

theorem realizes_unique : Realizes (unique v w) σ (σ.unique v w) :=
  .bind (follows_inner ..) fun _ _ => .look <| .check σ.retains_refl fun _ _ => realizes_wrap ..

theorem realizes_withDefault : Realizes (withDefault v w) σ (σ.withDefault v w) :=
  .bind (follows_inner ..) fun _ _ => .look <| .check σ.retains_refl fun _ _ => realizes_wrap ..

theorem realizes_search : Realizes (search v) σ (σ.search v) :=
  .bind (follows_inner ..) fun _ _ => realizes_wrap ..

theorem realizes_auth : Realizes (auth v w) σ (σ.auth v w) := by
  refine .bind (follows_inner ..) fun f _ => .look ?_
  cases σ.ruleSet? w
  case some s => exact .ite (.misuse σ.retains_refl _) (realizes_wrap f (.auth s))
  case none =>
    refine .bind (Store.follows_build σ w) fun rs _ => .of_ok ?_
    -- Rules are no fields, so the field still gets the number that was decided on.
    have hf : (σ.applyAll (σ.addRules rs)).fields = σ.fields := by rw [Store.applyAll_addRules]
    simp only [Store.wrapPlan, Store.applyAll_append]
    rw [← hf]
    rfl

theorem realizes_cache (stale : Value) : Realizes (cache v w stale) σ (σ.cache v w stale) :=
  .bind (follows_inner ..) fun _ _ => .look <| .check σ.retains_refl fun _ _ => .of_ok rfl

end Course

end GraphSchema
