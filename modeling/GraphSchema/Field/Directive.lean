import GraphSchema.Field.Shape
import GraphSchema.Cache

namespace GraphSchema

inductive Directive
  | length (min max : Option Nat)
  | unique (scope : List String)
  | default (value : Value)
  | search
  | auth (rules : RuleSetId)
  | cache (params : Numbered FieldCache)
  deriving Inhabited

namespace Directive

def kind : Directive → NodeKind
  | length .. => .length
  | unique _ => .unique
  | default _ => .default
  | search => .search
  | auth _ => .auth
  | cache _ => .cache

end Directive

structure Field where
  shape : ShapeId
  -- The scalar at the core, and the field that the outermost directive was put around.
  leaf : FieldId
  inner : Option FieldId
  -- The outermost comes first.
  directives : List Directive
  deriving Inhabited

namespace Field

def kind (f : Field) : NodeKind := (f.directives.head?.map (·.kind)).getD .scalar

def kinds (f : Field) : List NodeKind := f.directives.map (·.kind) ++ [.scalar]

theorem head?_kinds (f : Field) : f.kinds.head? = some f.kind := by
  cases h : f.directives <;> simp [kinds, kind, h]

def wrap (inner : Numbered Field) (d : Directive) : Field where
  shape := inner.val.shape
  leaf := inner.val.leaf
  inner := some inner.id
  directives := d :: inner.val.directives

@[simp]
theorem shape_wrap (inner : Numbered Field) (d : Directive) :
    (wrap inner d).shape = inner.val.shape := rfl

@[simp]
theorem kinds_wrap (inner : Numbered Field) (d : Directive) :
    (wrap inner d).kinds = d.kind :: inner.val.kinds := rfl

end Field

end GraphSchema
