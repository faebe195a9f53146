import GraphSchema.Proofs.Auth.Reading
import GraphSchema.Proofs.Decoding.Directive
import GraphSchema.Proofs.Decoding.Name
import GraphSchema.Proofs.Field.Keyed

namespace GraphSchema

open Outcome Decoding

variable {r s : List Char}

-- Shapes.

namespace Shape

end Shape

-- Chains of directives.

namespace Content

def chain (cs : List Content) : List Char := cs.flatMap fun c => ' ' :: c.text.toList

theorem toList_intercalate (t : String) (cs : List Content) :
    (" ".intercalate (t :: cs.map text)).toList = t.toList ++ chain cs := by
  rw [Decoding.toList_intercalate, List.flatMap_map]
  rfl

end Content

-- The contents of the directives of a field.

namespace Store

variable {σ τ : Store} {f g : Field}

def content (σ : Store) (bare : Bool) : Directive → Except Error Content
  | .length min max => return .length min max
  | .unique scope => return .unique scope
  | .default v => return .default (← (σ.settle v).literal σ.names bare)
  | .search => return .search
  | .auth s => return .auth (σ.rulesOf s)
  | .cache c => return .cache c.val.maxAge (c.val.staleWhileRevalidate.getD 0)

-- What the directives say, from the innermost to the outermost.
def contents (σ : Store) (f : Field) : Except Error (List Content) :=
  f.directives.reverse.mapM (σ.content (σ.shape f.shape).isEnum)

-- The default of an enum, if there is one, is a name or made of names.
def NamesDefaults (σ : Store) (f : Field) : Prop :=
  ∀ v, .default v ∈ f.directives → (σ.shape f.shape).isEnum → (σ.settle v).namesOnly

-- What keeps the fields of a store from being mistaken for others.
structure Legible (σ : Store) : Prop where
  granted : σ.AllRules AuthRule.Granted
  keyed : σ.AllKeyed
  spelled : σ.AllSpelled

namespace Legible

variable {m n : FieldId}

theorem told (h : σ.Legible) (hf : σ.fields[n]? = some f) (hn : σ.NamesDefaults f)
    {cs : List Content} (hc : σ.contents f = .ok cs) : ∀ c ∈ cs, c.Told := by
  intro c hm
  have ⟨d, hm, hc⟩ := mem_of_mapM_eq_ok hc hm
  have hd : d ∈ f.directives := List.mem_reverse.mp hm
  cases d
  case length | unique | search | cache => cases pure_eq_ok.mp hc; constructor
  case auth s =>
    cases pure_eq_ok.mp hc
    exact .auth fun r hr => h.granted.of_mem hr
  case default v =>
    have ⟨t, ht, hc⟩ := bind_eq_ok.mp hc
    cases pure_eq_ok.mp hc
    have hv : (σ.settle v).isKeyed := (isKeyed_settle v).trans (h.keyed n f hf v hd)
    exact .default (Value.closed_literal _ hv (hn v hd) t ht)

end Legible

end Store

end GraphSchema
