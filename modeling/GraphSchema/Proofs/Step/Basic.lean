import GraphSchema.Proofs.Plan.Look
import GraphSchema.Proofs.Plan.Definition
import GraphSchema.Proofs.Plan.Wrapping

namespace GraphSchema

-- Where the base of a new field comes from: it is given, or it refers to something with a name.
inductive Store.Offers (σ : Store) (call : Call) : Base → Prop
  | given {base nullable : Value} {b : Base} (asked : call = .leaf base nullable)
      (read : Base.ofValue? base = some b) : Offers σ call b
  | scalar (s : Scalar) : Offers σ call (.scalar s)
  | enum (e : EnumId) : Offers σ call (enumBase (σ.enums.getD e default))
  | name {n : String} (checked : isName n) : Offers σ call (.object n)
  | definition (d : Definition) : Offers σ call (.object (σ.nameOf d))

open Store in
inductive Step (σ : Store) (call : Call) : List Change → Prop
  | look : Step σ call []
  -- shapes and fields
  | shape (o : Outline) : Step σ call [.addShape o]
  | leaf {b : Base} (offered : σ.Offers call b) (nullable : Value) :
      Step σ call (σ.leafPlan b nullable).changes
  | optional {v : Value} {f : Numbered Field} (asked : call = .optional v)
      (given : σ.field? v = some f) :
      Step σ call [.makeNullable f.val.shape]
  | list {v : Value} {f : Numbered Field} (asked : call = .list v) (given : σ.field? v = some f)
      (bare : f.val.directives = []) (single : (σ.shape f.val.shape).isList = false) :
      Step σ call [.makeList f.val.shape]
  | wrap {v : Value} {w : Wrapping} {f : Numbered Field} {before : List Change} {d : Directive}
      (asked : call = w.call v) (same : d.kind = w.kind) (fits : σ.checkWrap d.kind v = .ok f)
      (checked : σ.Checked (σ.shape f.val.shape) before d) :
      Step σ call (before ++ [.addField (.wrap f d)])
  -- rules
  | rule {allow given : Value} (asked : call = .rule allow given) (groups : Option (List Value)) :
      Step σ call [.addRule ⟨allow, groups, []⟩]
  | ruleSet (asked : call = .ruleSet) : Step σ call (σ.addRules [])
  | script {v : Value} {rs : List AuthRule} (asked : call = .buildRuleSet v)
      (ran : σ.checkScript v = .ok rs) : Step σ call (σ.addRules rs)
  | allow {v : Value} {s : RuleSetId} {a : Audience} (asked : call = .allow v a)
      (given : σ.ruleSet? v = some s) :
      Step σ call (σ.extend s (.of a)).changes
  | allowGroups {v groups : Value} {s : RuleSetId} {r : AuthRule}
      (asked : call = .allowGroups v groups) (given : σ.ruleSet? v = some s)
      (checked : σ.groupRule groups = .ok r) : Step σ call (σ.extend s r).changes
  | narrow {r : RuleId} {o : Operation} (asked : call = .narrow (.object (.rule r)) o) :
      Step σ call [.narrowRule r o]
  -- caches
  | invalidation {p n : Value} {i : Invalidation} (checked : σ.checkInvalidation p n = .ok i) :
      Step σ call [.addInvalidation i]
  | coerce {v : Value} {i : Numbered Invalidation} {changes : List Change}
      (checked : σ.coerceInvalidation v = .ok (i, changes)) : Step σ call changes
  | fieldCache {age stale : Value} {c : FieldCache}
      (checked : σ.checkFieldCache age stale = .ok c) : Step σ call [.addFieldCache c]
  | typeCache {age stale i : Value} {c : TypeCache} {before : List Change}
      (checked : σ.checkTypeCache age stale i = .ok (c, before)) :
      Step σ call (before ++ [.addTypeCache c])
  -- definitions
  | interface {name fields : Value} {i : Interface} (asked : call = .interface name fields)
      (checked : σ.checkInterface name fields = .ok i) : Step σ call [.addInterface i]
  | type {name fields : Value} {t : ObjectType} (asked : call = .type name fields)
      (checked : σ.checkType name fields = .ok t) : Step σ call [.addType t]
  | enum {name values : Value} {e : EnumType} (checked : σ.checkEnum name values = .ok e) :
      Step σ call [.addEnum e]
  | implement {v w : Value} {t : Numbered ObjectType} {i : Numbered Interface}
      (asked : call = .implement v w) (type : σ.type? v = some t)
      (interface : σ.interface? w = some i) (fresh : i.val.name ∉ t.val.interfaceNames)
      (agree : σ.checkConflicts t.val (t.val.interfaces ++ [i]) = .ok ()) :
      Step σ call [.implement t.id i]
  | cacheType {v age stale i : Value} {t : Numbered ObjectType} {c : TypeCache}
      {before : List Change} (type : σ.type? v = some t)
      (checked : σ.checkTypeCache age stale i = .ok (c, before)) :
      Step σ call (before ++ [.addTypeCache c, .setCache t.id ⟨σ.typeCaches.size, c⟩])
  -- registries and builders
  | registry : Step σ call [.addRegistry]
  | register {v : Value} {k : DefinitionKind} {r : RegistryId} {d : Definition}
      (asked : call = .register v k (.definition d)) (given : σ.registry? v = some r)
      (free : σ.nameOf d ∉ (σ.registry r).names) : Step σ call [.register r (σ.nameOf d) d]
  | buildInterface {b name fields : Value} {r : RegistryId} {i : Interface}
      (asked : call = .buildInterface b name fields)
      (owner : σ.ownRegistry b "register_interface" = .ok r)
      (checked : σ.checkInterface name fields = .ok i) (free : i.name ∉ (σ.registry r).names) :
      Step σ call [.addInterface i, .register r i.name (.interface σ.interfaces.size)]
  | buildType {b name fields : Value} {r : RegistryId} {t : ObjectType}
      (asked : call = .buildType b name fields)
      (owner : σ.ownRegistry b "register_type" = .ok r)
      (checked : σ.checkType name fields = .ok t) (free : t.name ∉ (σ.registry r).names) :
      Step σ call [.addType t, .register r t.name (.type σ.types.size)]
  | buildEnum {b name values : Value} {r : RegistryId} {e : EnumType}
      (asked : call = .buildEnum b name values)
      (owner : σ.ownRegistry b "register_enum" = .ok r)
      (checked : σ.checkEnum name (memberNames values) = .ok e)
      (free : e.name ∉ (σ.registry r).names) :
      Step σ call [.addEnum e, .register r e.name (.enum σ.enums.size)]
  | clear {v : Value} {r : RegistryId} (asked : call = .clear v)
      (given : σ.registryOf? v = some r) : Step σ call [.clear r]
  | builder : Step σ call [.addRegistry, .addBuilder ⟨σ.registries.size, none⟩]
  | builderFor (b : Builder) : Step σ call [.addBuilder b]
  -- printers and configurations
  | printer (indent : Value) : Step σ call [.addPrinter indent]
  | config (c : Config) : Step σ call [.addConfig c]

namespace Step

variable {σ : Store} {call : Call}

theorem of_looks {d : Decision} {p : Plan} (h : d.Looks) (hp : d = .ok p) :
    Step σ call p.changes :=
  h p hp ▸ .look

theorem of_wrapping {w : Wrapping} {v : Value} {p : Plan} (h : σ.plan (w.call v) = .ok p) :
    Step σ (w.call v) p.changes := by
  have ⟨f, before, d, hf, hk, hc, e⟩ := w.plan_eq_ok h
  exact e ▸ .wrap rfl hk (hk ▸ hf) hc

end Step

open Outcome in
-- Every successful call takes one of the steps.
theorem Store.step_of_plan {σ : Store} {c : Call} {p : Plan} (h : σ.plan c = .ok p) :
    Step σ c p.changes := by
  cases c
  case shape =>
    have ⟨base, e⟩ := newShape_eq_ok h
    exact e ▸ .shape _
  case leaf =>
    have ⟨base, hb, e⟩ := newLeaf_eq_ok h
    exact e ▸ .leaf (.given rfl hb) _
  case optional =>
    have ⟨f, hf, e⟩ := optional_eq_ok.mp h
    exact e ▸ .optional rfl hf
  case list =>
    have ⟨f, hf, hb, hs, e⟩ := list_eq_ok.mp h
    exact e ▸ .list rfl hf hb hs
  case length => exact .of_wrapping (w := .length ..) h
  case unique => exact .of_wrapping (w := .unique ..) h
  case default => exact .of_wrapping (w := .default ..) h
  case search => exact .of_wrapping (w := .search) h
  case auth => exact .of_wrapping (w := .auth ..) h
  case cache => exact .of_wrapping (w := .cache ..) h
  case rule =>
    have ⟨gs, e⟩ := newRule_eq_ok h
    exact e ▸ .rule rfl gs
  case ruleSet => cases pure_eq_ok.mp h; exact .ruleSet rfl
  case buildRuleSet =>
    have ⟨rs, hr, e⟩ := buildRuleSet_eq_ok h
    exact e ▸ .script rfl hr
  case allow =>
    have ⟨s, hs, e⟩ := allow_eq_ok h
    exact e ▸ .allow rfl hs
  case allowGroups =>
    have ⟨s, r, hs, hr, e⟩ := allowGroups_eq_ok h
    exact e ▸ .allowGroups rfl hs hr
  case narrow =>
    have ⟨r, hr, e⟩ := narrow_eq_ok h
    exact e ▸ .narrow (hr ▸ rfl)
  case invalidation =>
    have ⟨i, hi, e⟩ := newInvalidation_eq_ok h
    exact e ▸ .invalidation hi
  case invalidationOf =>
    have ⟨i, changes, hi, e⟩ := invalidationOf_eq_ok h
    exact e ▸ .coerce hi
  case fieldCache =>
    have ⟨c, hc, e⟩ := newFieldCache_eq_ok h
    exact e ▸ .fieldCache hc
  case typeCache =>
    have ⟨c, changes, hc, e⟩ := newTypeCache_eq_ok h
    exact e ▸ .typeCache hc
  case interface =>
    have ⟨i, hi, e⟩ := newInterface_eq_ok h
    exact e ▸ .interface rfl hi
  case type =>
    have ⟨t, ht, e⟩ := newType_eq_ok h
    exact e ▸ .type rfl ht
  case enum =>
    have ⟨d, hd, e⟩ := newEnum_eq_ok h
    exact e ▸ .enum hd
  case enumOf =>
    have ⟨name, h⟩ := newEnumOf_eq_ok h
    have ⟨d, hd, e⟩ := newEnum_eq_ok h
    exact e ▸ .enum hd
  case implement =>
    have ⟨t, i, ht, hi, hn, hc, e⟩ := implement_eq_ok h
    exact e ▸ .implement rfl ht hi hn hc
  case cacheType =>
    have ⟨t, c, changes, ht, hc, e⟩ := cacheType_eq_ok h
    exact e ▸ .cacheType ht hc
  case registry => cases pure_eq_ok.mp h; exact .registry
  case register =>
    have ⟨r, d, hr, hd, _, hn, e⟩ := register_eq_ok h
    subst hd
    exact e ▸ .register rfl hr hn
  case clear =>
    have ⟨r, hr, e⟩ := clear_eq_ok h
    exact e ▸ .clear rfl hr
  case builder =>
    cases newBuilder_eq_ok h
    case inl e => exact e ▸ .builder
    case inr h =>
      have ⟨b, e⟩ := h
      exact e ▸ .builderFor b
  case scalarField => exact scalarField_eq_ok h ▸ .leaf (.scalar _) _
  case enumField =>
    have ⟨d, e⟩ := enumField_eq_ok h
    exact e ▸ .leaf (.enum d) _
  case refField =>
    have ⟨name, hn, e⟩ := refField_eq_ok h
    cases hn
    case inl hn => exact e ▸ .leaf (.name hn) _
    case inr hn =>
      have ⟨d, hd⟩ := hn
      exact e ▸ .leaf (hd ▸ .definition d) _
  case buildInterface =>
    have ⟨r, i, hr, hi, hn, e⟩ := buildInterface_eq_ok h
    exact e ▸ .buildInterface rfl hr hi hn
  case buildType =>
    have ⟨r, t, hr, ht, hn, e⟩ := buildType_eq_ok h
    exact e ▸ .buildType rfl hr ht hn
  case buildEnum =>
    have ⟨r, d, hr, hd, hn, e⟩ := buildEnum_eq_ok h
    exact e ▸ .buildEnum rfl hr hd hn
  case printer =>
    have ⟨indent, e⟩ := newPrinter_eq_ok h
    exact e ▸ .printer indent
  case config =>
    have ⟨b, indent, _, _, e⟩ := configure_eq_ok h
    exact e ▸ .config _
  all_goals exact .of_looks (Call.looks_plan rfl) h

end GraphSchema
