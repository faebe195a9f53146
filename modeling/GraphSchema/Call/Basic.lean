import GraphSchema.Plan.General

namespace GraphSchema

inductive Call
  -- texts and values
  | isName (v : Value)
  | quote (v : Value)
  | quoteItems (v : Value)
  | dedent (v : Value)
  | literal (v bare : Value)
  | scalarNamed (v : Value)
  | text (v : Value)
  | display (v : Value)
  | size (v : Value)
  | items (v : Value)
  | contains (c x : Value)
  | equal (a b : Value)
  | distinct (vs : List Value)
  | property (v : Value) (name : String)
  -- shapes and fields
  | enumRef (name values : Value)
  | objectRef (name : Value)
  | shape (base nullable isList itemNullable : Value)
  | leaf (base nullable : Value)
  | optional (field : Value)
  | list (field : Value)
  | length (field min max : Value)
  | unique (field scope : Value)
  | default (field value : Value)
  | search (field : Value)
  | auth (field rules : Value)
  | cache (field maxAge stale : Value)
  | kinds (field : Value)
  | directive (field : Value)
  | render (field : Value)
  | checkDefault (shape value : Value)
  | wrapTable
  -- auth rules
  | rule (allow groups : Value)
  | ruleSet
  | buildRuleSet (script : Value)
  | allow (set : Value) (audience : Audience)
  | allowGroups (set groups : Value)
  | narrow (rule : Value) (operation : Operation)
  -- caches
  | invalidation (policy fieldName : Value)
  | invalidationOf (v : Value)
  | generalPolicy (policy : Policy)
  | fieldCache (maxAge stale : Value)
  | typeCache (maxAge stale invalidation : Value)
  | cacheArguments (cache : Value)
  -- definitions
  | interface (name fields : Value)
  | type (name fields : Value)
  | enum (name values : Value)
  | enumOf (cls : Value)
  | implement (type interface : Value)
  | cacheType (type maxAge stale invalidation : Value)
  | reference (definition : Value)
  | checkFields (type : Value)
  | mergeFields (definition : Value)
  | interfaceNames (type : Value)
  -- registries and builders
  | registry
  | register (registry : Value) (kind : DefinitionKind) (definition : Value)
  | get (registry name : Value)
  | definitions (owner : Value)
  | clear (owner : Value)
  | builder (registry : Value)
  | scalarField (builder : Value) (scalar : Scalar)
  | enumField (builder enum : Value)
  | refField (builder target : Value)
  | buildInterface (builder name fields : Value)
  | buildType (builder name fields : Value)
  | buildEnum (builder name values : Value)
  | builderText (builder indent : Value)
  -- printers and configurations
  | printer (indent : Value)
  | printWith (printer : Value) (what : Printout) (v : Value)
  | print (what : Printout) (indent v : Value)
  | config (builder indent : Value)
  | configText (config : Value)

namespace Store

def plan (σ : Store) : Call → Decision
  | .isName v => return nameTest v
  | .quote v => σ.quoteOf v
  | .quoteItems v => σ.quoteItems v
  | .dedent v => σ.dedentOf v
  | .literal v bare => σ.literalOf v bare
  | .scalarNamed v => σ.scalarNamed v
  | .text v => sayText (σ.text v)
  | .display v => sayText (σ.display v)
  | .size v => σ.sizeOf v
  | .items v => σ.itemsOf v
  | .contains c x => σ.contains c x
  | .equal a b => σ.equality a b
  | .distinct vs => σ.countDistinct vs
  | .property v p => σ.property v p
  | .enumRef name values => σ.newEnumRef name values
  | .objectRef name => σ.newObjectRef name
  | .shape b n l i => σ.newShape b n l i
  | .leaf b n => σ.newLeaf b n
  | .optional f => σ.optional f
  | .list f => σ.list f
  | .length f min max => σ.length f min max
  | .unique f scope => σ.unique f scope
  | .default f v => σ.withDefault f v
  | .search f => σ.search f
  | .auth f rules => σ.auth f rules
  | .cache f age stale => σ.cache f age stale
  | .kinds f => σ.kinds f
  | .directive f => σ.directive f
  | .render f => σ.render f
  | .checkDefault s v => σ.checkDefault s v
  | .wrapTable => return Store.wrapTable
  | .rule allow groups => σ.newRule allow groups
  | .ruleSet => return σ.newRuleSet
  | .buildRuleSet script => σ.buildRuleSet script
  | .allow set a => σ.allow set a
  | .allowGroups set groups => σ.allowGroups set groups
  | .narrow r o => σ.narrow r o
  | .invalidation p f => σ.newInvalidation p f
  | .invalidationOf v => σ.invalidationOf v
  | .generalPolicy p => return Store.generalPolicy p
  | .fieldCache age stale => σ.newFieldCache age stale
  | .typeCache age stale i => σ.newTypeCache age stale i
  | .cacheArguments c => σ.cacheArguments c
  | .interface name fields => σ.newInterface name fields
  | .type name fields => σ.newType name fields
  | .enum name values => σ.newEnum name values
  | .enumOf cls => σ.newEnumOf cls
  | .implement t i => σ.implement t i
  | .cacheType t age stale i => σ.cacheType t age stale i
  | .reference d => σ.reference d
  | .checkFields t => σ.checkTypeFields t
  | .mergeFields d => σ.mergeFields d
  | .interfaceNames t => σ.interfaceNames t
  | .registry => return σ.newRegistry
  | .register r k d => σ.register r k d
  | .get r name => σ.get r name
  | .definitions owner => σ.definitionsOf owner
  | .clear owner => σ.clear owner
  | .builder r => σ.newBuilder r
  | .scalarField b s => σ.scalarField b s
  | .enumField b e => σ.enumField b e
  | .refField b t => σ.refField b t
  | .buildInterface b name fields => σ.buildInterface b name fields
  | .buildType b name fields => σ.buildType b name fields
  | .buildEnum b name values => σ.buildEnum b name values
  | .builderText b indent => σ.builderText b indent
  | .printer indent => σ.newPrinter indent
  | .printWith p what v => σ.printWith p what v
  | .print what indent v => σ.print what indent v
  | .config b indent => σ.configure b indent
  | .configText c => σ.configText c

def perform (σ : Store) (c : Call) : Except Error Value × Store :=
  match σ.plan c with
  | .ok p => (.ok p.answer, σ.applyAll p.changes)
  | .error e => (.error e, σ)

-- The store after a run of calls, whether or not they succeed.
def run (σ : Store) (cs : List Call) : Store := cs.foldl (fun σ c => (σ.perform c).2) σ

@[simp]
theorem run_nil (σ : Store) : σ.run [] = σ := rfl

@[simp]
theorem run_cons (σ : Store) (c : Call) (cs : List Call) :
    σ.run (c :: cs) = (σ.perform c).2.run cs := rfl

theorem run_append (σ : Store) (cs ds : List Call) : σ.run (cs ++ ds) = (σ.run cs).run ds := by
  simp [run]

theorem run_concat (σ : Store) (cs : List Call) (c : Call) :
    σ.run (cs ++ [c]) = ((σ.run cs).perform c).2 := run_append ..

theorem perform_of_plan {σ : Store} {c : Call} {p : Plan} (h : σ.plan c = .ok p) :
    σ.perform c = (.ok p.answer, σ.applyAll p.changes) := by simp [perform, h]

theorem perform_of_refusal {σ : Store} {c : Call} {e : Error} (h : σ.plan c = .error e) :
    σ.perform c = (.error e, σ) := by simp [perform, h]

theorem answer_eq (σ : Store) (c : Call) : (σ.perform c).1 = (σ.plan c).map (·.answer) := by
  unfold perform
  cases σ.plan c <;> rfl

theorem answer_of_plan {σ : Store} {c : Call} {p : Plan} (h : σ.plan c = .ok p) :
    (σ.perform c).1 = .ok p.answer := by rw [perform_of_plan h]

theorem answer_of_refusal {σ : Store} {c : Call} {e : Error} (h : σ.plan c = .error e) :
    (σ.perform c).1 = .error e := by rw [perform_of_refusal h]

theorem run_induction_on {P : Store → Prop} {A : Call → Prop} {σ : Store} {cs : List Call}
    (asked : ∀ c ∈ cs, A c) (start : P σ)
    (step : ∀ σ c p, A c → P σ → σ.plan c = .ok p → P (σ.applyAll p.changes)) : P (σ.run cs) := by
  induction cs generalizing σ with
  | nil => exact start
  | cons c cs ih =>
    have ⟨hc, hcs⟩ := List.forall_mem_cons.mp asked
    rw [run_cons]
    refine ih hcs ?_
    cases h : σ.plan c with
    | ok p => simpa [perform, h] using step σ c p hc start h
    | error e => simpa [perform, h] using start

theorem run_induction {P : Store → Prop} {σ : Store} (cs : List Call) (start : P σ)
    (step : ∀ σ c p, P σ → σ.plan c = .ok p → P (σ.applyAll p.changes)) : P (σ.run cs) :=
  run_induction_on (A := fun _ => True) (fun _ _ => trivial) start fun σ c p _ => step σ c p

end Store

end GraphSchema
