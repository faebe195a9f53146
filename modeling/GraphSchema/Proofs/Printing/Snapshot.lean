import GraphSchema.Proofs.Printing.Filing

namespace GraphSchema

open Outcome Store

-- Configurations are never taken away, and they never change.
theorem Step.getElem?_configs {σ : Store} {call : Call} {cs : List Change} (s : Step σ call cs)
    {n : ConfigId} {c : Config} (h : σ.configs[n]? = some c) :
    (σ.applyAll cs).configs[n]? = some c := by
  cases s
  case wrap hc =>
    have ⟨_, _, _, e⟩ := hc.applyAll_eq
    rw [applyAll_append, e]
    exact h
  case ruleSet | script => rw [applyAll_addRules]; exact h
  case coerce hc =>
    have ⟨_, e⟩ := applyAll_coerceInvalidation hc
    exact e ▸ h
  case typeCache hc | cacheType hc =>
    have ⟨_, e⟩ := applyAll_checkTypeCache hc
    rw [applyAll_append, e]
    exact h
  case config => exact Table.getElem?_push h
  all_goals exact h

def Block.fields : Block → List (String × String)
  | interface _ fs | type _ _ _ fs => fs
  | enum .. => []

namespace Store

variable {σ τ : Store} {c : Call} {d : Definition} {ds : List Definition} {s : String}
  {cfg indent : Value} {n : ConfigId}

theorem configs_run (cs : List Call) {c : Config} (h : σ.configs[n]? = some c) :
    (σ.run cs).configs[n]? = some c :=
  run_induction (P := fun σ => σ.configs[n]? = some c) cs h fun _ _ _ h hp =>
    (step_of_plan hp).getElem?_configs h

-- What a configuration answers.

theorem perform_configDefinitions (hc : σ.configs[n]? = some ⟨ds, .text s⟩) :
    (σ.perform (.property (.object (.config n)) "definitions")).1 = .ok (definitionList ds) := by
  have e : σ.configs.getD n default = ⟨ds, .text s⟩ := by simp [hc]
  rw [answer_eq, plan, property, propertyOf, property?, refProperty, e]
  rfl

theorem perform_configText (hc : σ.configs[n]? = some ⟨ds, .text s⟩) :
    (σ.perform (.configText (.object (.config n)))).1 =
      (σ.printDefinitions (.ofText s) ds).map .text := by
  have e : σ.configs.getD n default = ⟨ds, .text s⟩ := by simp [hc]
  have hn : n < σ.configs.size := (Array.getElem?_eq_some_iff.mp hc).choose
  have ⟨k, hk⟩ := Nat.exists_eq_add_of_lt (Nat.lt_of_lt_of_le hn (Nat.le_add_left _ σ.rules.size))
  have ht : σ.text (.object (.config n)) = σ.printDefinitions (.ofText s) ds := by
    change σ.refText (σ.rules.size + σ.configs.size) (.config n) = _
    rw [hk, refText, e]
    rfl
  rw [answer_eq, plan, configText, ht]
  cases σ.printDefinitions (.ofText s) ds <;> rfl

theorem perform_builderText {g : Value} {b : Builder} (hb : σ.builder? g = some b)
    (hs : Indent.spaces indent = .ok (.text s)) :
    (σ.perform (.builderText g indent)).1 =
      (σ.printDefinitions (.ofText s) (σ.definitions b.registry)).map .text := by
  rw [answer_eq, plan, builderText, hb]
  simp only [hs]
  change (σ.printDefinitions (.ofText s) (σ.definitions b.registry) >>= _).map _ = _
  cases σ.printDefinitions (.ofText s) (σ.definitions b.registry) <;> rfl

theorem perform_definitions {g : Value} {b : Builder} (hb : σ.builder? g = some b) :
    (σ.perform (.definitions g)).1 = .ok (definitionList (σ.definitions b.registry)) := by
  have hr : σ.registryOf? g = some b.registry := by
    unfold builder? at hb
    split at hb
    · next k => simp [registryOf?, registry?, builder?, hb]
    · exact nomatch hb
  rw [answer_eq, plan, definitionsOf, hr]
  rfl

-- Texts one after the other, a blank line between each two.
def joined (vs : List Value) : Value := .text (joinBlocks (vs.filterMap (·.text?)))

theorem printDefinitions_eq_joined (hs : Indent.spaces indent = .ok (.text s))
    (ds : List Definition) :
    (σ.printDefinitions (.ofText s) ds).map .text =
      (ds.mapM fun d => (σ.perform (.print .definition indent (.definition d))).1).map joined := by
  have each (d : Definition) : (σ.perform (.print .definition indent (.definition d))).1 =
      (σ.printDefinition (.ofText s) d).map .text := perform_print hs ..
  have texts (ts : List String) : joined (ts.map .text) = .text (joinBlocks ts) := by
    simp [joined, List.filterMap_map, Value.text?]
  simp only [each, mapM_map, printDefinitions]
  cases ds.mapM (σ.printDefinition (.ofText s))
  case error => rfl
  case ok ts => exact congrArg Except.ok (texts ts).symm

-- What holds of a configuration at any time.
structure Renders (σ : Store) (cfg indent : Value) (ds : List Definition) : Prop where
  definitions : (σ.perform (.property cfg "definitions")).1 = .ok (definitionList ds)
  text : (σ.perform (.configText cfg)).1 = (σ.perform (.print .all indent (definitionList ds))).1
  each : (σ.perform (.configText cfg)).1 =
    (ds.mapM fun d => (σ.perform (.print .definition indent (.definition d))).1).map joined

theorem renders_of_config (hs : Indent.spaces indent = .ok (.text s))
    (hc : σ.configs[n]? = some ⟨ds, .text s⟩) : σ.Renders (.object (.config n)) indent ds where
  definitions := perform_configDefinitions hc
  text := by
    rw [perform_configText hc, definitionList, perform_print hs, printout, printAll_definitions]
  each := by rw [perform_configText hc, printDefinitions_eq_joined hs]

-- The text consists of the blocks that the definitions have now.
def Consists (σ : Store) (cfg : Value) (s : String) (ds : List Definition) : Prop :=
  ∀ text, (σ.perform (.configText cfg)).1 = .ok (.text text) →
    ∃ bs, List.Forall₂ (fun d b => σ.blockOf d = .ok b) ds bs ∧
      text = joinBlocks (bs.map (·.text s))

theorem exists_blocks {ts : List String}
    (h : List.Forall₂ (fun d t => σ.printDefinition (.ofText s) d = .ok t) ds ts) :
    ∃ bs, List.Forall₂ (fun d b => σ.blockOf d = .ok b) ds bs ∧ ts = bs.map (·.text s) := by
  induction h
  case nil => exact ⟨[], .nil, rfl⟩
  case cons h _ hi =>
    have ⟨b, hb, e⟩ := exists_block_of_print h
    have ⟨bs, hbs, es⟩ := hi
    exact ⟨b :: bs, .cons hb hbs, by rw [e, es, List.map_cons]⟩

theorem consists_of_config (hc : σ.configs[n]? = some ⟨ds, .text s⟩) :
    σ.Consists (.object (.config n)) s ds := by
  intro text h
  rw [perform_configText hc] at h
  have ⟨t, ht, e⟩ := map_eq_ok.mp h
  cases e
  have ⟨ts, hts, ht⟩ := bind_eq_ok.mp ht
  have ⟨bs, hb, e⟩ := exists_blocks (forall₂_of_mapM hts)
  exact ⟨bs, hb, e ▸ (pure_eq_ok.mp ht).symm⟩

-- Blocks show what becomes of a definition.

-- The fields of the shape are written with the given type.
def Typed (σ : Store) (d : Definition) (i : ShapeId) (type : String) (b : Block) : Prop :=
  List.Forall₂ (fun p q => q.1 = p.1 ∧
    (p.2.val.shape = i → ∃ directives, q.2 = " ".intercalate (type :: directives)))
    (merge (σ.sourcesOf d)) b.fields

theorem typed_of_shape {i : ShapeId} {b : Block} (h : σ.blockOf d = .ok b) :
    σ.Typed d i (σ.shape i).text b := by
  rw [blockOf_eq] at h
  have ⟨fs, hf, e⟩ := map_eq_ok.mp h
  have each : List.Forall₂ (fun p q => q.1 = p.1 ∧ (p.2.val.shape = i →
      ∃ directives, q.2 = " ".intercalate ((σ.shape i).text :: directives)))
      (merge (σ.sourcesOf d)) fs := by
    refine (forall₂_of_mapM hf).imp fun p q hq => ?_
    have ⟨t, ht, hq⟩ := bind_eq_ok.mp hq
    cases pure_eq_ok.mp hq
    refine ⟨rfl, ?_⟩
    rintro rfl
    have ⟨directives, _, ht⟩ := bind_eq_ok.mp ht
    exact ⟨directives, (pure_eq_ok.mp ht).symm⟩
  cases d
  case interface | type => exact e ▸ each
  case enum => exact e ▸ .nil

-- What a call comes to that does something to a definition, or to a field of one.
structure Live (σ : Store) : Prop where
  implement : ∀ n t w, σ.types[n]? = some t →
    let c := Call.implement (.definition (.type n)) w
    Succeeds (σ.plan c) → ∃ i, σ.interface? w = some i ∧
      ∀ b, (σ.perform c).2.blockOf (.type n) = .ok b →
        ∃ fs, (σ.perform c).2.fieldTexts (merge (t.implement i).sources) = .ok fs ∧
          b = .type t.name (t.interfaceNames ++ [i.val.name]) (t.cache.map (·.val.text)) fs
  cache : ∀ n t age stale i, σ.types[n]? = some t →
    let c := Call.cacheType (.definition (.type n)) age stale i
    Succeeds (σ.plan c) → ∃ cache before, σ.checkTypeCache age stale i = .ok (cache, before) ∧
      ∀ b, (σ.perform c).2.blockOf (.type n) = .ok b →
        ∃ fs, (σ.perform c).2.fieldTexts (merge t.sources) = .ok fs ∧
          b = .type t.name t.interfaceNames (some cache.text) fs
  optional : ∀ v f, σ.field? v = some f →
    let σ' := (σ.perform (.optional v)).2
    ∀ d b, σ'.blockOf d = .ok b → σ'.Typed d f.val.shape (σ.shape f.val.shape).orNull.text b
  list : ∀ v f, σ.field? v = some f → Succeeds (σ.plan (.list v)) →
    let σ' := (σ.perform (.list v)).2
    ∀ d b, σ'.blockOf d = .ok b → σ'.Typed d f.val.shape (σ.shape f.val.shape).listOf.text b

variable {m : TypeId} {t : ObjectType} {f : Numbered Field} {p : Plan} {v w : Value} {b : Block}

theorem blockOf_type_eq_ok (ht : σ.types.getD m default = t) (h : σ.blockOf (.type m) = .ok b) :
    ∃ fs, σ.fieldTexts (merge t.sources) = .ok fs ∧
      b = .type t.name t.interfaceNames (t.cache.map (·.val.text)) fs := by
  rw [blockOf_eq, sourcesOf, ht] at h
  obtain ⟨fs, hf, e⟩ := map_eq_ok.mp h
  exact ⟨fs, hf, by rw [← e, framed, ht]⟩

theorem type?_eq (h : σ.types[m]? = some t) : σ.type? (.definition (.type m)) = some ⟨m, t⟩ := by
  simp [type?, h]

theorem shape_of_modify {i : ShapeId} {g : Outline → Outline} {σ' : Store}
    (he : σ'.shapes = σ.shapes.modify i g) (hi : i < σ.shapes.size) (ht : σ'.isTrue = σ.isTrue) :
    σ'.shape i = (g (σ.outline i)).shape σ.isTrue := by
  rw [shape, outline_of_modify he hi, if_pos rfl, ht]

theorem live (hσ : σ.Formed) : σ.Live := by
  constructor
  case implement =>
    rintro m t w ht c ⟨p, hp⟩
    obtain ⟨_, i, hu, hi, _, _, e⟩ := implement_eq_ok hp
    cases (type?_eq ht).symm.trans hu
    refine ⟨i, hi, fun b hb => ?_⟩
    have after : (σ.perform c).2.types.getD m default = t.implement i := by
      simp [perform_of_plan hp, e, apply, ht, Array.getElem?_modify]
    have h := blockOf_type_eq_ok after hb
    rwa [ObjectType.interfaceNames_implement] at h
  case cache =>
    rintro m t age stale i ht c ⟨p, hp⟩
    obtain ⟨_, cache, before, hu, hc, e⟩ := cacheType_eq_ok hp
    cases (type?_eq ht).symm.trans hu
    refine ⟨cache, before, hc, fun b hb => ?_⟩
    obtain ⟨_, eb⟩ := applyAll_checkTypeCache hc
    have after : (σ.perform c).2.types.getD m default =
        t.withCache ⟨σ.typeCaches.size, cache⟩ := by
      simp [perform_of_plan hp, e, eb, apply, ht, Array.getElem?_modify]
    exact blockOf_type_eq_ok after hb
  case optional =>
    intro v f hf σ' d b hb
    have hp : σ.plan (.optional v) = .ok _ := optional_eq_ok.mpr ⟨f, hf, rfl⟩
    have hs := (hσ f.id f.val (field?_eq_some hf)).shape_lt
    have e : σ' = σ.apply (.makeNullable f.val.shape) := congrArg Prod.snd (perform_of_plan hp)
    have after : σ'.shape f.val.shape = (σ.shape f.val.shape).orNull :=
      (shape_of_modify (e ▸ rfl) hs (e ▸ rfl)).trans (Outline.shape_orNull σ.isTrue_bool _)
    exact after ▸ typed_of_shape hb
  case list =>
    rintro v f hf ⟨p, hp⟩ σ' d b hb
    obtain ⟨g, hg, _, _, ep⟩ := list_eq_ok.mp hp
    cases hf.symm.trans hg
    have hs := (hσ f.id f.val (field?_eq_some hf)).shape_lt
    have e : σ' = σ.apply (.makeList f.val.shape) :=
      congrArg Prod.snd (perform_of_plan (ep ▸ hp))
    have after : σ'.shape f.val.shape = (σ.shape f.val.shape).listOf :=
      (shape_of_modify (e ▸ rfl) hs (e ▸ rfl)).trans (Outline.shape_listOf σ.isTrue_bool _)
    exact after ▸ typed_of_shape hb

-- What becomes of the registries makes no difference: none at all if nothing but that happens, and
-- none to the text if definitions are made on the way.
structure Unmoved (σ : Store) (cfg : Value) : Prop where
  filed : ∀ c, ((∃ v k w, c = .register v k w) ∨ ∃ v, c = .clear v) →
    ((σ.perform c).2.perform (.configText cfg)).1 = (σ.perform (.configText cfg)).1
  registers : ∀ c, c.registers →
    ((σ.perform c).2.perform (.configText cfg)).1.toOption =
      (σ.perform (.configText cfg)).1.toOption

theorem unmoved_run (cs : List Call) (hc : (({} : Store).run cs).configs[n]? = some ⟨ds, .text s⟩)
    (hd : ∀ d ∈ ds, (({} : Store).run cs).Grounded d) :
    (({} : Store).run cs).Unmoved (.object (.config n)) := by
  have kept (c : Call) : ((({} : Store).run cs).perform c).2.configs[n]? = some ⟨ds, .text s⟩ :=
    configs_run [c] hc
  constructor
  case filed =>
    intro c hr
    have ⟨rs, log, e⟩ := exists_refiled (σ := ({} : Store).run cs) hr
    have each := mapM_congr fun d h => printDefinition_refiled (s := s) rs log (hd d h)
    rw [perform_configText (kept c), perform_configText hc, e, printDefinitions, each,
      printDefinitions]
  case registers =>
    intro c hr
    have each := toOption_mapM_congr ds fun d h =>
      toOption_printDefinition_registers (s := s) cs hr (hd d h)
    rw [run_concat] at each
    rw [perform_configText (kept c), perform_configText hc]
    simp only [toOption_map, printDefinitions, toOption_bind, each]

-- Indents are lines of blanks, or whatever text is given, unless there is no room for them.
theorem spaces_cases (hi : (∃ n, indent = .int n) ∨ ∃ t, indent = .text t) :
    (∃ e, Indent.spaces indent = .error e) ∨ ∃ s, Indent.spaces indent = .ok (.text s) := by
  rcases hi with ⟨n, rfl⟩ | ⟨t, rfl⟩
  case inr => exact .inr ⟨t, rfl⟩
  case inl =>
    cases hs : Indent.spaces (.int n)
    case error e => exact .inl ⟨e, rfl⟩
    case ok i =>
      obtain ⟨s, rfl, _⟩ := spaces_int hs
      exact .inr ⟨s, rfl⟩

-- A configuration has the definitions that the builder had when it was made, in their order. At any
-- time it reads as they do: like the builder at first, and later as what becomes of the definitions
-- and their fields makes them read, while it makes no difference what becomes of the registries.
theorem renders_run (cs : List Call) (g indent : Value) {b : Builder}
    (hb : (({} : Store).run cs).builder? g = some b)
    (hi : (∃ n, indent = .int n) ∨ ∃ t, indent = .text t) :
    let σ := ({} : Store).run cs
    let made := (σ.perform (.config g indent)).2
    (∃ e, Indent.spaces indent = .error e ∧ (σ.perform (.config g indent)).1 = .error e) ∨
      ∃ s cfg ds, Indent.spaces indent = .ok (.text s) ∧
        (σ.perform (.config g indent)).1 = .ok cfg ∧
        (σ.perform (.definitions g)).1 = .ok (definitionList ds) ∧
        (made.perform (.definitions g)).1 = .ok (definitionList ds) ∧
        (made.perform (.configText cfg)).1 = (made.perform (.builderText g indent)).1 ∧
        ∀ bs, let τ := made.run bs
          τ.Renders cfg indent ds ∧ τ.Consists cfg s ds ∧ τ.Live ∧
            ((∀ d ∈ ds, τ.Grounded d) → τ.Unmoved cfg) := by
  intro σ made
  have hn : g.isNull = false := by cases g <;> first | rfl | exact nomatch hb
  have plan : σ.plan (.config g indent) = Indent.spaces indent >>= fun i =>
      .ok ⟨[.addConfig ⟨σ.definitions b.registry, i⟩], .object (.config σ.configs.size)⟩ := by
    simp only [Store.plan, configure, hn, σ, hb]
    rfl
  rcases spaces_cases hi with ⟨e, hs⟩ | ⟨s, hs⟩
  case inl => exact .inl ⟨e, hs, answer_of_refusal (by rw [plan, hs]; rfl)⟩
  case inr =>
    rw [hs] at plan
    have hp := perform_of_plan plan
    have em : made = σ.apply (.addConfig ⟨σ.definitions b.registry, .text s⟩) :=
      congrArg Prod.snd hp
    have hm : made.configs[σ.configs.size]? = some ⟨σ.definitions b.registry, .text s⟩ := by
      simp [em, apply]
    have hb' : made.builder? g = some b := em ▸ hb
    have ed : made.definitions b.registry = σ.definitions b.registry := by rw [em]; rfl
    refine .inr ⟨s, _, _, hs, congrArg Prod.fst hp, perform_definitions hb,
      ed ▸ perform_definitions hb', ?_, fun bs => ?_⟩
    · rw [perform_configText hm, perform_builderText hb' hs, ed]
    · have er : made.run bs = ({} : Store).run (cs ++ .config g indent :: bs) :=
        (run_append {} cs (.config g indent :: bs)).symm
      have hr := configs_run bs hm
      exact ⟨renders_of_config hs hr, consists_of_config hr, live (er ▸ formed_run _),
        fun hd => er ▸ unmoved_run _ (er ▸ hr) (er ▸ hd)⟩

-- The registry is emptied, and after that the type gets an interface and a cache, and one of its
-- fields becomes optional.

def fruits : List Call :=
  let builder := Value.object (.builder 0)
  [.builder .null, .buildEnum builder (.text "Color") (.texts ["RED", "GREEN"]),
    .scalarField builder .string, .scalarField builder .int, .search (.field 1),
    .buildInterface builder (.text "Produce") (.dict [(.text "name", .field 0)]),
    .buildType builder (.text "Fruit")
      (.dict [(.text "name", .field 0), (.text "weight", .field 2)])]

def grown : List Call :=
  [.clear (.object (.builder 0)), .implement (.definition (.type 0)) (.definition (.interface 0)),
    .cacheType (.definition (.type 0)) (.int 60) .null .null, .optional (.field 1)]

def grownText : String :=
  "enum Color \x7b\n  RED\n  GREEN\n\x7d\n\ninterface Produce \x7b\n  name: String!\n\x7d\n\n" ++
    "type Fruit implements Produce @cache(maxAge: 60) \x7b\n  name: String!\n" ++
    "  weight: Int @search\n\x7d"

set_option maxRecDepth 4000 in
theorem renders_fruits :
    let σ := ({} : Store).run fruits
    let made := (σ.perform (.config (.object (.builder 0)) (.int 2))).2
    let τ := made.run grown
    ∃ cfg ds, (σ.perform (.config (.object (.builder 0)) (.int 2))).1 = .ok cfg ∧
      (σ.perform (.definitions (.object (.builder 0)))).1 = .ok (definitionList ds) ∧
      τ.Renders cfg (.int 2) ds ∧ τ.Unmoved cfg ∧
      (τ.perform (.configText cfg)).1 = .ok (.text grownText) := by
  have text : ((((({} : Store).run fruits).perform
      (.config (.object (.builder 0)) (.int 2))).2.run grown).perform
        (.configText (.object (.config 0)))).1 = .ok (.text grownText) := rfl
  intro σ made τ
  have first : (σ.perform (.definitions (.object (.builder 0)))).1 =
      .ok (definitionList [.enum 0, .interface 0, .type 0]) := rfl
  rcases renders_run fruits (.object (.builder 0)) (.int 2) rfl (.inl ⟨2, rfl⟩) with
    ⟨_, hs, _⟩ | ⟨s, cfg, ds, _, hc, hd, _, _, h⟩
  case inl => exact nomatch hs
  case inr =>
    have ed := Value.list.inj (Except.ok.inj (hd.symm.trans first))
    have ed : ds = [.enum 0, .interface 0, .type 0] :=
      List.map_injective_iff.mpr (fun _ _ h => by cases h; rfl) ed
    subst ed
    have ec : cfg = .object (.config 0) := (Except.ok.inj hc).symm
    subst ec
    have ⟨hr, _, _, hu⟩ := h grown
    exact ⟨_, _, hc, hd, hr, hu (by decide), text⟩

end Store

end GraphSchema
