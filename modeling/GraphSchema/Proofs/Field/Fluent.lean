import GraphSchema.Proofs.Field.Frame
import GraphSchema.Proofs.Field.Listing

namespace GraphSchema

open Outcome

-- A call on the field that is being built.
inductive Fluent
  | optional
  | list
  | wrap (w : Wrapping)

-- What is remembered of a call that succeeded: of a directive, how it read right after.
inductive Mark
  | optional
  | list
  | directive (text : Except Error Value)

namespace Fluent

def on (field : Value) : Fluent → FieldCall
  | optional => .optional field
  | list => .list field
  | wrap w => .wrap field w

def mark (σ : Store) (field : Value) : Fluent → Mark
  | optional => .optional
  | list => .list
  | wrap _ => .directive (σ.perform (.directive field)).1

end Fluent

namespace Mark

def isOptional : Mark → Bool
  | optional => true
  | _ => false

def isList : Mark → Bool
  | list => true
  | _ => false

def text? : Mark → Option (Except Error Value)
  | directive t => some t
  | _ => none

-- The type that is read off the calls. Asking for a list splits them: what was made optional before
-- are the items, and what is made optional after that is the list.
def typeText (name : String) (nullable : Bool) (ms : List Mark) : String :=
  let required (nullable : Bool) (ms : List Mark) : String :=
    if nullable || ms.any isOptional then "" else "!"
  match ms.dropWhile (! ·.isList) with
  | [] => name ++ required nullable ms
  | _ :: after =>
    "[" ++ name ++ required nullable (ms.takeWhile (! ·.isList)) ++ "]" ++ required false after

-- What the calls do to a shape.
def reshape (s : Shape) : Mark → Shape
  | optional => s.orNull
  | list => s.listOf
  | directive _ => s

-- There is at most one list, and only optional fields before it.
def Ordered (ms : List Mark) : Prop := ms.Pairwise fun m m' => m'.isList → m.isOptional

variable {ms : List Mark}

theorem foldl_reshape (h : ∀ m ∈ ms, m.isList = false) (s : Shape) :
    ms.foldl reshape s = { s with nullable := s.nullable || ms.any isOptional } := by
  induction ms generalizing s
  case nil => simp
  case cons m ms hi =>
    have ⟨hm, hms⟩ := List.forall_mem_cons.mp h
    rw [List.foldl_cons, hi hms]
    cases m
    case list => exact nomatch hm
    case optional => simp [reshape, Shape.orNull, isOptional]
    case directive => simp [reshape, isOptional]

theorem base_foldl_reshape (ms : List Mark) (s : Shape) : (ms.foldl reshape s).base = s.base := by
  induction ms generalizing s
  case nil => rfl
  case cons m ms hi =>
    rw [List.foldl_cons, hi]
    cases m <;> rfl

theorem isList_foldl_reshape (ms : List Mark) (s : Shape) :
    (ms.foldl reshape s).isList = (s.isList || ms.any isList) := by
  induction ms generalizing s
  case nil => simp
  case cons m ms hi =>
    rw [List.foldl_cons, hi]
    cases m <;> simp [reshape, Shape.orNull, Shape.listOf, isList]

theorem Ordered.concat (h : Ordered ms) {m : Mark} (hm : m.isList → ∀ m ∈ ms, m.isOptional) :
    Ordered (ms ++ [m]) := by
  refine List.pairwise_append.mpr ⟨h, List.pairwise_singleton .., fun a ha b hb hl => ?_⟩
  cases List.mem_singleton.mp hb
  exact hm hl a ha

theorem text_foldl_reshape (h : Ordered ms) (b : Base) (nullable : Bool) :
    (ms.foldl reshape ⟨b, nullable, false, false⟩).text = typeText b.name nullable ms := by
  have hb : ∀ m ∈ ms.takeWhile (! ·.isList), m.isList = false := fun m hm => by
    simpa using List.all_eq_true.mp List.all_takeWhile m hm
  have hs : ms.takeWhile (! ·.isList) ++ ms.dropWhile (! ·.isList) = ms :=
    List.takeWhile_append_dropWhile
  unfold typeText
  split
  case h_1 hd =>
    rw [hd, List.append_nil] at hs
    rw [foldl_reshape (hs ▸ hb)]
    rfl
  case h_2 m after hd =>
    have hm : m = .list := by
      have hm := List.head?_dropWhile_not (! ·.isList) ms
      rw [hd] at hm
      cases m
      case list => rfl
      all_goals exact nomatch hm
    subst hm
    rw [hd] at hs
    have ha : ∀ m ∈ after, m.isList = false := fun m hm => by
      have h := (List.pairwise_append.mp (hs ▸ h)).right.left
      cases hl : m.isList
      case false => rfl
      case true => exact nomatch List.rel_of_pairwise_cons h hm hl
    rw [← hs, List.foldl_append, List.foldl_cons, foldl_reshape hb, foldl_reshape ha, hs]
    rfl

end Mark

-- A field under construction: the store, the last node, and what was done so far.
structure Chain where
  store : Store
  node : Value
  marks : List Mark

namespace Chain

def start (σ : Store) (b : Base) (nullable : Bool) : Chain where
  store := (σ.perform (.leaf b.toValue (.bool nullable))).2
  node := .field σ.fields.size
  marks := []

-- A call that is refused is skipped.
def step (s : Chain) (c : Fluent) : Chain :=
  match s.store.perform (c.on s.node).call with
  | (.ok node, store) => ⟨store, node, s.marks ++ [c.mark store node]⟩
  | (.error _, store) => { s with store }

def run (s : Chain) (cs : List Fluent) : Chain := cs.foldl step s

end Chain

namespace Store

-- The store is one that a run of calls can make.
def Reached (σ : Store) : Prop := ∃ cs, σ = ({} : Store).run cs

variable {σ σ' : Store} {n : FieldId} {f : Field} {d : Directive}

theorem Reached.perform (h : σ.Reached) (c : Call) : (σ.perform c).2.Reached :=
  have ⟨cs, e⟩ := h
  ⟨cs ++ [c], by rw [run_append, ← e]; rfl⟩

theorem Reached.applyAll (h : σ.Reached) {c : Call} {p : Plan} (hp : σ.plan c = .ok p) :
    (σ.applyAll p.changes).Reached := by
  have h := h.perform c
  rwa [perform_of_plan hp] at h

theorem Reached.allWorded (h : σ.Reached) : σ.AllWorded := have ⟨cs, e⟩ := h; e ▸ allWorded_run cs

theorem Keeps.rulesOf_eq (hk : Keeps σ σ') (hw : σ.AllWorded) {a : RuleSetId}
    (ha : σ.ruleIds a ≠ []) : σ'.rulesOf a = σ.rulesOf a := by
  have hlt := lt_of_ruleIds_ne_nil ha
  have hs : σ'.ruleIds a = σ.ruleIds a := by
    simp only [ruleIds, Array.getD_eq_getD_getElem?, getElem?_eq hk.ruleSets hlt]
  rw [rulesOf, rulesOf, hs]
  refine List.map_congr_left fun r hr => ?_
  obtain ⟨b, hb, _⟩ := hw a _ (Array.getElem?_eq_getElem hlt) r (by simpa [ruleIds, hlt] using hr)
  simp [rule, hb, hk.rules r b hb]

-- A directive reads the same as long as nothing but fields is built.
theorem toOption_directiveText_keeps (hσ : σ.Reached) (hσ' : σ'.Reached) (hk : Keeps σ σ')
    (hf : σ.fields[n]? = some f) (hs : σ.Sound f) (hd : d ∈ f.directives) (bare : Bool) :
    (σ'.directiveText bare d).toOption = (σ.directiveText bare d).toOption := by
  refine toOption_directiveText_eq hσ.allWorded hσ'.allWorded ?_ ?_ bare
  · rintro v rfl
    obtain ⟨cs, rfl⟩ := hσ
    exact ⟨allKeyed_run cs n f hf v hd, hk.settle_eq (hs.plain v hd)⟩
  · rintro a rfl
    have hw := hσ.allWorded
    obtain ⟨cs, rfl⟩ := hσ
    exact hk.rulesOf_eq hw ((rooted_run cs).held n f hf a hd)

theorem toOption_directive_eq {ds : List Directive} (hf : σ.fields[n]? = some f)
    (hd : f.directives = d :: ds) : (σ.perform (.directive (.field n))).1.toOption =
      (σ.directiveText (σ.shape f.shape).isEnum d).toOption.map .text := by
  have hg : σ.field? (.field n) = some ⟨n, f⟩ := field?_eq_some_iff.mpr ⟨rfl, hf⟩
  simp only [perform, plan, directive, hg, hd]
  cases σ.directiveText (σ.shape f.shape).isEnum d <;> rfl

end Store

namespace Chain

open Store

-- What the marks tell about the field that was built so far.
structure Tracks (s : Chain) (b : Base) (nullable : Bool) (n : FieldId) (f : Field) : Prop where
  reached : s.store.Reached
  node : s.node = .field n
  field : s.store.fields[n]? = some f
  sound : s.store.Sound f
  suits : ∀ d ∈ f.directives, s.store.Suits f.shape d
  shape : s.store.shape f.shape = s.marks.foldl Mark.reshape ⟨b, nullable, false, false⟩
  texts : List.Forall₂
    (fun d t => (s.store.directiveText b.isEnum d).toOption.map .text = t.toOption)
    f.directives.reverse (s.marks.filterMap Mark.text?)
  ordered : Mark.Ordered s.marks

variable {s : Chain} {b : Base} {nullable : Bool} {n : FieldId} {f : Field} {p : Plan}

theorem plan_leaf {σ : Store} (b : Base) (nullable : Value) :
    σ.plan (FieldCall.leaf b.toValue nullable).call = .ok (σ.leafPlan b nullable) := by
  simp only [FieldCall.call, plan, newLeaf, Base.ofValue?_toValue]
  rfl

theorem tracks_start {σ : Store} (hσ : σ.Reached) (b : Base) (nullable : Bool) :
    (start σ b nullable).Tracks b nullable σ.fields.size
      ⟨σ.shapes.size, σ.fields.size, none, []⟩ := by
  have hs : (start σ b nullable).store = σ.applyAll (σ.leafPlan b (.bool nullable)).changes :=
    congrArg Prod.snd (perform_of_plan (plan_leaf b _))
  have ho : (start σ b nullable).store.outline σ.shapes.size = .single b (.bool nullable) :=
    hs ▸ outline_leafPlan σ b (.bool nullable)
  constructor
  case reached => exact hσ.perform _
  case node => rfl
  case field => exact hs ▸ getElem?_leafPlan σ b (.bool nullable)
  case sound =>
    refine ⟨?_, ?_, nofun, nofun⟩
    · rw [hs]
      exact Nat.lt_of_lt_of_eq (Nat.lt_succ_self _) (Array.size_push _).symm
    · rw [ho]
      exact .single nofun
  case suits => exact nofun
  case shape =>
    rw [Store.shape, ho]
    rfl
  case texts => exact .nil
  case ordered => exact .nil

namespace Tracks

-- What every call on fields leaves alone of a field that was there.
theorem texts_kept (h : s.Tracks b nullable n f) {σ : Store} (hσ : σ.Reached)
    (hk : Keeps s.store σ) : List.Forall₂
      (fun d t => (σ.directiveText b.isEnum d).toOption.map .text = t.toOption)
      f.directives.reverse (s.marks.filterMap Mark.text?) := by
  have hd : ∀ d ∈ f.directives.reverse, d ∈ f.directives := fun _ => List.mem_reverse.mp
  refine List.Forall₂.imp (fun d t ⟨hd, ht⟩ => ?_)
    ((List.forall₂_and_left _ _).mpr ⟨hd, h.texts⟩)
  rw [toOption_directiveText_keeps h.reached hσ hk h.field h.sound hd, ht]

theorem field? (h : s.Tracks b nullable n f) : s.store.field? s.node = some ⟨n, f⟩ :=
  field?_eq_some_iff.mpr ⟨h.node, h.field⟩

theorem isEnum_shape (h : s.Tracks b nullable n f) : (s.store.shape f.shape).isEnum = b.isEnum := by
  rw [h.shape, Shape.isEnum, Mark.base_foldl_reshape]

-- A call that adds no directive returns the node that it is made on.
theorem reshaped (h : s.Tracks b nullable n f) {c : FieldCall} (hp : s.store.plan c.call = .ok p)
    (same : p.answer = s.node) (kept : (s.store.applyAll p.changes).fields = s.store.fields)
    {m : Mark} (silent : m.text? = none)
    (suits : ∀ d ∈ f.directives, (s.store.applyAll p.changes).Suits f.shape d)
    (shape : (s.store.applyAll p.changes).shape f.shape = Mark.reshape (s.store.shape f.shape) m)
    (ordered : Mark.Ordered (s.marks ++ [m])) :
    Tracks ⟨s.store.applyAll p.changes, p.answer, s.marks ++ [m]⟩ b nullable n f := by
  have ⟨hd, hk⟩ := FieldCall.does_of_plan hp
  have hr := h.reached.applyAll hp
  constructor
  case reached => exact hr
  case node => exact same.trans h.node
  case field => exact kept ▸ h.field
  case sound => exact h.sound.preserved hd hk
  case suits => exact suits
  case shape =>
    rw [List.foldl_append, ← h.shape]
    exact shape
  case texts =>
    rw [List.filterMap_append, List.filterMap_cons_none silent, List.filterMap_nil,
      List.append_nil]
    exact h.texts_kept hr hk
  case ordered => exact ordered

theorem optional (h : s.Tracks b nullable n f)
    (hp : s.store.plan (FieldCall.optional s.node).call = .ok p) :
    Tracks ⟨s.store.applyAll p.changes, p.answer, s.marks ++ [.optional]⟩ b nullable n f := by
  have hk := (FieldCall.does_of_plan hp).right
  obtain ⟨g, hg, rfl⟩ := optional_eq_ok.mp hp
  cases h.field?.symm.trans hg
  have hs := shape_of_orNull hk h.sound.known
    ((outline_of_modify rfl h.sound.shape_lt).trans (if_pos rfl))
  apply h.reshaped hp rfl rfl rfl
  case suits =>
    exact fun d hm => (suits_congr hk (h.sound.isPlain hm) (.inr hs)).mpr (h.suits d hm)
  case shape => exact hs
  case ordered => exact h.ordered.concat fun hl => absurd hl Bool.false_ne_true

theorem list (h : s.Tracks b nullable n f)
    (hp : s.store.plan (FieldCall.list s.node).call = .ok p) :
    Tracks ⟨s.store.applyAll p.changes, p.answer, s.marks ++ [.list]⟩ b nullable n f := by
  have hk := (FieldCall.does_of_plan hp).right
  obtain ⟨g, hg, hb, hl, rfl⟩ := list_eq_ok.mp hp
  cases h.field?.symm.trans hg
  apply h.reshaped hp rfl rfl rfl
  case suits => exact fun d hm => absurd (hb ▸ hm : d ∈ []) List.not_mem_nil
  case shape =>
    exact shape_of_listOf hk h.sound.known
      ((outline_of_modify rfl h.sound.shape_lt).trans (if_pos rfl))
  case ordered =>
    refine h.ordered.concat fun _ m hm => ?_
    -- There is no directive yet, and no list.
    have ht := h.texts
    rw [hb] at ht
    have ht := List.filterMap_eq_nil_iff.mp (List.forall₂_nil_left_iff.mp ht) m hm
    rw [h.shape, Mark.isList_foldl_reshape] at hl
    have hl := List.any_eq_false.mp hl m hm
    cases m
    case optional => rfl
    case list => exact absurd rfl hl
    case directive => exact nomatch ht

theorem wrap (h : s.Tracks b nullable n f) {w : Wrapping}
    (hp : s.store.plan (FieldCall.wrap s.node w).call = .ok p) :
    ∃ n' f', Tracks ⟨s.store.applyAll p.changes, p.answer,
      s.marks ++ [(Fluent.wrap w).mark (s.store.applyAll p.changes) p.answer]⟩
      b nullable n' f' := by
  have ⟨hd, hk⟩ := FieldCall.does_of_plan hp
  have hr := h.reached.applyAll hp
  obtain ⟨g, before, d, hw, _, hc, rfl⟩ := w.plan_eq_ok hp
  cases h.field?.symm.trans (checkWrap_eq_ok.mp hw).left
  refine ⟨s.store.fields.size, .wrap ⟨n, f⟩ d, ?_⟩
  generalize hσ : s.store.applyAll (s.store.wrapPlan ⟨n, f⟩ before d).changes = σ at *
  have hf : σ.fields[s.store.fields.size]? = some (.wrap ⟨n, f⟩ d) := by
    rw [← hσ, wrapPlan, applyAll_append, ← hc.fields_eq]
    exact Array.getElem?_push_size
  have ho : σ.shapes = s.store.shapes := by
    rw [← hσ, wrapPlan, applyAll_append]
    exact hc.shapes_eq
  have hs : σ.shape f.shape = s.store.shape f.shape :=
    shape_of_outline hk h.sound.known (by simp only [outline, ho])
  have sound := h.sound.wrap hc
  constructor
  case reached => exact hr
  case node => rfl
  case field => exact hf
  case sound => exact sound.preserved hd hk
  case suits =>
    intro e hm
    refine (suits_congr hk (sound.isPlain hm) (.inl hs)).mpr ?_
    cases List.mem_cons.mp hm
    case inl e => exact e ▸ hc.suits
    case inr hm => exact h.suits e hm
  case shape =>
    rw [List.foldl_append, ← h.shape]
    exact hs
  case texts =>
    rw [List.filterMap_append, Field.wrap, List.reverse_cons]
    refine List.rel_append (h.texts_kept hr hk) (.cons ?_ .nil)
    rw [wrapPlan, toOption_directive_eq hf rfl, Field.shape_wrap, hs, h.isEnum_shape]
  case ordered => exact h.ordered.concat fun hl => absurd hl Bool.false_ne_true

theorem step (h : s.Tracks b nullable n f) (c : Fluent) :
    ∃ n' f', (s.step c).Tracks b nullable n' f' := by
  unfold Chain.step
  cases hp : s.store.plan (c.on s.node).call
  case error e =>
    rw [perform, hp]
    exact ⟨n, f, h⟩
  case ok p =>
    rw [perform_of_plan hp]
    cases c
    case optional => exact ⟨n, f, h.optional hp⟩
    case list => exact ⟨n, f, h.list hp⟩
    case wrap => exact h.wrap hp

theorem run (h : s.Tracks b nullable n f) (cs : List Fluent) :
    ∃ n' f', (s.run cs).Tracks b nullable n' f' := by
  induction cs generalizing s n f
  case nil => exact ⟨n, f, h⟩
  case cons c cs hi =>
    have ⟨_, _, h⟩ := h.step c
    exact hi h

end Tracks

-- Results that agree with texts up to how they fail are the texts, if there are all of them.
theorem mapM_eq_ok_iff {ds : List Directive} {rs : List (Except Error Value)}
    {text : Directive → Except Error String}
    (h : List.Forall₂ (fun d r => (text d).toOption.map .text = r.toOption) ds rs)
    (ts : List String) : ds.mapM text = .ok ts ↔ rs = ts.map fun t => .ok (.text t) := by
  induction h generalizing ts
  case nil => cases ts <;> simp [pure, Except.pure]
  case cons d r ds rs hr _ hi =>
    have hd (t : String) : text d = .ok t ↔ r = .ok (.text t) := by
      cases hd : text d <;> cases r <;> simp only [hd, Except.toOption, Option.map_some,
        Option.map_none, Option.some.injEq, reduceCtorEq] at hr
      case ok.ok => simp [← hr]
      case error.error => simp
    rw [mapM_cons_eq_ok]
    cases ts <;> simp [hd, hi]

theorem render_eq_ok_iff {σ : Store} (hf : σ.fields[n]? = some f) (t : String) :
    (σ.perform (.render (.field n))).1 = .ok (.text t) ↔ ∃ ts,
      f.directives.reverse.mapM (σ.directiveText (σ.shape f.shape).isEnum) = .ok ts ∧
      t = " ".intercalate ((σ.shape f.shape).text :: ts) := by
  have hr : (σ.perform (.render (.field n))).1 = .ok (.text t) ↔ σ.fieldText f = .ok t := by
    simp only [perform, plan_render hf]
    cases σ.fieldText f <;> simp [bind, Except.bind, pure, Except.pure, Plan.say]
  rw [hr, fieldText, bind_eq_ok]
  simp only [pure_eq_ok, @eq_comm _ t]

-- The field reads as the calls that succeeded tell, if it can be written at all; only one of them
-- made it a list, before there were directives; and the directives are right for it.
theorem render_fluent_run_iff (cs : List Call) (b : Base) (nullable : Bool) (fs : List Fluent) :
    let s := (start (({} : Store).run cs) b nullable).run fs
    Mark.Ordered s.marks ∧
    (∀ t, (s.store.perform (.render s.node)).1 = .ok (.text t) ↔ ∃ ts : List String,
      s.marks.filterMap Mark.text? = (ts.map fun t => .ok (.text t)) ∧
      t = " ".intercalate (Mark.typeText b.name nullable s.marks :: ts)) ∧
    ∃ n f, s.node = .field n ∧ s.store.fields[n]? = some f ∧
      ∀ d ∈ f.directives, s.store.Suits f.shape d := by
  intro s
  have ⟨n, f, h⟩ := (tracks_start ⟨cs, rfl⟩ b nullable).run fs
  refine ⟨h.ordered, fun t => ?_, n, f, h.node, h.field, h.suits⟩
  have ht : (s.store.shape f.shape).text = Mark.typeText b.name nullable s.marks := by
    rw [h.shape, Mark.text_foldl_reshape h.ordered]
  rw [h.node, render_eq_ok_iff h.field, h.isEnum_shape, ht]
  exact exists_congr fun ts => and_congr_left' (mapM_eq_ok_iff h.texts ts)

-- The items of the list are required, and the list itself is not.
theorem render_fluent_tags :
    let tags := Wrapping.default (.texts ["a", "b"])
    let s := (start {} (.scalar .string) false).run [.list, .wrap tags, .list, .optional]
    (s.store.perform (.render s.node)).1 =
      .ok (.text "[String!] @default(value: [\"a\", \"b\"])") := by
  intro tags s
  have ⟨_, text, _⟩ := render_fluent_run_iff [] (.scalar .string) false
    [.list, .wrap tags, .list, .optional]
  exact (text _).mpr ⟨["@default(value: [\"a\", \"b\"])"], rfl, rfl⟩

end Chain

end GraphSchema
