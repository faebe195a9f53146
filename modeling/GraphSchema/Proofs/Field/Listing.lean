import GraphSchema.Proofs.Field.Building

namespace GraphSchema

open Outcome Store

namespace Store

-- The directive is right for fields of the shape, as the shape is now.
def Suits (σ : Store) (s : ShapeId) : Directive → Prop
  | .length .. => (σ.shape s).isString ∧ (σ.shape s).isList = false
  | .default v => Succeeds (σ.plan (.checkDefault (.object (.shape s)) v))
  | _ => True

-- The directive is right for a list of what it was right for.
def Survives (σ : Store) : Directive → Prop
  | .length .. => False
  | .default v => (∃ xs, σ.settle v = .list xs) ∨ ∃ xs, σ.settle v = .tuple xs
  | _ => True

-- The call succeeds in turning the shape into a list.
def Lists (σ : Store) (v : Value) (s : ShapeId) : Prop :=
  ∃ f, σ.field? v = some f ∧ f.val.shape = s ∧ Succeeds (σ.plan (.list v))

-- The property of all directives that are on top of the shape.
def OnAll (σ : Store) (s : ShapeId) (P : Directive → Prop) : Prop :=
  ∀ (n : FieldId) (f : Field), σ.fields[n]? = some f → f.shape = s → ∀ d ∈ f.directives, P d

variable {σ σ' : Store} {s : ShapeId} {d : Directive} {v : Value}

theorem suits_default_iff : σ.Suits s (.default v) ↔ (σ.shape s).accepts (σ.settle v) := by
  simp only [Suits, plan, checkDefault]
  cases hn : v.isNull
  case true =>
    have hv : v = .null := by cases v <;> first | rfl | cases hn
    subst hv
    refine iff_of_false ?_ (by simp [settle, Value.settle, Shape.accepts, Value.isNull])
    exact not_succeeds_error
  case false =>
    simp only [Bool.false_eq_true, if_false]
    rw [← @Shape.checkDefault_eq_ok_iff σ.display]
    exact succeeds_bind_pure.trans succeeds_unit

theorem suits_congr (hk : Keeps σ σ') (hv : ∀ v, d = .default v → (σ.settle v).isPlain)
    (hs : σ'.shape s = σ.shape s ∨ σ'.shape s = (σ.shape s).orNull) :
    σ'.Suits s d ↔ σ.Suits s d := by
  cases d
  case length =>
    rcases hs with hs | hs
    case inl => simp only [Suits, hs]
    case inr => simp only [Suits, hs]; rfl
  case default v =>
    rw [suits_default_iff, suits_default_iff, hk.settle_eq (hv v rfl)]
    rcases hs with hs | hs <;> rw [hs]
    rw [Shape.accepts_orNull]
  all_goals exact Iff.rfl

theorem suits_listOf_iff (hk : Keeps σ σ') (hv : ∀ v, d = .default v → (σ.settle v).isPlain)
    (hl : (σ.shape s).isList = false) (hs : σ'.shape s = (σ.shape s).listOf) (h : σ.Suits s d) :
    σ'.Suits s d ↔ σ.Survives d := by
  cases d
  case length => simp [Suits, Survives, hs]
  case default v =>
    rw [suits_default_iff] at h ⊢
    rw [hk.settle_eq (hv v rfl), hs]
    exact Shape.accepts_listOf hl h
  all_goals exact Iff.rfl

theorem Checked.suits {before : List Change} (h : σ.Checked (σ.shape s) before d) :
    σ.Suits s d := by
  cases h
  case length hs hl _ => exact ⟨hs, hl⟩
  case default ha => exact suits_default_iff.mpr ha
  all_goals trivial

theorem isPlain_of_suits (h : σ.Suits s d) (e : d = .default v) : (σ.settle v).isPlain := by
  subst e
  exact Shape.isPlain_of_accepts (suits_default_iff.mp h)

end Store

-- Shapes change by the calls that are meant to change them only.

namespace FieldCall.Does

variable {σ σ' : Store} {c : FieldCall} {s : ShapeId} {v : Value}

theorem outline_cases (h : Does σ σ' c) (hs : s < σ.shapes.size) :
    σ'.outline s = σ.outline s ∨ σ'.outline s = (σ.outline s).orNull ∨
      (∃ v, c = .list v ∧ σ.Lists v s) ∧ (σ.shape s).isList = false ∧
        σ'.outline s = (σ.outline s).listOf := by
  cases h
  case leaf e _ => exact .inl (outline_of_push e hs)
  case wrap e _ => exact .inl (by simp only [outline, e])
  case optional f _ e _ =>
    rw [outline_of_modify e hs]
    split
    · exact .inr (.inl rfl)
    · exact .inl rfl
  case list v f hf hb hl e _ =>
    rw [outline_of_modify e hs]
    split
    case isTrue hfs =>
      subst hfs
      exact .inr (.inr ⟨⟨v, rfl, f, hf, rfl, _, list_eq_ok.mpr ⟨f, hf, hb, hl, rfl⟩⟩, hl, rfl⟩)
    case isFalse => exact .inl rfl

theorem outline_of_lists (h : Does σ σ' (.list v)) (hv : σ.Lists v s) (hs : s < σ.shapes.size) :
    (σ.shape s).isList = false ∧ σ'.outline s = (σ.outline s).listOf := by
  have ⟨g, hg, e, _⟩ := hv
  cases h
  case list f _ hl he _ hf =>
    cases hg.symm.trans hf
    subst e
    exact ⟨hl, by rw [outline_of_modify he hs, if_pos rfl]⟩

-- Only making a scalar makes a shape.
theorem knowsFlags_new (h : Does σ σ' c) (hn : ∀ b n, c = .leaf b n → σ.Knows n)
    (hs : σ.shapes.size < σ'.shapes.size) : σ.KnowsFlags (σ'.outline σ.shapes.size) := by
  cases h
  case leaf b n base _ e _ =>
    rw [outline_of_push_size e]
    exact .single (hn b n rfl)
  case optional e _ | list e _ | wrap e _ => simp [e] at hs

end FieldCall.Does

namespace Store

open FieldCall (Does)

-- What calls on fields keep true of a field. All its directives are right as long as it is no list.
structure Sound (σ : Store) (f : Field) : Prop where
  shape_lt : f.shape < σ.shapes.size
  known : σ.KnowsFlags (σ.outline f.shape)
  plain : ∀ v, .default v ∈ f.directives → (σ.settle v).isPlain
  suits : (σ.shape f.shape).isList = false → ∀ d ∈ f.directives, σ.Suits f.shape d

def AllSound (σ : Store) : Prop := ∀ (n : FieldId) (f : Field), σ.fields[n]? = some f → σ.Sound f

variable {σ σ' : Store} {c : FieldCall} {f : Field} {s : ShapeId}

theorem shape_of_outline (hk : Keeps σ σ') (ho : σ.KnowsFlags (σ.outline s))
    (e : σ'.outline s = σ.outline s) : σ'.shape s = σ.shape s := by
  rw [shape, e]
  exact hk.shape_eq ho

theorem shape_of_orNull (hk : Keeps σ σ') (ho : σ.KnowsFlags (σ.outline s))
    (e : σ'.outline s = (σ.outline s).orNull) : σ'.shape s = (σ.shape s).orNull := by
  rw [shape, e, hk.shape_eq ho.orNull, Outline.shape_orNull σ.isTrue_bool]
  rfl

theorem shape_of_listOf (hk : Keeps σ σ') (ho : σ.KnowsFlags (σ.outline s))
    (e : σ'.outline s = (σ.outline s).listOf) : σ'.shape s = (σ.shape s).listOf := by
  rw [shape, e, hk.shape_eq ho.listOf, Outline.shape_listOf σ.isTrue_bool]
  rfl

namespace Sound

theorem isPlain (h : σ.Sound f) {d : Directive} (hd : d ∈ f.directives) (v : Value)
    (e : d = .default v) : (σ.settle v).isPlain :=
  h.plain v (e ▸ hd)

theorem shape_cases (h : σ.Sound f) (hd : Does σ σ' c) (hk : Keeps σ σ') :
    (σ'.shape f.shape = σ.shape f.shape ∨ σ'.shape f.shape = (σ.shape f.shape).orNull) ∨
      (∃ v, c = .list v ∧ σ.Lists v f.shape) ∧ (σ.shape f.shape).isList = false ∧
        σ'.shape f.shape = (σ.shape f.shape).listOf := by
  rcases hd.outline_cases h.shape_lt with e | e | ⟨hl, hs, e⟩
  case inl => exact .inl (.inl (shape_of_outline hk h.known e))
  case inr.inl => exact .inl (.inr (shape_of_orNull hk h.known e))
  case inr.inr => exact .inr ⟨hl, hs, shape_of_listOf hk h.known e⟩

theorem preserved (h : σ.Sound f) (hd : Does σ σ' c) (hk : Keeps σ σ') : σ'.Sound f where
  shape_lt := Nat.lt_of_lt_of_le h.shape_lt hd.fieldStep.size_le
  known := by
    refine hk.knowsFlags ?_
    rcases hd.outline_cases h.shape_lt with e | e | ⟨_, _, e⟩ <;> rw [e]
    case inl => exact h.known
    case inr.inl => exact h.known.orNull
    case inr.inr => exact h.known.listOf
  plain v hv := by
    rw [hk.settle_eq (h.plain v hv)]
    exact h.plain v hv
  suits hl d hm := by
    cases h.shape_cases hd hk
    case inl hs =>
      have hl : (σ.shape f.shape).isList = false := by
        rcases hs with hs | hs <;> rw [hs] at hl <;> exact hl
      exact (suits_congr hk (h.isPlain hm) hs).mpr (h.suits hl d hm)
    case inr hs => simp [hs.right.right] at hl

theorem wrap {inner : Numbered Field} {before : List Change} {d : Directive}
    (h : σ.Sound inner.val) (hc : σ.Checked (σ.shape inner.val.shape) before d) :
    σ.Sound (.wrap inner d) where
  shape_lt := h.shape_lt
  known := h.known
  plain v hv := by
    cases List.mem_cons.mp hv
    case inl e => exact isPlain_of_suits hc.suits e.symm
    case inr hv => exact h.plain v hv
  suits hl d' hm := by
    cases List.mem_cons.mp hm
    case inl e => exact e ▸ hc.suits
    case inr hm => exact h.suits hl d' hm

end Sound

theorem AllSound.preserved (h : σ.AllSound) (hd : Does σ σ' c) (hk : Keeps σ σ')
    (hn : ∀ b n, c = .leaf b n → σ.Knows n) : σ'.AllSound := by
  intro n f hf
  cases hd.fieldStep.origin hf
  case old hf => exact (h n f hf).preserved hd hk
  case leaf hs =>
    have hs : σ.shapes.size < σ'.shapes.size := by simp [hs]
    exact ⟨hs, hk.knowsFlags (hd.knowsFlags_new hn hs), nofun, nofun⟩
  case wrap hw hc _ _ =>
    have hi := field?_eq_some (checkWrap_eq_ok.mp hw).left
    exact ((h _ _ hi).wrap hc).preserved hd hk

-- One call leaves the directives on a shape right exactly if they were, and if it did not turn the
-- shape into a list below one that does not survive this.
theorem onAll_suits_step (h : σ.AllSound) (hd : Does σ σ' c) (hk : Keeps σ σ') :
    σ'.OnAll s (σ'.Suits s) ↔
      σ.OnAll s (σ.Suits s) ∧ ∀ v, c = .list v → σ.Lists v s → σ.OnAll s σ.Survives := by
  constructor
  · refine fun ha => ⟨fun n f hf hs d hm => ?_, fun v hc hl n f hf hs d hm => ?_⟩
    all_goals
      have hσ := h n f hf
      have ha := ha n f (hd.fieldStep.getElem?_fields hf) hs d hm
      subst hs
    case refine_1 =>
      cases hσ.shape_cases hd hk
      case inl hs => exact (suits_congr hk (hσ.isPlain hm) hs).mp ha
      case inr hs => exact hσ.suits hs.right.left d hm
    case refine_2 =>
      subst hc
      have ⟨hb, ho⟩ := hd.outline_of_lists hl hσ.shape_lt
      have hs : σ'.shape f.shape = (σ.shape f.shape).listOf := shape_of_listOf hk hσ.known ho
      exact (suits_listOf_iff hk (hσ.isPlain hm) hb hs (hσ.suits hb d hm)).mp ha
  · intro ⟨ha, hl⟩ n f hf hs d hm
    cases hd.fieldStep.origin hf
    case old hf =>
      have hσ := h n f hf
      subst hs
      rcases hσ.shape_cases hd hk with hs | ⟨⟨v, hc, hv⟩, hb, hs⟩
      case inl => exact (suits_congr hk (hσ.isPlain hm) hs).mpr (ha n f hf rfl d hm)
      case inr =>
        exact (suits_listOf_iff hk (hσ.isPlain hm) hb hs (hσ.suits hb d hm)).mpr
          (hl v hc hv n f hf rfl d hm)
    case leaf => cases hm
    case wrap inner _ d' hw hc _ hs' =>
      have hi := field?_eq_some (checkWrap_eq_ok.mp hw).left
      have hσ := (h _ _ hi).wrap hc
      subst hs
      have hs : σ'.shape inner.val.shape = σ.shape inner.val.shape :=
        shape_of_outline hk hσ.known (by simp only [outline, hs'])
      refine (suits_congr hk (hσ.isPlain hm) (.inl hs)).mpr ?_
      cases List.mem_cons.mp hm
      case inl e => exact e ▸ hc.suits
      case inr hm => exact ha _ _ hi rfl d hm

-- Runs of calls on fields.

def build (σ : Store) (cs : List FieldCall) : Store := σ.run (cs.map FieldCall.call)

-- Something holds of every call in a run, along with the store that it is made on.
def Along (P : Store → FieldCall → Prop) (σ : Store) : List FieldCall → Prop
  | [] => True
  | c :: cs => P σ c ∧ Along P (σ.perform c.call).2 cs

-- A flag that is an object has to be one that was made before.
def Given (σ : Store) : FieldCall → Prop
  | .leaf _ nullable => σ.Knows nullable
  | _ => True

-- Unless the call turns the shape into a list below directives that do not survive it.
def Harmless (s : ShapeId) (σ : Store) : FieldCall → Prop
  | .list v => σ.Lists v s → σ.OnAll s σ.Survives
  | _ => True

theorem harmless_iff :
    σ.Harmless s c ↔ ∀ v, c = .list v → σ.Lists v s → σ.OnAll s σ.Survives := by
  cases c <;> simp [Harmless]

theorem allSound_perform (h : σ.AllSound) (hg : σ.Given c) : (σ.perform c.call).2.AllSound := by
  cases hp : σ.plan c.call
  case error e => simpa only [perform, hp] using h
  case ok p =>
    obtain ⟨hd, hk⟩ := c.does_of_plan hp
    simpa only [perform, hp] using h.preserved hd hk fun b n e => by subst e; exact hg

theorem onAll_suits_perform (h : σ.AllSound) :
    (σ.perform c.call).2.OnAll s ((σ.perform c.call).2.Suits s) ↔
      σ.OnAll s (σ.Suits s) ∧ σ.Harmless s c := by
  cases hp : σ.plan c.call
  case error e =>
    -- A call that is refused turns nothing into a list.
    have hl : σ.Harmless s c := by
      refine harmless_iff.mpr ?_
      rintro v rfl ⟨_, _, _, _, hl⟩
      cases hp.symm.trans hl
    simp only [perform, hp, hl, and_true]
  case ok p =>
    obtain ⟨hd, hk⟩ := c.does_of_plan hp
    simpa only [perform, hp, harmless_iff] using onAll_suits_step h hd hk

theorem onAll_suits_build {cs : List FieldCall} (h : σ.AllSound) (hg : Along Given σ cs) :
    (σ.build cs).OnAll s ((σ.build cs).Suits s) ↔
      σ.OnAll s (σ.Suits s) ∧ Along (Harmless s) σ cs := by
  induction cs generalizing σ
  case nil => exact (and_true _).symm.to_iff
  case cons c cs hi =>
    have hi := hi (allSound_perform h hg.left) hg.right
    rw [onAll_suits_perform h, and_assoc] at hi
    exact hi

-- As long as nothing but fields is built, the directives on a scalar are right in the end exactly
-- if it was never turned into a list below a length, or below a default that is no list itself.
theorem suits_build_iff (σ : Store) (h : σ.fields = #[]) (cs : List FieldCall)
    (hg : Along Given σ cs) (s : ShapeId) :
    (σ.build cs).OnAll s ((σ.build cs).Suits s) ↔ Along (Harmless s) σ cs := by
  have hn : ∀ (n : FieldId) (f : Field), σ.fields[n]? ≠ some f := by simp [h]
  rw [onAll_suits_build (fun n f hf => absurd hf (hn n f)) hg]
  exact and_iff_right fun n f hf => absurd hf (hn n f)

def listedFirst : List FieldCall :=
  [.leaf (.scalar .string) (.bool false), .list (.field 0),
    .wrap (.field 0) (.default (.list [.text "a"]))]

theorem suits_build_listedFirst :
    (({} : Store).build listedFirst).OnAll 0 ((({} : Store).build listedFirst).Suits 0) := by
  refine (suits_build_iff {} rfl listedFirst ⟨nofun, trivial, trivial, trivial⟩ 0).mpr
    ⟨trivial, fun _ n f hf _ d hd => ?_, trivial, trivial⟩
  -- There is nothing but the scalar when it is turned into a list.
  match n, hf with
  | 0, hf => cases hf; cases hd

def listedLast : List FieldCall :=
  [.leaf (.scalar .string) (.bool false), .wrap (.field 0) (.default (.text "a")),
    .list (.field 0)]

theorem not_suits_build :
    ¬ ∀ cs : List FieldCall, Along Given {} cs → ∀ s : ShapeId,
      (({} : Store).build cs).OnAll s ((({} : Store).build cs).Suits s) := by
  intro h
  have h := h listedLast ⟨nofun, trivial, trivial, trivial⟩ 0 1 _ rfl rfl (.default (.text "a"))
    List.mem_cons_self
  exact absurd (suits_default_iff.mp h) (by decide)

end Store

end GraphSchema
