import GraphSchema.Proofs.Auth.Worded
import GraphSchema.Proofs.Field.Building
import GraphSchema.Proofs.Field.Keyed
import GraphSchema.Proofs.Field.Sharing

namespace GraphSchema

open Outcome

def Outline.flags (o : Outline) : List Value := [o.nullable, o.isList, o.itemNullable]

namespace Store

-- The calls that a field may read differently after.
inductive Affects (σ : Store) (f : Field) : Call → Prop
  | optional {v : Value} {g : Numbered Field} (given : σ.field? v = some g)
      (leaf : g.val.leaf = f.leaf) : Affects σ f (.optional v)
  | list (done : Succeeds (σ.plan (.list (.field f.leaf)))) : Affects σ f (.list (.field f.leaf))
  | allow {s : RuleSetId} (held : .auth s ∈ f.directives) (a : Audience) :
      Affects σ f (.allow (.ruleSet s) a)
  | allowGroups {s : RuleSetId} (held : .auth s ∈ f.directives) (groups : Value) :
      Affects σ f (.allowGroups (.ruleSet s) groups)
  | narrow {s : RuleSetId} {r : RuleId} (held : .auth s ∈ f.directives) (rule : r ∈ σ.ruleIds s)
      (o : Operation) : Affects σ f (.narrow (.object (.rule r)) o)

-- What was handed to a field and belongs to someone else is as it was: the lists in its default,
-- and objects that were given where truth values are meant.
structure Spares (σ σ' : Store) (f : Field) : Prop where
  defaults : ∀ v, .default v ∈ f.directives → σ'.settle v = σ.settle v
  flags : ∀ r, .object r ∈ (σ.outline f.shape).flags → σ'.isTrue (.object r) = σ.isTrue (.object r)

variable {σ σ' : Store} {call : Call} {n : FieldId} {f : Field}

-- Truth values themselves belong to no one.
theorem Spares.of_bools (hf : ∀ v ∈ (σ.outline f.shape).flags, ∃ b, v = .bool b)
    (hd : ∀ v, .default v ∈ f.directives → σ'.settle v = σ.settle v) : σ.Spares σ' f :=
  ⟨hd, fun _ hr => have ⟨_, e⟩ := hf _ hr; nomatch e⟩

-- Shapes.

theorem outline_eq_of_not_affects (hσ : σ.Formed) (hr : σ.Rooted) (hf : σ.fields[n]? = some f)
    (h : ¬ σ.Affects f call) (s : FieldStep σ call σ') :
    σ'.outline f.shape = σ.outline f.shape := by
  have hs : f.shape < σ.shapes.size := (hσ n f hf).shape_lt
  cases s
  case still e _ | wrap e _ => simp only [outline, e]
  case shape e _ | leaf e _ => exact outline_of_push e hs
  case optional g ha hg e _ =>
    rw [outline_of_modify e hs, if_neg]
    intro hgs
    have hl := hr.leaf_eq g.id n g.val f (field?_eq_some hg) hf hgs
    exact h (ha ▸ .optional hg hl)
  case list v g ha hg hb hl e _ =>
    rw [outline_of_modify e hs, if_neg]
    intro hgs
    -- A field without directives is the scalar that it is built around.
    have hv : v = .field f.leaf := by
      rw [← hr.leaf_eq g.id n g.val f (field?_eq_some hg) hf hgs,
        hr.bare g.id g.val (field?_eq_some hg) hb]
      exact (field?_eq_some_iff.mp hg).left
    subst ha hv
    exact h (.list ⟨_, list_eq_ok.mpr ⟨g, hg, hb, hl, rfl⟩⟩)

theorem shape_eq_of_flags (hs : ∀ r, .object r ∈ (σ.outline f.shape).flags →
    σ'.isTrue (.object r) = σ.isTrue (.object r))
    (ho : σ'.outline f.shape = σ.outline f.shape) : σ'.shape f.shape = σ.shape f.shape := by
  have flag {v : Value} (hv : v ∈ (σ.outline f.shape).flags) : σ'.isTrue v = σ.isTrue v := by
    cases v
    case object r => exact hs r hv
    all_goals rfl
  simp only [shape, ho, Outline.shape]
  rw [flag (by simp [Outline.flags]), flag (by simp [Outline.flags]),
    flag (by simp [Outline.flags])]

-- Rules.

theorem ruleIds_eq_of_not_affects (hr : σ.Rooted) (hf : σ.fields[n]? = some f)
    (h : ¬ σ.Affects f call) (s : RuleStep σ call σ') {a : RuleSetId}
    (ha : .auth a ∈ f.directives) : σ'.ruleIds a = σ.ruleIds a := by
  have hlt : a < σ.ruleSets.size := lt_of_ruleIds_ne_nil (hr.held n f hf a ha)
  cases s
  case still _ e | rule _ e | narrow _ e => simp only [ruleIds, e]
  case ruleSet _ _ e =>
    have hn : a ≠ σ.ruleSets.size := Nat.ne_of_lt hlt
    simp [ruleIds, e, Array.getElem?_push, hn]
  case extend v t r ht hv _ _ e =>
    have hn : t ≠ a := by
      rintro rfl
      obtain ⟨hv, _⟩ := ruleSet?_eq_some hv
      subst hv
      rcases ht with ⟨b, rfl⟩ | ⟨gs, rfl⟩
      · exact h (.allow ha b)
      · exact h (.allowGroups ha gs)
    simp [ruleIds, e, Array.getElem?_modify, hn]

theorem rule_eq_of_not_affects (hw : σ.AllWorded) (h : ¬ σ.Affects f call)
    (s : RuleStep σ call σ') {a : RuleSetId} (ha : .auth a ∈ f.directives) {r : RuleId}
    (hm : r ∈ σ.ruleIds a) : σ'.rule r = σ.rule r := by
  -- A rule in a rule set is there already.
  obtain ⟨b, hb⟩ : ∃ b, σ.rules[r]? = some b := by
    cases hs : σ.ruleSets[a]?
    case none => simp [ruleIds, hs] at hm
    case some rs =>
      obtain ⟨b, hb, _⟩ := hw a rs hs r (by simpa [ruleIds, hs] using hm)
      exact ⟨b, hb⟩
  cases s
  case still e _ => simp only [rule, e]
  case rule e _ | extend e _ => simp [rule, hb, e, Table.getElem?_push hb]
  case ruleSet e _ => simp [rule, hb, e, Table.getElem?_append hb]
  case narrow t o ht e _ =>
    have hn : t ≠ r := by
      rintro rfl
      exact h (ht ▸ .narrow ha hm o)
    simp [rule, e, Array.getElem?_modify, hn]

theorem rulesOf_eq_of_not_affects (hr : σ.Rooted) (hw : σ.AllWorded) (hf : σ.fields[n]? = some f)
    (h : ¬ σ.Affects f call) (s : RuleStep σ call σ') {a : RuleSetId}
    (ha : .auth a ∈ f.directives) : σ'.rulesOf a = σ.rulesOf a := by
  rw [rulesOf, rulesOf, ruleIds_eq_of_not_affects hr hf h s ha]
  exact List.map_congr_left fun r hm => rule_eq_of_not_affects hw h s ha hm

-- Texts.

theorem toOption_directiveText_eq (hw : σ.AllWorded) (hw' : σ'.AllWorded) {d : Directive}
    (hk : ∀ v, d = .default v → v.isKeyed ∧ σ'.settle v = σ.settle v)
    (hr : ∀ a, d = .auth a → σ'.rulesOf a = σ.rulesOf a) (bare : Bool) :
    (σ'.directiveText bare d).toOption = (σ.directiveText bare d).toOption := by
  cases d
  case default v =>
    have ⟨hv, hs⟩ := hk v rfl
    have hv : (σ.settle v).isKeyed := (isKeyed_settle v).trans hv
    simp only [directiveText, toOption_bind, hs,
      Value.toOption_literal_eq (r := σ'.names) (s := σ.names) _ hv]
  case auth a =>
    have e : σ'.rulesText (σ'.rulesOf a) = σ.rulesText (σ.rulesOf a) := by
      rw [hw'.rulesText_eq a, hw.rulesText_eq a, hr a rfl]
    simp only [directiveText, e]
  all_goals rfl

theorem toOption_fieldText_eq (hs : σ'.shape f.shape = σ.shape f.shape)
    (hd : ∀ d ∈ f.directives, ∀ bare,
      (σ'.directiveText bare d).toOption = (σ.directiveText bare d).toOption) :
    (σ'.fieldText f).toOption = (σ.fieldText f).toOption := by
  have hm := toOption_mapM_congr f.directives.reverse
    fun d h => hd d (List.mem_reverse.mp h) (σ.shape f.shape).isEnum
  simp only [fieldText, toOption_bind, hs, hm]

theorem toOption_render_eq (hf : σ.fields[n]? = some f) :
    (σ.perform (.render (.field n))).1.toOption = (σ.fieldText f).toOption.map .text := by
  simp only [perform, plan_render hf]
  cases σ.fieldText f <;> rfl

-- The law for one successful call, in a store that a run could have made.
theorem toOption_fieldText_step (hσ : σ.Formed) (hr : σ.Rooted) (hk : σ.AllKeyed)
    (hw : σ.AllWorded) (hw' : σ'.AllWorded) (hf : σ.fields[n]? = some f)
    (h : ¬ σ.Affects f call) (hs : σ.Spares σ' f) (s : FieldStep σ call σ')
    (r : RuleStep σ call σ') : (σ'.fieldText f).toOption = (σ.fieldText f).toOption := by
  have ho := outline_eq_of_not_affects hσ hr hf h s
  refine toOption_fieldText_eq (shape_eq_of_flags hs.flags ho) fun d hd bare => ?_
  refine toOption_directiveText_eq hw hw' ?_ ?_ bare
  · rintro v rfl
    exact ⟨hk n f hf v hd, hs.defaults v hd⟩
  · rintro a rfl
    exact rulesOf_eq_of_not_affects hr hw hf h r hd

-- A directive is put around a field without changing anything that is there.
theorem keeps_perform_wrapping (σ : Store) (v : Value) (w : Wrapping) :
    let σ' := (σ.perform (w.call v)).2
    σ'.shapes = σ.shapes ∧ σ.Keeps σ' ∧
      ∀ (m : FieldId) (g : Field), σ.fields[m]? = some g → σ'.fields[m]? = some g := by
  cases hp : σ.plan (w.call v)
  case error e =>
    have hσ : (σ.perform (w.call v)).2 = σ := by simp only [perform, hp]
    rw [hσ]
    exact ⟨rfl, .of_eq rfl rfl rfl rfl, fun _ _ h => h⟩
  case ok p =>
    obtain ⟨hd, hk⟩ := FieldCall.does_of_plan (c := .wrap v w) hp
    rw [perform_of_plan hp]
    refine ⟨?_, hk, fun _ _ => hd.fieldStep.getElem?_fields⟩
    cases hd
    case wrap hs _ _ => exact hs

-- No call but those that affect a field makes a difference to what is written for it, or to
-- whether it can be written at all; and directives do not even touch what they are put around.
theorem render_eq_of_not_affects (cs : List Call) (c : Call)
    (hf : (({} : Store).run cs).fields[n]? = some f) :
    let σ := ({} : Store).run cs
    let σ' := (σ.perform c).2
    (¬ σ.Affects f c → σ.Spares σ' f →
      (σ'.perform (.render (.field n))).1.toOption =
        (σ.perform (.render (.field n))).1.toOption) ∧
    ∀ v w, c = Wrapping.call v w → σ'.shapes = σ.shapes ∧ σ.Keeps σ' ∧
      ∀ (m : FieldId) (g : Field), σ.fields[m]? = some g → σ'.fields[m]? = some g := by
  intro σ σ'
  constructor
  case left =>
    intro ha hs
    cases hp : σ.plan c
    case error e =>
      have hσ : σ' = σ := by simp only [σ', perform, hp]
      rw [hσ]
    case ok p =>
      have hr : σ' = ({} : Store).run (cs ++ [c]) := by rw [run_append]; rfl
      have hσ : σ' = σ.applyAll p.changes := by simp only [σ', perform_of_plan hp]
      have s := step_of_plan hp
      have hf' : σ'.fields[n]? = some f := hσ ▸ s.fieldStep.getElem?_fields hf
      rw [toOption_render_eq hf', toOption_render_eq hf]
      exact congrArg _ <| toOption_fieldText_step (formed_run cs) (rooted_run cs) (allKeyed_run cs)
        (allWorded_run cs) (hr ▸ allWorded_run _) hf ha hs (hσ ▸ s.fieldStep) (hσ ▸ s.ruleStep)
  case right =>
    rintro v w rfl
    exact keeps_perform_wrapping σ v w

-- Two fields around one scalar, and a field around another one.

def apart : List Call :=
  [.leaf (.scalar .string) (.bool false), .auth (.field 0) (.script [.mk "public" [] []]),
    .unique (.field 0) .null, .leaf (.scalar .int) (.bool false)]

theorem render_eq_apart :
    let σ := ({} : Store).run apart
    let σ' := (σ.perform (.optional (.field 3))).2
    ¬ σ.Affects ⟨0, 0, some 0, [.auth 0]⟩ (.optional (.field 3)) ∧
      σ.Spares σ' ⟨0, 0, some 0, [.auth 0]⟩ ∧
      (σ'.perform (.render (.field 1))).1.toOption = (σ.perform (.render (.field 1))).1.toOption ∧
      σ.Keeps (σ.perform (.cache (.field 1) (.int 60) .null)).2 := by
  intro σ σ'
  have hf : σ.fields[1]? = some ⟨0, 0, some 0, [.auth 0]⟩ := rfl
  have ha : ¬ σ.Affects ⟨0, 0, some 0, [.auth 0]⟩ (.optional (.field 3)) := by
    intro h
    cases h
    case optional hl hg =>
      cases hg.symm.trans (rfl : σ.field? (.field 3) = some ⟨3, ⟨1, 3, none, []⟩⟩)
      exact absurd hl (by decide)
  have ho : (σ.outline 0).flags = [.bool false, .bool false, .bool false] := rfl
  have hs : σ.Spares σ' ⟨0, 0, some 0, [.auth 0]⟩ :=
    .of_bools (fun v hv => ⟨false, by simpa [ho] using hv⟩) fun _ h => by simp at h
  have ⟨h, _⟩ := render_eq_of_not_affects apart (.optional (.field 3)) hf
  have ⟨_, hw⟩ := render_eq_of_not_affects apart (.cache (.field 1) (.int 60) .null) hf
  exact ⟨ha, hs, h ha hs, (hw (.field 1) (.cache (.int 60) .null) rfl).right.left⟩

end Store

end GraphSchema
