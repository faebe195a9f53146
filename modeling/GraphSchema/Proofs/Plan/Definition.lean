import GraphSchema.Proofs.Plan.Auth

namespace GraphSchema.Store

open Outcome

variable {σ : Store} {v w : Value} {p : Plan}

-- Looking up.

theorem interface?_eq_some {i : Numbered Interface} (h : σ.interface? v = some i) :
    σ.interfaces[i.id]? = some i.val := by
  unfold interface? at h
  split at h
  · next n =>
    have ⟨val, hv, e⟩ := Option.map_eq_some_iff.mp h
    exact e ▸ hv
  · exact nomatch h

-- Checks.

theorem checkFieldEntry_eq_ok {owner : String} {e : Value × Value} {f : String × Numbered Field}
    (h : σ.checkFieldEntry owner e = .ok f) :
    isName f.1 ∧ σ.fields[f.2.id]? = some f.2.val := by
  have ⟨name, hn, h⟩ := bind_eq_ok.mp h
  split at h
  case h_1 g hg =>
    cases pure_eq_ok.mp h
    exact ⟨(checkName_eq_ok_iff.mp hn).right, field?_eq_some hg⟩
  case h_2 => exact absurd h Value.refuse_ne_ok

theorem mem_of_checkFieldList {owner : String} {fs : Fields} {f : String × Numbered Field}
    (h : σ.checkFieldList owner v = .ok fs) (hf : f ∈ fs.val) :
    isName f.1 ∧ σ.fields[f.2.id]? = some f.2.val := by
  unfold checkFieldList at h
  split at h
  · cases h
    cases hf
  · have ⟨_, hm, h⟩ := bind_eq_ok.mp h
    cases pure_eq_ok.mp h
    have ⟨_, _, h⟩ := mem_of_mapM_eq_ok hm (mem_of_mem_firstOfEach hf).left
    exact checkFieldEntry_eq_ok h
  · exact absurd h Value.refuse_ne_ok

theorem checkInterface_eq_ok {i : Interface} (h : σ.checkInterface v w = .ok i) :
    isName i.name ∧ σ.checkFieldList i.name w = .ok ⟨i.fields, i.distinct⟩ ∧ i.fields ≠ [] := by
  have ⟨name, hn, h⟩ := bind_eq_ok.mp h
  have ⟨fs, hf, h⟩ := bind_eq_ok.mp h
  split at h
  · exact absurd h Misuse.refusal_ne_ok
  · next hne =>
    cases pure_eq_ok.mp h
    exact ⟨(checkName_eq_ok_iff.mp hn).right, hf, fun e => hne e⟩

theorem checkType_eq_ok {t : ObjectType} (h : σ.checkType v w = .ok t) :
    isName t.name ∧ σ.checkFieldList t.name w = .ok ⟨t.fields, t.distinct⟩ ∧
      t.interfaces = [] ∧ t.cache = none := by
  have ⟨name, hn, h⟩ := bind_eq_ok.mp h
  have ⟨fs, hf, h⟩ := bind_eq_ok.mp h
  cases pure_eq_ok.mp h
  exact ⟨(checkName_eq_ok_iff.mp hn).right, hf, rfl, rfl⟩

theorem checkEnum_eq_ok {e : EnumType} (h : σ.checkEnum v w = .ok e) :
    isName e.name ∧ e.values ≠ [] := by
  have ⟨name, hn, h⟩ := bind_eq_ok.mp h
  split at h
  · exact absurd h Value.refuse_ne_ok
  · have ⟨_, _, h⟩ := bind_eq_ok.mp h
    have ⟨_, _, h⟩ := bind_eq_ok.mp h
    split at h
    · exact absurd h Misuse.refusal_ne_ok
    · next hne =>
      cases pure_eq_ok.mp h
      exact ⟨(checkName_eq_ok_iff.mp hn).right, fun e => hne e⟩

-- Making definitions.

theorem newInterface_eq_ok (h : σ.newInterface v w = .ok p) :
    ∃ i, σ.checkInterface v w = .ok i ∧
      p = ⟨[.addInterface i], .definition (.interface σ.interfaces.size)⟩ := by
  have ⟨i, hi, h⟩ := bind_eq_ok.mp h
  exact ⟨i, hi, (pure_eq_ok.mp h).symm⟩

theorem newType_eq_ok (h : σ.newType v w = .ok p) :
    ∃ t, σ.checkType v w = .ok t ∧ p = ⟨[.addType t], .definition (.type σ.types.size)⟩ := by
  have ⟨t, ht, h⟩ := bind_eq_ok.mp h
  exact ⟨t, ht, (pure_eq_ok.mp h).symm⟩

theorem newEnum_eq_ok (h : σ.newEnum v w = .ok p) :
    ∃ e, σ.checkEnum v w = .ok e ∧ p = ⟨[.addEnum e], .definition (.enum σ.enums.size)⟩ := by
  have ⟨e, he, h⟩ := bind_eq_ok.mp h
  exact ⟨e, he, (pure_eq_ok.mp h).symm⟩

theorem newEnumOf_eq_ok (h : σ.newEnumOf v = .ok p) :
    ∃ name, σ.newEnum name (memberNames v) = .ok p := by
  unfold newEnumOf at h
  split at h
  · next name _ => exact ⟨.text name, h⟩
  · exact nomatch h
  · exact absurd h lacks_ne_ok

theorem implement_eq_ok (h : σ.implement v w = .ok p) :
    ∃ t i, σ.type? v = some t ∧ σ.interface? w = some i ∧ i.val.name ∉ t.val.interfaceNames ∧
      σ.checkConflicts t.val (t.val.interfaces ++ [i]) = .ok () ∧
      p = ⟨[.implement t.id i], v⟩ := by
  unfold implement at h
  split at h
  · exact absurd h lacks_ne_ok
  · next t ht =>
    split at h
    · exact absurd h Value.refuse_ne_ok
    · next i hi =>
      split at h
      · exact absurd h Misuse.refusal_ne_ok
      · next hn =>
        have ⟨_, hc, h⟩ := bind_eq_ok.mp h
        exact ⟨t, i, ht, hi, hn, hc, (pure_eq_ok.mp h).symm⟩

theorem cacheType_eq_ok {maxAge stale i : Value} (h : σ.cacheType v maxAge stale i = .ok p) :
    ∃ t c changes, σ.type? v = some t ∧ σ.checkTypeCache maxAge stale i = .ok (c, changes) ∧
      p = ⟨changes ++ [.addTypeCache c, .setCache t.id ⟨σ.typeCaches.size, c⟩], v⟩ := by
  unfold cacheType at h
  split at h
  · exact absurd h lacks_ne_ok
  · next t ht =>
    have ⟨⟨c, changes⟩, hc, h⟩ := bind_eq_ok.mp h
    exact ⟨t, c, changes, ht, hc, (pure_eq_ok.mp h).symm⟩

-- Registries.

theorem enter_eq_ok {r : RegistryId} {before : List Change} {name : String} {d : Definition} :
    σ.enter r before name d = .ok p ↔
      name ∉ (σ.registry r).names ∧ p = ⟨before ++ [.register r name d], .definition d⟩ := by
  unfold enter
  by_cases h : name ∈ (σ.registry r).names <;> simp [h, @eq_comm _ p]

theorem register_eq_ok {k : DefinitionKind} (h : σ.register v k w = .ok p) :
    ∃ r d, σ.registry? v = some r ∧ w = .definition d ∧ d.kind = k ∧
      σ.nameOf d ∉ (σ.registry r).names ∧ p = ⟨[.register r (σ.nameOf d) d], .definition d⟩ := by
  unfold register at h
  split at h
  · exact absurd h lacks_ne_ok
  · next r hr =>
    split at h
    · next d =>
      split at h
      · next hk =>
        have ⟨hn, hp⟩ := enter_eq_ok.mp h
        exact ⟨r, d, hr, rfl, hk, hn, hp⟩
      · exact absurd h Value.refuse_ne_ok
    · exact absurd h Value.refuse_ne_ok

theorem clear_eq_ok (h : σ.clear v = .ok p) :
    ∃ r, σ.registryOf? v = some r ∧ p = ⟨[.clear r], .null⟩ := by
  unfold clear at h
  split at h
  · next r hr => exact ⟨r, hr, (pure_eq_ok.mp h).symm⟩
  · exact absurd h lacks_ne_ok

-- Builders.

theorem newBuilder_eq_ok (h : σ.newBuilder v = .ok p) :
    p.changes = [.addRegistry, .addBuilder ⟨σ.registries.size, none⟩] ∨
      ∃ b, p.changes = [.addBuilder b] := by
  unfold newBuilder at h
  split at h
  · exact .inl (congrArg Plan.changes (pure_eq_ok.mp h).symm)
  · exact .inr ⟨_, congrArg Plan.changes (pure_eq_ok.mp h).symm⟩
  · exact nomatch h
  · split at h
    · exact .inr ⟨_, congrArg Plan.changes (pure_eq_ok.mp h).symm⟩
    · exact absurd h lacks_ne_ok

theorem scalarField_eq_ok {s : Scalar} (h : σ.scalarField v s = .ok p) :
    p = σ.leafPlan (.scalar s) (.bool false) := by
  unfold scalarField at h
  split at h
  · exact absurd h lacks_ne_ok
  · exact (pure_eq_ok.mp h).symm

theorem findEnum_eq_ok {r : RegistryId} {name : String} {e : EnumType}
    (h : σ.findEnum r name = .ok e) : ∃ n : EnumId, e = σ.enums.getD n default := by
  have ⟨d, _, h⟩ := bind_eq_ok.mp h
  split at h
  · exact ⟨_, (pure_eq_ok.mp h).symm⟩
  · exact absurd h Misuse.refusal_ne_ok

theorem meantEnum_eq_ok {e : EnumType} (h : σ.meantEnum v w = .ok e) :
    ∃ n : EnumId, e = σ.enums.getD n default := by
  unfold meantEnum at h
  split at h
  · have ⟨r, _, h⟩ := bind_eq_ok.mp h
    exact findEnum_eq_ok h
  · exact ⟨_, (pure_eq_ok.mp h).symm⟩
  · exact absurd h Value.refuse_ne_ok

theorem enumField_eq_ok (h : σ.enumField v w = .ok p) :
    ∃ e : EnumId, p = σ.leafPlan (enumBase (σ.enums.getD e default)) (.bool false) := by
  unfold enumField at h
  split at h
  · exact absurd h lacks_ne_ok
  · have ⟨e, he, h⟩ := bind_eq_ok.mp h
    have ⟨n, hn⟩ := meantEnum_eq_ok he
    exact ⟨n, hn ▸ (pure_eq_ok.mp h).symm⟩

theorem refField_eq_ok (h : σ.refField v w = .ok p) :
    ∃ name, (isName name ∨ ∃ d, name = σ.nameOf d) ∧
      p = σ.leafPlan (.object name) (.bool false) := by
  unfold refField at h
  split at h
  · exact absurd h lacks_ne_ok
  · split at h
    · split at h
      · next hn => exact ⟨_, .inl hn, (pure_eq_ok.mp h).symm⟩
      · exact absurd h Misuse.refusal_ne_ok
    · exact absurd h Value.refuse_ne_ok
    · next d _ => exact ⟨_, .inr ⟨d, rfl⟩, (pure_eq_ok.mp h).symm⟩
    · exact absurd h Value.refuse_ne_ok

theorem buildInterface_eq_ok {name : Value} (h : σ.buildInterface v name w = .ok p) :
    ∃ r i, σ.ownRegistry v "register_interface" = .ok r ∧ σ.checkInterface name w = .ok i ∧
      i.name ∉ (σ.registry r).names ∧
      p = ⟨[.addInterface i, .register r i.name (.interface σ.interfaces.size)],
        .definition (.interface σ.interfaces.size)⟩ := by
  have ⟨r, hr, h⟩ := bind_eq_ok.mp h
  have ⟨i, hi, h⟩ := bind_eq_ok.mp h
  have ⟨hn, hp⟩ := enter_eq_ok.mp h
  exact ⟨r, i, hr, hi, hn, hp⟩

theorem buildType_eq_ok {name : Value} (h : σ.buildType v name w = .ok p) :
    ∃ r t, σ.ownRegistry v "register_type" = .ok r ∧ σ.checkType name w = .ok t ∧
      t.name ∉ (σ.registry r).names ∧
      p = ⟨[.addType t, .register r t.name (.type σ.types.size)],
        .definition (.type σ.types.size)⟩ := by
  have ⟨r, hr, h⟩ := bind_eq_ok.mp h
  have ⟨t, ht, h⟩ := bind_eq_ok.mp h
  have ⟨hn, hp⟩ := enter_eq_ok.mp h
  exact ⟨r, t, hr, ht, hn, hp⟩

theorem buildEnum_eq_ok {name : Value} (h : σ.buildEnum v name w = .ok p) :
    ∃ r e, σ.ownRegistry v "register_enum" = .ok r ∧
      σ.checkEnum name (memberNames w) = .ok e ∧ e.name ∉ (σ.registry r).names ∧
      p = ⟨[.addEnum e, .register r e.name (.enum σ.enums.size)],
        .definition (.enum σ.enums.size)⟩ := by
  have ⟨r, hr, h⟩ := bind_eq_ok.mp h
  have ⟨e, he, h⟩ := bind_eq_ok.mp h
  have ⟨hn, hp⟩ := enter_eq_ok.mp h
  exact ⟨r, e, hr, he, hn, hp⟩

-- Printers and configurations.

theorem newPrinter_eq_ok (h : σ.newPrinter v = .ok p) :
    ∃ indent, p.changes = [.addPrinter indent] := by
  have ⟨indent, _, h⟩ := bind_eq_ok.mp h
  exact ⟨indent, (pure_eq_ok.mp h) ▸ rfl⟩

theorem configure_eq_ok (h : σ.configure v w = .ok p) :
    ∃ b indent, σ.builder? v = some b ∧ Indent.spaces w = .ok indent ∧
      p = ⟨[.addConfig ⟨σ.definitions b.registry, indent⟩], .object (.config σ.configs.size)⟩ := by
  unfold configure at h
  split at h
  · exact absurd h Misuse.refusal_ne_ok
  · split at h
    · exact absurd h Value.refuse_ne_ok
    · next b hb =>
      have ⟨indent, hi, h⟩ := bind_eq_ok.mp h
      exact ⟨b, indent, hb, hi, (pure_eq_ok.mp h).symm⟩

end GraphSchema.Store
