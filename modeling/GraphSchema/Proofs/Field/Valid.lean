import GraphSchema.Proofs.Plan.Wrapping
import GraphSchema.Proofs.Field.Chain

namespace GraphSchema

theorem Progression.exists_toList_eq_cons (p : Progression) (h : p.size ≠ 0) :
    ∃ ns, p.toList = p.start :: ns := by
  have ⟨k, hk⟩ := Nat.exists_eq_succ_of_ne_zero h
  simp [toList, hk, List.range_succ_eq_map]

-- A whole number that is not negative, or nothing.
inductive IsCount : Value → Option Nat → Prop
  | missing : IsCount .null none
  | given {v : Value} (n : Nat) (whole : v.int? = some n) : IsCount v (some n)

theorem IsCount.not_isNull {v : Value} {n : Option Nat} (h : IsCount v n) (hn : n.isSome) :
    ¬ v.isNull := by
  cases h
  case missing => exact nomatch hn
  case given whole =>
    cases v
    case null => exact nomatch whole
    all_goals exact Bool.false_ne_true

namespace Wrapping

open Outcome in
-- The arguments make sense on a field of the given shape, whatever directives it has.
def Valid (σ : Store) (s : Shape) : Wrapping → Prop
  | length min max =>
    s.isString ∧ s.isList = false ∧ ∃ low high, IsCount min low ∧ IsCount max high ∧
      (low.isSome ∨ high.isSome) ∧ ∀ l ∈ low, ∀ h ∈ high, l ≤ h
  | unique scope =>
    scope = .null ∨ scope.text? = none ∧ ∃ names, σ.items? scope = some names ∧
      ∀ n ∈ names, n.isNameText
  | default v => s.accepts (σ.settle v)
  | search => True
  | auth rules =>
    (∃ r, σ.ruleSet? rules = some r ∧ σ.ruleIds r ≠ []) ∨
      σ.ruleSet? rules = none ∧ ∃ lines, rules = .script lines ∧ lines ≠ [] ∧
        ∀ l ∈ lines, Succeeds (σ.scriptRule l)
  | cache age stale => (∃ n : Nat, age.int? = some n) ∧ ∃ n, IsCount stale n

end Wrapping

namespace Store

open Outcome

variable {σ : Store} {v : Value} {s : Shape} {xs : List Value}

theorem checkBound_of_int? {bound : String} {m : Int} (h : v.int? = some m) :
    σ.checkBound bound v =
      if m < 0 then (Misuse.boundNegative bound m).refusal else .ok (some m.toNat) := by
  rcases Value.int?_eq_some_iff.mp h with rfl | ⟨_, rfl⟩ <;> rfl

theorem checkBound_eq_ok {bound : String} {n : Option Nat} :
    σ.checkBound bound v = .ok n ↔ IsCount v n := by
  constructor
  · intro h
    cases hv : v.int?
    case some m =>
      rw [checkBound_of_int? hv] at h
      split at h
      case isTrue => exact absurd h Misuse.refusal_ne_ok
      case isFalse hm =>
        cases h
        have whole : (m.toNat : Int) = m := Int.toNat_of_nonneg (Int.not_lt.mp hm)
        exact .given m.toNat (whole.symm ▸ hv)
    case none =>
      unfold checkBound at h
      split at h
      case h_1 =>
        cases h
        exact .missing
      case h_2 | h_3 => exact nomatch hv
      case h_4 => exact absurd h Value.refuse_ne_ok
  · intro h
    cases h
    case missing => rfl
    case given n hv => simp [checkBound_of_int? hv]

theorem checkBounds_succeeds {min max : Value} {low high : Option Nat} (hl : IsCount min low)
    (hh : IsCount max high) (hs : low.isSome ∨ high.isSome) (hb : ∀ l ∈ low, ∀ h ∈ high, l ≤ h) :
    Succeeds (σ.checkBounds min max) := by
  have hn : ¬ (min.isNull && max.isNull) := by
    intro hn
    have ⟨hmin, hmax⟩ := Bool.and_eq_true_iff.mp hn
    rcases hs with hs | hs
    case inl => exact hl.not_isNull hs hmin
    case inr => exact hh.not_isNull hs hmax
  unfold checkBounds
  rw [if_neg hn]
  simp only [checkBound_eq_ok.mpr hl, checkBound_eq_ok.mpr hh, Outcome.succeeds_bind,
    Except.ok.injEq, exists_eq_left']
  split
  case h_1 l h =>
    rw [if_neg (Nat.not_lt.mpr (hb l rfl h rfl))]
    exact succeeds_pure
  case h_2 => exact succeeds_pure

-- What is looked at in the place of all items has the same first one that is no name.
theorem exists_front_items (h : σ.items? v = some xs) :
    ∃ ys, σ.items v.front = .ok ys ∧
      ys.find? (! ·.isNameText) = xs.find? (! ·.isNameText) ∧
      (xs.find? (! ·.isNameText) = none → ys = xs) := by
  cases v
  case progression p =>
    cases h
    by_cases hz : p.size = 0
    case pos =>
      have hl : p.toList = [] := List.eq_nil_of_length_eq_zero (p.length_toList.trans hz)
      exact ⟨[], by simp [Value.front, hz, items, items?, Value.items?], by simp [hl], by simp [hl]⟩
    case neg =>
      -- A number is no name, and the first one stands for all of them.
      obtain ⟨ns, hl⟩ := p.exists_toList_eq_cons hz
      refine ⟨[.int p.start], by simp [Value.front, hz, items, items?, Value.items?], ?_, ?_⟩
      all_goals simp [hl, Value.isNameText]
  all_goals exact ⟨xs, by simp only [Value.front, items, h], rfl, fun _ => rfl⟩

theorem checkScope_eq (hx : v.text? = none) (hi : σ.items? v = some xs) :
    σ.checkScope v = match xs.find? (! ·.isNameText) with
      | some x => x.refuse σ.display .scopeName
      | none => .ok ((v.rest xs).filterMap (·.text?)) := by
  obtain ⟨ys, hy, first, all⟩ := exists_front_items hi
  unfold checkScope
  split
  case h_1 => exact nomatch hi
  case h_2 => exact nomatch hx
  case h_3 =>
    simp only [hy, Except.bind, bind, first]
    cases hf : xs.find? (! ·.isNameText)
    case some => rfl
    case none => rw [all hf]; rfl

theorem checkScope_succeeds (h : Wrapping.Valid σ s (.unique v)) : Succeeds (σ.checkScope v) := by
  cases h
  case inl h => exact h ▸ succeeds_ok
  case inr h =>
    obtain ⟨hx, names, hs, hn⟩ := h
    have valid : names.find? (! ·.isNameText) = none := by simpa using hn
    rw [checkScope_eq hx hs, valid]
    exact succeeds_ok

theorem checkSeconds_count {what : String} {required : Bool} {n : Nat} (h : v.int? = some n) :
    σ.checkSeconds what required v = .ok (some n) := by
  rcases Value.int?_eq_some_iff.mp h with rfl | ⟨_, rfl⟩ <;>
    simp only [checkSeconds, if_neg (Int.not_lt.mpr (Int.natCast_nonneg n)), Int.toNat_natCast]

theorem checkFieldCache_succeeds {age stale : Value} (h : Wrapping.Valid σ s (.cache age stale)) :
    Succeeds (σ.checkFieldCache age stale) := by
  have ⟨⟨n, hn⟩, m, hm⟩ := h
  simp only [checkFieldCache, checkSeconds_count hn, succeeds_bind, Except.ok.injEq,
    exists_eq_left']
  cases hm
  case missing => exact ⟨none, rfl, succeeds_pure⟩
  case given m hm => exact ⟨some m, checkSeconds_count hm, succeeds_pure⟩

theorem checkScript_succeeds {lines : List RuleLine} (hn : lines ≠ [])
    (h : ∀ l ∈ lines, Succeeds (σ.scriptRule l)) : Succeeds (σ.checkScript (.script lines)) := by
  have ⟨rs, hr⟩ := succeeds_mapM.mpr h
  refine ⟨rs, checkScript_eq_ok.mpr ⟨lines, rfl, hr, fun e => ?_⟩⟩
  subst e
  cases lines
  case nil => exact hn rfl
  case cons l ls =>
    have ⟨_, _, _, _, e⟩ := mapM_cons_eq_ok.mp hr
    exact nomatch e

end Store

namespace Wrapping

open Outcome Store

variable {σ : Store} {v : Value} {f : Numbered Field} {w : Wrapping}

theorem succeeds_plan (h : σ.checkWrap w.kind v = .ok f) (hv : w.Valid σ (σ.shape f.val.shape)) :
    Succeeds (σ.plan (w.call v)) := by
  cases w <;> refine succeeds_bind.mpr ⟨f, h, ?_⟩
  case length min max =>
    have ⟨hs, hl, low, high, hlow, hhigh, hsome, hle⟩ := hv
    have hb : Succeeds (σ.checkBounds min max) := checkBounds_succeeds hlow hhigh hsome hle
    simp only [hs, hl, Bool.not_true, Bool.or_self, Bool.false_eq_true, if_false]
    exact succeeds_bind.mpr (hb.imp fun _ e => ⟨e, succeeds_pure⟩)
  case unique scope =>
    exact succeeds_bind.mpr ((checkScope_succeeds hv).imp fun _ e => ⟨e, succeeds_pure⟩)
  case default value =>
    exact succeeds_bind.mpr ⟨(), Shape.checkDefault_eq_ok_iff.mpr hv, succeeds_pure⟩
  case search => exact succeeds_pure
  case auth rules =>
    cases hv
    case inl hv =>
      have ⟨r, hr, hn⟩ := hv
      simp [hr, hn]
    case inr hv =>
      have ⟨hr, lines, e, hn, hl⟩ := hv
      subst e
      simp only [hr]
      exact succeeds_bind.mpr ((checkScript_succeeds hn hl).imp fun _ e => ⟨e, succeeds_pure⟩)
  case cache age stale =>
    exact succeeds_bind.mpr ((checkFieldCache_succeeds hv).imp fun _ e => ⟨e, succeeds_pure⟩)

end Wrapping

namespace Store

variable {σ : Store} {n : FieldId} {f : Field} {w : Wrapping}

-- The call answers with a new field, which is the given one with a directive of the kind around it.
def Extends (σ : Store) (n : FieldId) (f : Field) (w : Wrapping) : Prop :=
  ∃ d σ', d.kind = w.kind ∧ σ.perform (w.call (.field n)) = (.ok (.field σ.fields.size), σ') ∧
    σ'.fields = σ.fields.push (.wrap ⟨n, f⟩ d)

def Refuses (σ : Store) (c : Call) : Prop := ∃ m, σ.perform c = (.error (.misuse m), σ)

theorem extends_of_checkWrap (h : σ.checkWrap w.kind (.field n) = .ok ⟨n, f⟩)
    (hv : w.Valid σ (σ.shape f.shape)) : σ.Extends n f w := by
  have ⟨p, hp⟩ := Wrapping.succeeds_plan h hv
  have ⟨g, before, d, hg, hk, hc, e⟩ := Wrapping.plan_eq_ok hp
  have hfg : ⟨n, f⟩ = g := Except.ok.inj (h.symm.trans hg)
  subst e hfg
  refine ⟨d, _, hk, perform_of_plan hp, ?_⟩
  rw [wrapPlan, applyAll_append]
  exact congrArg (·.push (Field.wrap ⟨n, f⟩ d)) hc.fields_eq

theorem Extends.not_refuses (h : σ.Extends n f w) : ¬ σ.Refuses (w.call (.field n)) := by
  intro ⟨_, hr⟩
  have ⟨_, _, _, ho, _⟩ := h
  cases ho.symm.trans hr

theorem refuses_of_wrapFault (hf : σ.fields[n]? = some f) {m : Misuse}
    (hm : f.wrapFault? (σ.shape f.shape) w.kind = some m) : σ.Refuses (w.call (.field n)) := by
  have hc : σ.checkWrap w.kind (.field n) = .error (.misuse m) := by
    have hg : σ.field? (.field n) = some ⟨n, f⟩ := field?_eq_some_iff.mpr ⟨rfl, hf⟩
    simp only [checkWrap, hg, hm, Misuse.refusal]
  exact ⟨m, by simp only [perform, Wrapping.plan_of_refused hc]⟩

-- Along every run all chains keep to the grammar, and a directive goes on a field exactly if the
-- chain still keeps to the grammar then, as long as there is nothing wrong with its arguments.
theorem grammatical_run (cs : List Call) {n : FieldId} {f : Field}
    (hf : (({} : Store).run cs).fields[n]? = some f) :
    let σ := ({} : Store).run cs
    let isReference := (σ.shape f.shape).isObject
    Grammatical isReference f.kinds.reverse ∧
      ∀ w : Wrapping, w.Valid σ (σ.shape f.shape) →
        (σ.Extends n f w ↔ Grammatical isReference (f.kinds.reverse ++ [w.kind])) ∧
        (σ.Refuses (w.call (.field n)) ↔
          ¬ Grammatical isReference (f.kinds.reverse ++ [w.kind])) := by
  intro σ isReference
  have hg : Grammatical isReference f.kinds.reverse := (formed_run cs n f hf).grammatical
  refine ⟨hg, fun w hv => ?_⟩
  rw [← Field.wrapFault?_eq_none_iff_grammatical hg]
  cases hw : f.wrapFault? (σ.shape f.shape) w.kind
  case none =>
    have hc : σ.checkWrap w.kind (.field n) = .ok ⟨n, f⟩ :=
      checkWrap_eq_ok.mpr ⟨field?_eq_some_iff.mpr ⟨rfl, hf⟩, hw⟩
    have he := extends_of_checkWrap hc hv
    exact ⟨iff_of_true he rfl, iff_of_false he.not_refuses fun h => h rfl⟩
  case some m =>
    have hr := refuses_of_wrapFault hf hw
    exact ⟨iff_of_false (fun he => he.not_refuses hr) nofun, iff_of_true hr nofun⟩

theorem checkWrap_run (cs : List Call) {n : FieldId} {f : Field} {k : NodeKind}
    (hf : (({} : Store).run cs).fields[n]? = some f)
    (may : Grammatical ((({} : Store).run cs).shape f.shape).isObject (f.kinds.reverse ++ [k])) :
    (({} : Store).run cs).checkWrap k (.field n) = .ok ⟨n, f⟩ :=
  checkWrap_eq_ok.mpr ⟨field?_eq_some_iff.mpr ⟨rfl, hf⟩,
    (Field.wrapFault?_eq_none_iff_grammatical (formed_run cs n f hf).grammatical).mpr may⟩

def limited : List Call :=
  [.leaf (.scalar .string) (.bool false), .length (.field 0) (.int 1) .null]

theorem limited_extends_refuses :
    let σ := ({} : Store).run limited
    σ.Extends 1 ⟨0, 0, some 0, [.length (some 1) none]⟩ .search ∧
      σ.Refuses (.length (.field 1) (.int 2) .null) := by
  have hf : (({} : Store).run limited).fields[1]? =
      some ⟨0, 0, some 0, [.length (some 1) none]⟩ := rfl
  have ⟨_, h⟩ := grammatical_run limited hf
  constructor
  · exact (h .search trivial).left.mpr ⟨[.length, .search], [], rfl, by decide, by decide, nofun⟩
  · have hv : (Wrapping.length (.int 2) .null).Valid (({} : Store).run limited)
        ((({} : Store).run limited).shape 0) :=
      ⟨rfl, rfl, some 2, none, .given 2 rfl, .missing, .inl rfl, nofun⟩
    exact (h (.length (.int 2) .null) hv).right.mpr fun hg =>
      (hg.fits_of_append rfl).right.left (by decide)

end Store

end GraphSchema
