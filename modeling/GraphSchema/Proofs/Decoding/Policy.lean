import GraphSchema.Proofs.Decoding.Cache
import GraphSchema.Proofs.Step.Cache
import GraphSchema.Proofs.Value.Compared
import GraphSchema.Proofs.Value.Hash

namespace GraphSchema

open Outcome

-- The invalidation of a type cache, or null if it has none.
def TypeCache.invalidationValue (c : TypeCache) : Value :=
  c.invalidation.elim .null fun i => .object (.invalidation i.id)

namespace Store

variable {σ : Store} {v w : Value} {i j : InvalidationId} {a b : Invalidation}

-- What the calls that compare, print and count answer.

def Equal (σ : Store) (v w : Value) : Prop := (σ.perform (.equal v w)).1 = .ok (.bool true)

def SameText (σ : Store) (v w : Value) : Prop :=
  ∃ s, (σ.perform (.text v)).1 = .ok (.text s) ∧ (σ.perform (.text w)).1 = .ok (.text s)

theorem answer_equal : (σ.perform (.equal v w)).1 = (σ.compare v w).map .bool := by
  rw [answer_eq, plan, equality]
  cases σ.compare v w <;> rfl

theorem answer_text : (σ.perform (.text v)).1 = (σ.text v).map .text := by
  rw [answer_eq, plan, sayText]
  cases σ.text v <;> rfl

theorem equal_iff : σ.Equal v w ↔ σ.compare v w = .ok true := by
  rw [Equal, answer_equal, map_eq_ok]
  simp

theorem sameText_iff {s t : String} (hv : σ.text v = .ok s) (hw : σ.text w = .ok t) :
    σ.SameText v w ↔ s = t := by
  rw [SameText, answer_text, answer_text, hv, hw]
  simp [Except.map, eq_comm]

theorem succeeds_distinct_iff {vs : List Value} :
    Succeeds (σ.perform (.distinct vs)).1 ↔ ∀ v ∈ vs, σ.keyFault? v = none := by
  rw [answer_eq, plan, countDistinct, ← List.findSome?_eq_none_iff]
  cases vs.findSome? σ.keyFault?
  case none => exact iff_of_true ⟨_, rfl⟩ rfl
  case some => exact iff_of_false not_succeeds_error (Option.some_ne_none _)

theorem hash_eq_of_equal (h : σ.Equal v w) {f : Digest → Int} {m n : Int}
    (hv : σ.hash f v = .ok m) (hw : σ.hash f w = .ok n) : m = n := by
  have h := equal_iff.mp h
  unfold compare at h
  split at h
  case isTrue => exact nomatch h
  case isFalse =>
    have same : σ.equals v w := Except.ok.inj h
    exact hash_eq_of_alike (Bool.or_eq_true_iff.mpr (.inr same)) hv hw

theorem succeeds_hash_iff {f : Digest → Int} : Succeeds (σ.hash f v) ↔ σ.keyFault? v = none := by
  rw [← fault?_eq_none_iff, fault?_hash]

-- Invalidations.

-- If two invalidations are of one general policy, then their field names are found equal.
def SameFields (σ : Store) (a b : Invalidation) : Prop :=
  ∀ p v w, a = .policy p v → b = .policy p w →
    σ.compareAt (σ.invalidations.size - 1) v w = .ok true

theorem sameFields_policy {p : Policy} : σ.SameFields (.policy p v) (.policy p w) ↔
    σ.compareAt (σ.invalidations.size - 1) v w = .ok true := by
  constructor
  · exact fun h => h p v w rfl rfl
  · rintro h _ _ _ ⟨⟩ ⟨⟩
    exact h

theorem sameFields_of_text_ne (h : a.text ≠ b.text) : σ.SameFields a b := by
  rintro p v w rfl rfl
  exact absurd rfl h

theorem compare_invalidation (hi : σ.invalidations[i]? = some a)
    (hj : σ.invalidations[j]? = some b) :
    σ.compare (.object (.invalidation i)) (.object (.invalidation j)) =
      if a.policyName = b.policyName then
        σ.compareAt (σ.invalidations.size - 1) a.fieldName b.fieldName
      else .ok false := by
  have ⟨k, hk⟩ : ∃ k, σ.invalidations.size = k + 1 :=
    Nat.exists_eq_add_one.mpr (Nat.zero_lt_of_lt (Array.getElem?_eq_some_iff.mp hi).1)
  have ha : σ.invalidations.getD i default = a := by simp [hi]
  have hb : σ.invalidations.getD j default = b := by simp [hj]
  rw [compare_eq, hk, compareAt]
  change (if σ.signalsAt (k + 1) (.invalidation i) (.invalidation j) then
    Except.error (Error.arithmetic .signaling)
    else .ok (σ.sameAt (k + 1) (.invalidation i) (.invalidation j))) = _
  rw [signalsAt, sameAt, ha, hb]
  by_cases h : a.policyName = b.policyName
  case pos => simp [h, compareAt]
  case neg => simp [h]

theorem compareAt_text (n : Nat) (s t : String) :
    σ.compareAt n (.text s) (.text t) = .ok (s == t) := rfl

theorem policyName_ne_field (p : Policy) : p.name ≠ "field" := by cases p <;> decide

open Invalidation in
-- Equal invalidations are those that say the same, unless they are of a general policy and what is
-- not said makes a difference.
theorem equal_invalidation_iff (hi : σ.invalidations[i]? = some a)
    (hj : σ.invalidations[j]? = some b) :
    σ.Equal (.object (.invalidation i)) (.object (.invalidation j)) ↔
      a.text = b.text ∧ σ.SameFields a b := by
  rw [equal_iff, compare_invalidation hi hj]
  cases a <;> cases b
  case policy.policy p v q w =>
    by_cases h : p = q
    case pos =>
      subst h
      simp [Invalidation.text, policyName, fieldName, sameFields_policy]
    case neg =>
      have names : p.name ≠ q.name := fun e => h (Policy.name_inj e)
      simp [Invalidation.text, policyName, names]
  case field.field m n =>
    have fields : σ.SameFields (.field m) (.field n) := by rintro _ _ _ ⟨⟩
    have texts : (Invalidation.field m).text = (Invalidation.field n).text ↔ m = n :=
      ⟨text_field_inj, fun e => e ▸ rfl⟩
    simp [policyName, fieldName, compareAt_text, texts, fields]
  case policy.field p v n =>
    simp [policyName, policyName_ne_field, text_policy_ne_text_field]
  case field.policy n p v =>
    simp [policyName, (policyName_ne_field p).symm, (text_policy_ne_text_field p v n).symm]

theorem text_invalidation (hi : σ.invalidations[i]? = some a) :
    σ.text (.object (.invalidation i)) = .ok a.text := by
  have ha : σ.invalidations.getD i default = a := by simp [hi]
  change σ.refText (σ.rules.size + σ.configs.size) (.invalidation i) = _
  rw [refText, ha]
  rfl

theorem sameText_invalidation_iff (hi : σ.invalidations[i]? = some a)
    (hj : σ.invalidations[j]? = some b) :
    σ.SameText (.object (.invalidation i)) (.object (.invalidation j)) ↔ a.text = b.text :=
  sameText_iff (text_invalidation hi) (text_invalidation hj)

-- What is asked of two invalidations: that they are equal if they have the same text and only then,
-- and that they have the same hash then, however hashes are made.
def Tells (σ : Store) (v w : Value) : Prop :=
  (σ.Equal v w ↔ σ.SameText v w) ∧
    (σ.Equal v w → ∀ f : Digest → Int, ∃ n, σ.hash f v = .ok n ∧ σ.hash f w = .ok n)

theorem tells_invalidation_iff (hi : σ.invalidations[i]? = some a)
    (hj : σ.invalidations[j]? = some b) :
    let v := Value.object (.invalidation i)
    let w := Value.object (.invalidation j)
    σ.Tells v w ↔ σ.SameFields a b ∧
      (σ.SameText v w → Succeeds (σ.perform (.distinct [v, w])).1) := by
  intro v w
  have equal : σ.Equal v w ↔ a.text = b.text ∧ σ.SameFields a b := equal_invalidation_iff hi hj
  have same : σ.SameText v w ↔ a.text = b.text := sameText_invalidation_iff hi hj
  have hashes (f : Digest → Int) : Succeeds (σ.perform (.distinct [v, w])).1 ↔
      Succeeds (σ.hash f v) ∧ Succeeds (σ.hash f w) := by
    rw [succeeds_distinct_iff, succeeds_hash_iff, succeeds_hash_iff]
    simp
  constructor
  · rintro ⟨told, hash⟩
    refine ⟨?_, fun h => ?_⟩
    · by_cases h : a.text = b.text
      · exact (equal.mp (told.mpr (same.mpr h))).right
      · exact sameFields_of_text_ne h
    · have ⟨n, hv, hw⟩ := hash (told.mpr h) fun _ => 0
      exact (hashes _).mpr ⟨⟨n, hv⟩, ⟨n, hw⟩⟩
  · rintro ⟨fields, hash⟩
    have told : σ.Equal v w ↔ σ.SameText v w := by rw [equal, same, and_iff_left fields]
    refine ⟨told, fun h f => ?_⟩
    have ⟨⟨m, hv⟩, ⟨n, hw⟩⟩ := (hashes f).mp (hash (told.mp h))
    exact ⟨n, hash_eq_of_equal h hv hw ▸ hv, hw⟩

-- Type caches.

variable {m n : TypeCacheId} {c d : TypeCache}

-- What type caches are to be told apart by: their times, and their invalidations, if they have any.
structure SameCache (σ : Store) (c d : TypeCache) : Prop where
  times : c.params.SameTimes d.params
  invalidation : σ.Equal c.invalidationValue d.invalidationValue

-- The field names that two type caches do not tell are found equal.
def SamePolicies (σ : Store) (c d : TypeCache) : Prop :=
  ∀ k ∈ c.invalidation, ∀ l ∈ d.invalidation, σ.SameFields k.val l.val

theorem samePolicies_of_ne
    (h : c.invalidation.map (·.val.text) ≠ d.invalidation.map (·.val.text)) :
    σ.SamePolicies c d := by
  intro k hk l hl
  refine sameFields_of_text_ne fun e => h ?_
  rw [Option.mem_def.mp hk, Option.mem_def.mp hl, Option.map_some, Option.map_some, e]

theorem equal_invalidationValue_iff (hc : σ.Backs c) (hd : σ.Backs d) :
    σ.Equal c.invalidationValue d.invalidationValue ↔
      c.invalidation.map (·.val.text) = d.invalidation.map (·.val.text) ∧ σ.SamePolicies c d := by
  unfold TypeCache.invalidationValue SamePolicies
  cases hi : c.invalidation <;> cases hj : d.invalidation
  case some.some i j => simpa using equal_invalidation_iff (hc i hi) (hd j hj)
  case none.none => exact iff_of_true (equal_iff.mpr rfl) ⟨rfl, nofun⟩
  all_goals exact iff_of_false (fun h => nomatch equal_iff.mp h) (fun h => nomatch h.left)

theorem sameCache_iff (hc : σ.Backs c) (hd : σ.Backs d) : σ.SameCache c d ↔
    c.params.SameTimes d.params ∧
      c.invalidation.map (·.val.text) = d.invalidation.map (·.val.text) ∧ σ.SamePolicies c d := by
  rw [← equal_invalidationValue_iff hc hd]
  exact ⟨fun h => ⟨h.times, h.invalidation⟩, fun ⟨times, i⟩ => ⟨times, i⟩⟩

theorem text_typeCache (hn : σ.typeCaches[n]? = some c) :
    σ.text (.object (.typeCache n)) = .ok c.text := by
  have hc : σ.typeCaches.getD n default = c := by simp [hn]
  change σ.refText (σ.rules.size + σ.configs.size) (.typeCache n) = _
  rw [refText, hc]
  rfl

theorem sameText_typeCache_iff (hm : σ.typeCaches[m]? = some c) (hn : σ.typeCaches[n]? = some d) :
    σ.SameText (.object (.typeCache m)) (.object (.typeCache n)) ↔
      c.params.SameTimes d.params ∧
        c.invalidation.map (·.val.text) = d.invalidation.map (·.val.text) :=
  (sameText_iff (text_typeCache hm) (text_typeCache hn)).trans TypeCache.text_eq_iff

theorem sameText_iff_sameCache (h : σ.AllBacked) (hm : σ.typeCaches[m]? = some c)
    (hn : σ.typeCaches[n]? = some d) :
    (σ.SameText (.object (.typeCache m)) (.object (.typeCache n)) ↔ σ.SameCache c d) ↔
      (c.params.SameTimes d.params → σ.SamePolicies c d) := by
  rw [sameText_typeCache_iff hm hn, sameCache_iff (h m c hm) (h n d hn)]
  constructor
  · intro h times
    by_cases texts : c.invalidation.map (·.val.text) = d.invalidation.map (·.val.text)
    · exact (h.mp ⟨times, texts⟩).right.right
    · exact samePolicies_of_ne texts
  · intro h
    exact ⟨fun ⟨times, texts⟩ => ⟨times, texts, h times⟩, fun ⟨times, texts, _⟩ => ⟨times, texts⟩⟩

-- Invalidations tell as much by their texts as by being equal, unless they are of one general
-- policy with field names that are not found equal, or that cannot be hashed. Type caches tell all
-- that they hold, but for these field names.
theorem equal_iff_sameText_run (cs : List Call) :
    let σ := ({} : Store).run cs
    (∀ (i j : InvalidationId) (a b : Invalidation),
      σ.invalidations[i]? = some a → σ.invalidations[j]? = some b →
      let v := Value.object (.invalidation i)
      let w := Value.object (.invalidation j)
      (σ.Equal v w ↔ σ.SameText v w ∧ σ.SameFields a b) ∧
        (σ.Tells v w ↔ σ.SameFields a b ∧
          (σ.SameText v w → Succeeds (σ.perform (.distinct [v, w])).1)) ∧
        (σ.Equal v w → ∀ (f : Digest → Int) m n,
          σ.hash f v = .ok m → σ.hash f w = .ok n → m = n)) ∧
    (∀ (m n : TypeCacheId) (c d : TypeCache),
      σ.typeCaches[m]? = some c → σ.typeCaches[n]? = some d →
      let v := Value.object (.typeCache m)
      let w := Value.object (.typeCache n)
      (σ.SameCache c d → σ.SameText v w) ∧
        ((σ.SameText v w ↔ σ.SameCache c d) ↔
          (c.params.SameTimes d.params → σ.SamePolicies c d))) ∧
    ∀ p v w, (σ.settle v).isPlain →
      (σ.SameFields (.policy p v) (.policy p w) ↔ σ.Equal v w) := by
  intro σ
  have backed : σ.AllBacked := allBacked_run cs
  refine ⟨fun i j a b hi hj => ⟨?_, ?_, ?_⟩, fun m n c d hm hn => ⟨?_, ?_⟩, fun p v w hv => ?_⟩
  · rw [equal_invalidation_iff hi hj, sameText_invalidation_iff hi hj]
  · exact tells_invalidation_iff hi hj
  · exact fun h f m n hv hw => hash_eq_of_equal h hv hw
  · rw [sameText_typeCache_iff hm hn, sameCache_iff (backed m c hm) (backed n d hn)]
    exact fun ⟨times, texts, _⟩ => ⟨times, texts⟩
  · exact sameText_iff_sameCache backed hm hn
  · rw [sameFields_policy, compareAt_of_isPlain hv, equal_iff]

def policies : List Call :=
  [.invalidation (.text "field") (.text "email"), .invalidation (.text "field") (.text "email"),
    .invalidation (.text "entity") (.text "email"),
    .typeCache (.int 60) .null (.object (.invalidation 3)),
    .typeCache (.int 60) (.int 0) (.object (.invalidation 4))]

theorem equal_iff_sameText_policies :
    let σ := ({} : Store).run policies
    σ.Tells (.object (.invalidation 3)) (.object (.invalidation 4)) ∧
      σ.SameText (.object (.typeCache 0)) (.object (.typeCache 1)) := by
  have ⟨invalidations, caches, _⟩ := equal_iff_sameText_run policies
  have ⟨equal, tells, _⟩ := invalidations 3 4 _ _ rfl rfl
  have ⟨same, _⟩ := caches 0 1 _ _ rfl rfl
  exact ⟨tells.mpr ⟨nofun, fun _ => ⟨_, rfl⟩⟩, same ⟨⟨rfl, rfl⟩, equal.mpr ⟨⟨_, rfl, rfl⟩, nofun⟩⟩⟩

-- The policy that was given a field name is not the one that is there from the start.
theorem not_tells : ¬ ∀ (cs : List Call) (i j : InvalidationId) (a b : Invalidation),
    (({} : Store).run cs).invalidations[i]? = some a →
    (({} : Store).run cs).invalidations[j]? = some b →
    (({} : Store).run cs).Tells (.object (.invalidation i)) (.object (.invalidation j)) := by
  intro h
  have told := h policies 0 5 _ _ rfl rfl
  have ⟨fields, _⟩ := (tells_invalidation_iff rfl rfl).mp told
  exact nomatch fields .entity .null (.text "email") rfl rfl

end Store

end GraphSchema
