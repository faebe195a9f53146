import Mathlib.Data.List.Induction
import GraphSchema.Proofs.Auth.Reading

namespace GraphSchema

open Outcome

-- Whom a rule is asked for.
inductive Grant
  | audience (a : Audience)
  | groups (names : List String)

namespace Grant

def allow : Grant → String
  | audience a => a.name
  | groups _ => "groups"

def groups? : Grant → Option (List String)
  | audience _ => none
  | groups names => some names

def rule (g : Grant) (os : List Operation) : AuthRule :=
  ⟨.text g.allow, g.groups?.map (·.map .text), os⟩

theorem granted_rule (g : Grant) (os : List Operation) : (g.rule os).Granted := by
  cases g <;> constructor

theorem entry_rule (g : Grant) (os : List Operation) :
    (g.rule os).entry = ⟨g.allow, g.groups?, os.map (·.name)⟩ := by
  cases g
  case audience => rfl
  case groups names =>
    rw [AuthRule.entry, rule, groups?, Option.map_some, Option.map_some, AuthRule.map_plain_texts]
    rfl

theorem narrow_rule (g : Grant) (os : List Operation) (o : Operation) :
    (g.rule os.eraseDups).narrow o = g.rule (os ++ [o]).eraseDups := by
  unfold AuthRule.narrow
  by_cases h : o ∈ os <;>
    simp [rule, h, List.eraseDups_append, List.removeAll, List.eraseDups_cons]

end Grant

-- A call on a rule set, or on the rule that is at some place in it.
inductive RuleCall
  | allow (a : Audience)
  | groups (names : List String)
  | narrow (k : Nat) (o : Operation)

namespace RuleCall

def call (s : RuleSetId) (r : RuleId) : RuleCall → Call
  | allow a => .allow (.ruleSet s) a
  | groups names => .allowGroups (.ruleSet s) (.texts names)
  | narrow k o => .narrow (.object (.rule (r + k))) o

-- Whether a rule is asked for.
def asks : RuleCall → Bool
  | narrow .. => false
  | _ => true

-- There has to be a group at least.
def grant? : RuleCall → Option Grant
  | allow a => some (.audience a)
  | groups [] => none
  | groups names => some (.groups names)
  | narrow .. => none

def operation? (k : Nat) : RuleCall → Option Operation
  | narrow j o => if j = k then some o else none
  | _ => none

-- Names of groups are not empty, and only the rules that were made so far can be narrowed.
def Fits (n : Nat) : RuleCall → Prop
  | allow _ => True
  | groups names => ∀ s ∈ names, s ≠ ""
  | narrow k _ => k < n

instance (n : Nat) : DecidablePred (Fits n)
  | allow _ => .isTrue trivial
  | groups names => inferInstanceAs (Decidable (∀ s ∈ names, s ≠ ""))
  | narrow k _ => inferInstanceAs (Decidable (k < n))

-- A rule is returned when it is made, and each time that it is narrowed.
def answer (r : RuleId) (n : Nat) : RuleCall → Except Error Value
  | groups [] => .error (.misuse (.noGroups "[]"))
  | allow _ | groups _ => .ok (.object (.rule (r + n)))
  | narrow k _ => .ok (.object (.rule (r + k)))

def grants (cs : List RuleCall) : List Grant := cs.filterMap grant?

def operationsOn (k : Nat) (cs : List RuleCall) : List Operation := cs.filterMap (operation? k)

def made (cs : List RuleCall) : List AuthRule :=
  (grants cs).mapIdx fun k g => g.rule (operationsOn k cs).eraseDups

def Valid (cs : List RuleCall) : Prop :=
  ∀ (i : Nat) (h : i < cs.length), cs[i].Fits (grants (cs.take i)).length

instance : DecidablePred Valid := fun cs =>
  inferInstanceAs
    (Decidable (∀ (i : Nat) (h : i < cs.length), cs[i].Fits (grants (cs.take i)).length))

variable {cs : List RuleCall} {c : RuleCall} {k : Nat} {o : Operation}

theorem grants_concat (cs : List RuleCall) (c : RuleCall) :
    grants (cs ++ [c]) = grants cs ++ c.grant?.toList := by
  rw [grants, List.filterMap_append]
  cases h : c.grant? <;> simp [grants, h]

theorem operationsOn_concat (k : Nat) (cs : List RuleCall) (c : RuleCall) :
    operationsOn k (cs ++ [c]) = operationsOn k cs ++ (c.operation? k).toList := by
  rw [operationsOn, List.filterMap_append]
  cases h : c.operation? k <;> simp [operationsOn, h]

theorem Valid.take (h : Valid cs) (n : Nat) : Valid (cs.take n) := by
  intro i hi
  have hi : i < min n cs.length := by simpa using hi
  have hf := h i (by omega)
  rwa [List.getElem_take, List.take_take, Nat.min_eq_left (by omega)]

theorem valid_concat : Valid (cs ++ [c]) ↔ Valid cs ∧ c.Fits (grants cs).length := by
  constructor
  case mp => exact fun h => ⟨by simpa using h.take cs.length, by simpa using h cs.length (by simp)⟩
  case mpr =>
    intro ⟨h, hc⟩ i hi
    by_cases hl : i < cs.length
    case pos =>
      rw [List.getElem_append_left hl, List.take_append_of_le_length hl.le]
      exact h i hl
    case neg =>
      have e : i = cs.length := by simp at hi; omega
      subst e
      simpa using hc

-- No operation is called on a rule that is not there yet.
theorem operationsOn_eq_nil (h : Valid cs) (hk : (grants cs).length ≤ k) :
    operationsOn k cs = [] := by
  induction cs using List.reverseRecOn
  case nil => rfl
  case append_singleton cs c hi =>
    have ⟨h, hc⟩ := valid_concat.mp h
    rw [grants_concat, List.length_append] at hk
    rw [operationsOn_concat, hi h (by omega)]
    cases c
    case narrow j o =>
      have hj : j ≠ k := by simp only [Fits] at hc; omega
      simp [operation?, hj]
    all_goals rfl

theorem length_made (cs : List RuleCall) : (made cs).length = (grants cs).length :=
  List.length_mapIdx

theorem made_concat_of_grant (h : Valid cs) {g : Grant} (hg : c.grant? = some g) :
    made (cs ++ [c]) = made cs ++ [g.rule []] := by
  have same (k : Nat) : operationsOn k (cs ++ [c]) = operationsOn k cs := by
    cases c
    case narrow => exact nomatch hg
    all_goals simp [operationsOn_concat, operation?]
  simp only [made, grants_concat, hg, same, Option.toList_some, List.mapIdx_concat,
    operationsOn_eq_nil h le_rfl, List.eraseDups_nil]

theorem made_concat_nil (cs : List RuleCall) : made (cs ++ [.groups []]) = made cs := by
  simp [made, grants_concat, operationsOn_concat, grant?, operation?]

theorem granted_made : ∀ a ∈ made cs, a.Granted := by
  intro a ha
  have ⟨k, hk, e⟩ := List.mem_mapIdx.mp ha
  exact e ▸ Grant.granted_rule ..

theorem entries_made (cs : List RuleCall) :
    (made cs).map (·.entry) = (grants cs).mapIdx fun k g =>
      ⟨g.allow, g.groups?, (operationsOn k cs).eraseDups.map (·.name)⟩ := by
  simp only [made, List.mapIdx_eq_zipIdx_map, List.map_map, Function.comp_def, Grant.entry_rule]

-- Only the rule that it is called on gets the operation.
theorem made_concat_narrow (cs : List RuleCall) (k : Nat) (o : Operation) :
    made (cs ++ [.narrow k o]) = (made cs).modify k (·.narrow o) := by
  have same : grants (cs ++ [.narrow k o]) = grants cs := by simp [grants_concat, grant?]
  refine List.ext_getElem? fun j => ?_
  rw [List.getElem?_modify, made, made, same, List.getElem?_mapIdx, List.getElem?_mapIdx,
    Option.map_eq_map, Option.map_map, operationsOn_concat]
  congr 1
  funext g
  by_cases h : k = j
  case pos => simp [operation?, h, Grant.narrow_rule]
  case neg => simp [operation?, h]

end RuleCall

namespace Store

open RuleCall

variable {σ : Store} {cs : List RuleCall} {c : RuleCall} {rs : List AuthRule}

theorem ruleSet?_withRules (σ : Store) (rs : List AuthRule) :
    (σ.withRules rs).ruleSet? (.ruleSet σ.ruleSets.size) = some σ.ruleSets.size := by
  simp [withRules, ruleSet?]

theorem groupRule_nil (σ : Store) :
    σ.groupRule (.texts []) = .error (.misuse (.noGroups "[]")) := rfl

theorem groupRule_cons {n : String} {ns : List String} (h : ∀ m ∈ n :: ns, m ≠ "") :
    σ.groupRule (.texts (n :: ns)) = .ok (.ofGroups ((n :: ns).map .text)) := by
  have named : ((n :: ns).map Value.text).find? (! isGroupName ·) = none := by
    simpa [isGroupName] using h
  have given : σ.items (.texts (n :: ns)) = .ok ((n :: ns).map .text) := rfl
  have many : ¬ (! σ.isTrue (.texts (n :: ns))) := Bool.false_ne_true
  refine (if_neg many).trans (bind_eq_ok.mpr ⟨_, given, ?_⟩)
  rw [named]
  rfl

-- A rule that is asked for is returned, and becomes the last one of the set.
theorem perform_of_extend (h : Valid cs) {g : Grant} (hg : c.grant? = some g) {call : Call}
    (hp : (σ.withRules (made cs)).plan call =
      .ok ((σ.withRules (made cs)).extend σ.ruleSets.size (g.rule []))) :
    (σ.withRules (made cs)).perform call =
      (.ok (.object (.rule (σ.rules.size + (grants cs).length))),
        σ.withRules (made (cs ++ [c]))) := by
  have ⟨answer, changes⟩ := extend_withRules σ (made cs) (g.rule [])
  rw [perform_of_plan hp, answer, changes, length_made, made_concat_of_grant h hg]

-- What a call answers, and that the rules are those of the script with this call then.
theorem perform_call (h : Valid cs) (hc : c.Fits (grants cs).length) :
    (σ.withRules (made cs)).perform (c.call σ.ruleSets.size σ.rules.size) =
      (c.answer σ.rules.size (grants cs).length, σ.withRules (made (cs ++ [c]))) := by
  have given := ruleSet?_withRules σ (made cs)
  cases c
  case allow a =>
    refine perform_of_extend h rfl ?_
    simp only [call, plan, Store.allow, given]
    rfl
  case groups names =>
    cases names
    case nil =>
      rw [made_concat_nil]
      refine perform_of_refusal ?_
      simp only [call, plan, allowGroups, given, groupRule_nil]
      rfl
    case cons n ns =>
      refine perform_of_extend h rfl ?_
      simp only [call, plan, allowGroups, given, groupRule_cons hc]
      rfl
  case narrow k o =>
    rw [made_concat_narrow, ← narrow_withRules]
    rfl

theorem run_script (h : Valid cs) :
    (σ.withRules []).run (cs.map (·.call σ.ruleSets.size σ.rules.size)) =
      σ.withRules (made cs) := by
  induction cs using List.reverseRecOn
  case nil => rfl
  case append_singleton cs c hi =>
    have ⟨h, hc⟩ := valid_concat.mp h
    rw [List.map_append, List.map_singleton, run_concat, hi h, perform_call h hc]

theorem rulesOf_withRules (σ : Store) (rs : List AuthRule) :
    (σ.withRules rs).rulesOf σ.ruleSets.size = rs := by
  rw [rulesOf, ruleIds_withRules, List.map_map]
  refine List.ext_getElem (by simp) fun k hk _ => ?_
  have hk : k < rs.length := by simpa using hk
  simp [withRules, rule, hk]

theorem text_ruleSet (σ : Store) (s : RuleSetId) :
    σ.text (.ruleSet s) = σ.rulesText (σ.rulesOf s) := by
  -- Whatever the depth is, a rule set reads the same.
  have e (n : Nat) : σ.refText n (.ruleSet s) = σ.rulesText (σ.rulesOf s) := by
    cases n <;> rw [refText]
  exact e _

theorem perform_text_withRules {rs : List AuthRule} (h : ∀ a ∈ rs, a.Granted) :
    ((σ.withRules rs).perform (.text (.ruleSet σ.ruleSets.size))).1 =
      .ok (.text (RuleEntry.texts quote (rs.map (·.entry)))) := by
  rw [← AuthRule.texts_wordings]
  have worded := rulesText_eq_of_worded (σ := σ.withRules rs) fun a ha => (h a ha).worded
  refine answer_of_plan (p := .say _) ?_
  rw [plan, text_ruleSet, rulesOf_withRules, worded]
  rfl

-- Whatever calls are made on a fresh set of rules and on the rules that it returns, there is a rule
-- in it for each that was asked for, in that order, and each has just the operations that were
-- called on it. All this can be read from the text of the set. No groups are no rule.
theorem script_run (σ : Store) {cs : List RuleCall} (h : Valid cs) :
    let s := σ.ruleSets.size
    let r := σ.rules.size
    let after (cs : List RuleCall) := (σ.perform .ruleSet).2.run (cs.map (·.call s r))
    let entries : List (RuleEntry String) := (grants cs).mapIdx fun k g =>
      ⟨g.allow, g.groups?, (operationsOn k cs).eraseDups.map (·.name)⟩
    (σ.perform .ruleSet).1 = .ok (.ruleSet s) ∧
      (∀ (i : Nat) (hi : i < cs.length),
        ((after (cs.take i)).perform (cs[i].call s r)).1 =
          cs[i].answer r (grants (cs.take i)).length) ∧
      (after cs).ruleIds s = (List.range (grants cs).length).map (r + ·) ∧
      (after cs).rulesOf s =
        ((grants cs).mapIdx fun k g => g.rule (operationsOn k cs).eraseDups) ∧
      ((after cs).perform (.text (.ruleSet s))).1 = .ok (.text (RuleEntry.texts quote entries)) ∧
      Constant.entries? (RuleEntry.texts quote entries) = some entries := by
  intro s r after entries
  have run {cs : List RuleCall} (h : Valid cs) : after cs = σ.withRules (made cs) := run_script h
  refine ⟨rfl, fun i hi => ?_, ?_, ?_, ?_, ?_⟩
  · rw [run (h.take i), perform_call (h.take i) (h i hi)]
  · rw [run h, ruleIds_withRules, length_made]
  · rw [run h, rulesOf_withRules, made]
  · rw [run h, perform_text_withRules granted_made, entries_made]
  · have granted : ∀ a ∈ made cs, a.Granted := granted_made
    have read := AuthRule.entries?_texts granted
    rwa [entries_made] at read

-- Two rules that are narrowed by turns, and a call that is refused in between.
def turns : List RuleCall :=
  [.groups ["a\"], allow: owner \x7d", ", "], .narrow 0 .read, .allow .owner, .narrow 1 .create,
    .narrow 0 .get, .groups [], .narrow 1 .create, .narrow 0 .read]

theorem script_run_turns :
    let τ := (({} : Store).perform .ruleSet).2.run (turns.map (·.call 0 0))
    τ.rulesOf 0 =
        [⟨.text "groups", some [.text "a\"], allow: owner \x7d", .text ", "], [.read, .get]⟩,
          ⟨.text "owner", none, [.create]⟩] ∧
      ∃ text, (τ.perform (.text (.ruleSet 0))).1 = .ok (.text text) ∧
        Constant.entries? text =
          some [⟨"groups", some ["a\"], allow: owner \x7d", ", "], ["read", "get"]⟩,
            ⟨"owner", none, ["create"]⟩] := by
  intro τ
  have ⟨_, _, _, rules, shown, read⟩ := script_run {} (by decide : Valid turns)
  exact ⟨rules, _, shown, read⟩

-- No groups are refused. No reader tells the halves of a character in the name of a group from the
-- character.
theorem not_script_run :
    (¬ ∀ cs : List RuleCall, Valid cs →
      let τ := (({} : Store).perform .ruleSet).2.run (cs.map (·.call 0 0))
      (τ.ruleIds 0).length = cs.countP (·.asks)) ∧
    ¬ ∃ read : String → Option (List CodePoint), ∀ name, name ≠ [] →
      read (RuleEntry.texts Quoted.quotePoints [⟨"groups", some [name], []⟩]) = some name := by
  constructor
  case left => exact fun h => absurd (h [.groups []] (by decide)) (by decide)
  case right =>
    rintro ⟨read, h⟩
    obtain ⟨name, nonempty, other, e⟩ := RuleEntry.exists_texts_eq
    have halves := h name nonempty
    have char := h [.char '😀'] nofun
    rw [e] at halves
    exact other (Option.some.inj (halves.symm.trans char))

end Store

end GraphSchema
