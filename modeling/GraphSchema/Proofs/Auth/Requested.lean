import GraphSchema.Proofs.Auth.Worded
import GraphSchema.Proofs.Field.Sharing

namespace GraphSchema

open Outcome

namespace Value

-- Values that hold the same items each time, and count as true only if there are any.
def lasts : Value → Bool
  | stream _ | enumClass .. => false
  | _ => true

end Value

-- The groups that a rule is asked for: the argument, and its items at that time.
structure Request where
  argument : Value
  names : List Value

-- For each rule set, what each of its rules was asked for, if that was groups.
abbrev Requests := Array (List (Option Request))

namespace Store

def request (σ : Store) (v : Value) : Request := ⟨v, (σ.items? v).getD []⟩

def lineRequest (σ : Store) (l : RuleLine) : Option Request :=
  if (Audience.ofName? l.kind).isSome then none else l.args.head?.map σ.request

def scriptRequests (σ : Store) (h : Requests) : Value → Requests
  | .script lines => h.push (lines.map σ.lineRequest)
  | _ => h

-- The requests there are after a call that succeeded.
def requests (σ : Store) (h : Requests) : Call → Requests
  | .ruleSet => h.push []
  | .buildRuleSet v | .auth _ v => σ.scriptRequests h v
  | .allow (.object (.ruleSet s)) _ => h.modify s (· ++ [none])
  | .allowGroups (.object (.ruleSet s)) v => h.modify s (· ++ [some (σ.request v)])
  | _ => h

def requestsOf (σ : Store) (h : Requests) : List Call → Requests
  | [] => h
  | c :: cs =>
    match σ.perform c with
    | (.ok _, σ') => σ'.requestsOf (σ.requests h c) cs
    | (.error _, σ') => σ'.requestsOf h cs

end Store

namespace AuthRule

open Store (isGroupName)

-- A rule for groups is for exactly those that it was asked for, at least one, and all of them are
-- non-empty texts.
structure Effective (r : AuthRule) (q : Option Request) : Prop where
  groups : r.allow = .text "groups" → ∃ g, q = some g ∧ r.groups = some g.names ∧ g.names ≠ [] ∧
    ∀ n ∈ g.names, isGroupName n
  text : ∀ ref, groupsText ref r.groups ≠ .ok ["groups: []"]

-- What a rule is like, by what it was asked for.
inductive Answers : AuthRule → Option Request → Prop
  | audience (a : Audience) (os : List Operation) : Answers ⟨.text a.name, none, os⟩ none
  | kept {g : Request} (lasts : g.argument.lasts) (named : g.names ≠ [])
      (names : ∀ n ∈ g.names, isGroupName n) (os : List Operation) :
      Answers ⟨.text "groups", some g.names, os⟩ (some g)
  | lost {g : Request} (lasts : g.argument.lasts = false) (os : List Operation) :
      Answers ⟨.text "groups", some [], os⟩ (some g)

variable {r : AuthRule} {q : Option Request}

theorem Answers.narrow (h : r.Answers q) (o : Operation) : (r.narrow o).Answers q := by
  unfold AuthRule.narrow
  split
  case isTrue => exact h
  case isFalse =>
    cases h
    case audience => exact .audience ..
    case kept hl hs hn _ _ => exact .kept hl hs hn _
    case lost hl _ _ => exact .lost hl _

end AuthRule

namespace Store

open AuthRule (Answers)

variable {σ σ' : Store} {v : Value} {r r' : AuthRule} {l : RuleLine} {reqs : Requests}

-- Whatever lasts and counts as true has items, if it has any.
theorem items_ne_nil {names : List Value} (hl : v.lasts) (ht : σ.isTrue v)
    (hx : v.text? = none) (hi : σ.items? v = some names) : names ≠ [] := by
  rintro rfl
  unfold Store.items? at hi
  unfold Store.isTrue at ht
  cases v
  case object r => simp_all [Value.items?, Value.isTrue]
  case progression p => simp_all [Value.items?, Value.isTrue, Progression.toList]
  all_goals simp_all [Value.items?, Value.isTrue, Value.lasts, Value.ofOctets, Value.text?]

-- A progression has numbers for items, which are no names.
theorem front_eq_of_names {names : List Value} (ht : σ.isTrue v)
    (hi : σ.items v.front = .ok names) (hn : ∀ n ∈ names, isGroupName n) : v.front = v := by
  cases v
  case progression p =>
    have hp : p.size ≠ 0 := by simpa [Store.isTrue, Value.isTrue] using ht
    rw [Value.front, if_neg hp] at hi
    cases hi
    exact absurd (hn _ List.mem_cons_self) Bool.false_ne_true
  all_goals rfl

-- What does not last is used up, or is a class, of which no member is a name.
theorem rest_eq_nil {names : List Value} (hl : v.lasts = false) (hi : σ.items? v = some names)
    (hn : ∀ n ∈ names, isGroupName n) : v.rest names = [] := by
  cases v
  case stream => rfl
  case enumClass id name ms =>
    refine List.eq_nil_iff_forall_not_mem.mpr fun n hm => ?_
    have hi : Value.membersOf id name ms = _ := Option.some.inj hi
    obtain ⟨_, _, rfl⟩ := List.mem_map.mp (hi ▸ hm)
    exact nomatch hn _ hm
  all_goals exact nomatch hl

theorem answers_of_groupRule (hr : σ.groupRule v = .ok r) : r.Answers (some (σ.request v)) := by
  have ⟨hx, ht⟩ := isTrue_of_groupRule hr
  obtain ⟨names, hi, hn, rfl⟩ := groupRule_eq_ok hr
  rw [front_eq_of_names ht hi hn] at hi
  have hi : σ.items? v = some names := by
    unfold Store.items at hi
    split at hi
    case h_1 h => exact h.trans (congrArg some (Except.ok.inj hi))
    case h_2 => exact nomatch hi
  have hq : σ.request v = ⟨v, names⟩ := by rw [request, hi, Option.getD_some]
  rw [hq]
  cases hl : v.lasts
  case false =>
    rw [rest_eq_nil hl hi hn]
    exact .lost hl []
  case true =>
    have hv : v.rest names = names := by
      cases v
      case stream => exact nomatch hl
      all_goals rfl
    rw [hv]
    exact .kept (g := ⟨v, names⟩) hl (items_ne_nil hl ht hx hi) hn []

theorem answers_of_lineRule (hr : σ.lineRule l = .ok r) : r.Answers (σ.lineRequest l) := by
  unfold lineRule at hr
  unfold lineRequest
  split at hr
  case h_1 a ha _ =>
    cases hr
    rw [ha]
    exact .audience a []
  case h_2 => exact nomatch hr
  case h_3 ha =>
    rw [ha]
    split at hr
    case isFalse => exact nomatch hr
    case isTrue =>
      split at hr
      case h_1 v hv =>
        rw [hv]
        exact answers_of_groupRule hr
      all_goals exact nomatch hr

theorem answers_of_scriptRule (hr : σ.scriptRule l = .ok r) : r.Answers (σ.lineRequest l) := by
  have ⟨r₁, hl, hf⟩ := bind_eq_ok.mp hr
  exact holds_of_foldlM (P := (·.Answers _)) (fun _ o h => h.narrow o) (answers_of_lineRule hl) hf

theorem answers_of_mapM {ls : List RuleLine} {rs : List AuthRule}
    (hr : ls.mapM σ.scriptRule = .ok rs) : List.Forall₂ Answers rs (ls.map σ.lineRequest) := by
  rw [List.forall₂_map_right_iff]
  exact ((forall₂_of_mapM hr).imp fun _ _ h => answers_of_scriptRule h).flip

-- The rules of these numbers are there, and they answer the requests.
def Answered (σ : Store) (rs : List RuleId) (qs : List (Option Request)) : Prop :=
  List.Forall₂ (fun r q => ∃ a, σ.rules[r]? = some a ∧ a.Answers q) rs qs

structure AllAnswered (σ : Store) (h : Requests) : Prop where
  size : h.size = σ.ruleSets.size
  sets : ∀ (s : RuleSetId) (rs : List RuleId) (qs : List (Option Request)),
    σ.ruleSets[s]? = some rs → h[s]? = some qs → σ.Answered rs qs

variable {rs : List RuleId} {qs : List (Option Request)}

theorem Answered.mono (h : σ.Answered rs qs) (hm : ∀ (r : RuleId) (a : AuthRule),
    σ.rules[r]? = some a → ∃ b, σ'.rules[r]? = some b ∧ ∀ q, a.Answers q → b.Answers q) :
    σ'.Answered rs qs :=
  List.Forall₂.imp (fun r _ ⟨a, ha, hq⟩ =>
    have ⟨b, hb, hi⟩ := hm r a ha
    ⟨b, hb, hi _ hq⟩) h

theorem Answered.grow (h : σ.Answered rs qs) (hw : Table.Within σ.rules σ'.rules) :
    σ'.Answered rs qs :=
  h.mono fun r a ha => ⟨a, hw r a ha, fun _ => id⟩

-- Rules that were added together answer what they were asked for.
theorem answered_new {as : List AuthRule} (hr : σ'.rules = σ.rules ++ as.toArray)
    (ha : List.Forall₂ Answers as qs) :
    σ'.Answered ((List.range as.length).map (σ.rules.size + ·)) qs := by
  refine List.forall₂_iff_get.mpr ⟨by simp [ha.length_eq], fun i hi hq => ?_⟩
  have hi : i < as.length := by simpa using hi
  exact ⟨as[i], by simp [hr, hi], ha.get hi hq⟩

namespace AllAnswered

theorem rules (h : σ.AllAnswered reqs) (hs : σ'.ruleSets = σ.ruleSets)
    (hm : ∀ (r : RuleId) (a : AuthRule),
      σ.rules[r]? = some a → ∃ b, σ'.rules[r]? = some b ∧ ∀ q, a.Answers q → b.Answers q) :
    σ'.AllAnswered reqs where
  size := h.size.trans (congrArg Array.size hs).symm
  sets s rs qs hr hq := (h.sets s rs qs (hs ▸ hr) hq).mono hm

theorem grow (h : σ.AllAnswered reqs) (hs : σ'.ruleSets = σ.ruleSets)
    (hw : Table.Within σ.rules σ'.rules) : σ'.AllAnswered reqs :=
  h.rules hs fun r a ha => ⟨a, hw r a ha, fun _ => id⟩

theorem addRules (h : σ.AllAnswered reqs) {as : List AuthRule} (ha : List.Forall₂ Answers as qs) :
    (σ.applyAll (σ.addRules as)).AllAnswered (reqs.push qs) := by
  rw [applyAll_addRules]
  constructor
  case size => simp [h.size]
  case sets =>
    intro s rs' qs' hr hq
    rcases Table.getElem?_push_cases hr with hr | ⟨rfl, rfl⟩
    case inl =>
      have hs : s ≠ reqs.size := h.size ▸ Nat.ne_of_lt (Array.getElem?_eq_some_iff.mp hr).choose
      have hq := (Table.getElem?_push_cases hq).resolve_right fun e => hs e.left
      exact (h.sets s rs' qs' hr hq).grow Table.within_append
    case inr =>
      rw [← h.size, Array.getElem?_push_size] at hq
      exact Option.some.inj hq ▸ answered_new rfl ha

theorem extend (h : σ.AllAnswered reqs) {a : AuthRule} {q : Option Request} (ha : a.Answers q)
    (s : RuleSetId) :
    (σ.applyAll (σ.extend s a).changes).AllAnswered (reqs.modify s (· ++ [q])) := by
  have old {rs : List RuleId} {qs : List (Option Request)} (h : σ.Answered rs qs) :
      (σ.applyAll (σ.extend s a).changes).Answered rs qs := h.grow Table.within_push
  constructor
  case size =>
    rw [Array.size_modify, h.size]
    exact (Array.size_modify).symm
  case sets =>
    intro t rs' qs' hr hq
    replace hr : (σ.ruleSets.modify s (· ++ [σ.rules.size]))[t]? = some rs' := hr
    rw [Array.getElem?_modify] at hr hq
    split at hr
    case isFalse hs =>
      rw [if_neg hs] at hq
      exact old (h.sets t rs' qs' hr hq)
    case isTrue hs =>
      rw [if_pos hs] at hq
      obtain ⟨rs, hrs, rfl⟩ := Option.map_eq_some_iff.mp hr
      obtain ⟨qs, hqs, rfl⟩ := Option.map_eq_some_iff.mp hq
      exact List.rel_append (old (h.sets t rs qs hrs hqs))
        (.cons ⟨a, Array.getElem?_push_size, ha⟩ .nil)

theorem narrow (h : σ.AllAnswered reqs) (r : RuleId) (o : Operation) :
    (σ.apply (.narrowRule r o)).AllAnswered reqs := by
  refine h.rules rfl fun t a ha => ?_
  rw [apply, Array.getElem?_modify, ha]
  split
  case isTrue => exact ⟨a.narrow o, rfl, fun _ h => h.narrow o⟩
  case isFalse => exact ⟨a, rfl, fun _ => id⟩

theorem script {v : Value} {as : List AuthRule} (h : σ.AllAnswered reqs)
    (hs : σ.checkScript v = .ok as) :
    (σ.applyAll (σ.addRules as)).AllAnswered (σ.scriptRequests reqs v) := by
  obtain ⟨ls, rfl, hm, _⟩ := checkScript_eq_ok.mp hs
  exact h.addRules (answers_of_mapM hm)

theorem preserved {c : Call} {p : Plan} (h : σ.AllAnswered reqs) (hp : σ.plan c = .ok p) :
    (σ.applyAll p.changes).AllAnswered (σ.requests reqs c) := by
  cases c
  case rule =>
    have ⟨_, e⟩ := newRule_eq_ok hp
    exact e ▸ h.grow rfl Table.within_push
  case ruleSet =>
    cases pure_eq_ok.mp hp
    exact h.addRules .nil
  case buildRuleSet =>
    obtain ⟨as, hs, rfl⟩ := buildRuleSet_eq_ok hp
    exact h.script hs
  case auth =>
    have ⟨f, _, hp⟩ := auth_eq_ok hp
    cases hp
    case inl hp =>
      obtain ⟨s, hs, _, rfl⟩ := hp
      obtain ⟨rfl, _⟩ := ruleSet?_eq_some hs
      exact h.grow rfl (Table.within_refl _)
    case inr hp =>
      obtain ⟨as, hs, rfl⟩ := hp
      rw [wrapPlan, applyAll_append]
      exact (h.script hs).grow rfl (Table.within_refl _)
  case allow a =>
    obtain ⟨s, hs, rfl⟩ := allow_eq_ok hp
    obtain ⟨rfl, _⟩ := ruleSet?_eq_some hs
    exact h.extend (.audience a []) s
  case allowGroups =>
    obtain ⟨s, a, hs, ha, rfl⟩ := allowGroups_eq_ok hp
    obtain ⟨rfl, _⟩ := ruleSet?_eq_some hs
    exact h.extend (answers_of_groupRule ha) s
  case narrow o =>
    obtain ⟨r, rfl, rfl⟩ := narrow_eq_ok hp
    exact h.narrow r o
  all_goals
    have ⟨hr, hs⟩ := (step_of_plan hp).rules_still rfl
    exact h.grow hs (hr ▸ Table.within_refl _)

theorem run (h : σ.AllAnswered reqs) (cs : List Call) :
    (σ.run cs).AllAnswered (σ.requestsOf reqs cs) := by
  induction cs generalizing σ reqs
  case nil => exact h
  case cons c cs hi =>
    rw [run_cons, requestsOf]
    cases hp : σ.plan c
    case ok p =>
      rw [perform_of_plan hp]
      exact hi (h.preserved hp)
    case error e =>
      simp only [perform, hp]
      exact hi h

end AllAnswered

-- The rules of a set answer, one by one, what they were asked for.
theorem answers_run (cs : List Call) {s : RuleSetId}
    (hs : (({} : Store).run cs).ruleIds s ≠ []) :
    List.Forall₂ Answers ((({} : Store).run cs).rulesOf s)
      ((({} : Store).requestsOf #[] cs).getD s []) := by
  have start : ({} : Store).AllAnswered #[] := ⟨rfl, fun s rs qs hr => absurd hr (by simp)⟩
  have h := start.run cs
  generalize ({} : Store).run cs = σ at *
  generalize ({} : Store).requestsOf #[] cs = reqs at *
  have hlt := lt_of_ruleIds_ne_nil hs
  have hlt' : s < reqs.size := h.size ▸ hlt
  have ha := h.sets s _ _ (Array.getElem?_eq_getElem hlt) (Array.getElem?_eq_getElem hlt')
  have hr : σ.rulesOf s = σ.ruleSets[s].map σ.rule := by simp [rulesOf, ruleIds, hlt]
  have hq : reqs.getD s [] = reqs[s] := by simp [hlt']
  rw [hr, hq, List.forall₂_map_left_iff]
  refine List.Forall₂.imp (fun r q hr => ?_) ha
  obtain ⟨a, ha, h⟩ := hr
  rwa [show σ.rule r = a by simp [rule, ha]]

end Store

namespace AuthRule

variable {r : AuthRule} {q : Option Request}

-- Names are quoted, so something stands between the brackets if there are any.
theorem groupsText_ne {ts : List String} (h : ts ≠ []) (ref : Ref → String) :
    groupsText ref (some (ts.map .text)) ≠ .ok ["groups: []"] := by
  obtain ⟨t, ts, rfl⟩ := List.exists_cons_of_ne_nil h
  rw [groupsText, Value.jsons_texts]
  intro e
  have ht : "groups: [" ++ ", ".intercalate ((t :: ts).map quote) ++ "]" = "groups: []" :=
    (List.cons.inj (Except.ok.inj e)).left
  replace ht := congrArg String.toList ht
  cases ts <;> simp [quote] at ht

theorem effective_iff (h : r.Answers q) : r.Effective q ↔ ∀ g, q = some g → g.argument.lasts := by
  cases h
  case audience a os =>
    refine iff_of_true ⟨fun h => ?_, fun _ => nofun⟩ nofun
    cases a <;> exact nomatch Value.text.inj h
  case kept g hl hn hs os =>
    refine iff_of_true ⟨fun _ => ⟨g, rfl, rfl, hn, hs⟩, fun ref => ?_⟩
      fun _ e => Option.some.inj e ▸ hl
    have ⟨ts, e⟩ := exists_texts hs
    rw [e] at hn ⊢
    exact groupsText_ne (by simpa using hn) ref
  case lost g hl os =>
    refine iff_of_false (fun h => ?_) fun h => ?_
    · have ⟨g', _, hg, hn, _⟩ := h.groups rfl
      exact hn (Option.some.inj hg).symm
    · exact nomatch hl.symm.trans (h g rfl)

theorem forall₂_effective_iff {rs : List AuthRule} {qs : List (Option Request)}
    (h : List.Forall₂ Answers rs qs) :
    List.Forall₂ Effective rs qs ↔ ∀ g, some g ∈ qs → g.argument.lasts := by
  induction h
  case nil => simp
  case cons r q rs qs hr _ hi =>
    rw [List.forall₂_cons, effective_iff hr, hi]
    simp only [List.mem_cons, or_imp, forall_and, @eq_comm _ q]

end AuthRule

namespace Store

-- Every set of rules that a field holds has rules; and all of them are for just the groups that
-- they were asked for, exactly if the groups were given by something that lasts. A class has members
-- that are no texts here, so it gives no groups.
theorem effective_run_iff (cs : List Call) {n : FieldId} {f : Field}
    (hf : (({} : Store).run cs).fields[n]? = some f) {s : RuleSetId}
    (hs : .auth s ∈ f.directives) :
    let rules := (({} : Store).run cs).rulesOf s
    let requests := (({} : Store).requestsOf #[] cs).getD s []
    rules ≠ [] ∧ (List.Forall₂ AuthRule.Effective rules requests ↔
      ∀ g, some g ∈ requests → g.argument.lasts) := by
  intro rules requests
  have hne : (({} : Store).run cs).ruleIds s ≠ [] := (rooted_run cs).held n f hf s hs
  exact ⟨fun e => hne (List.map_eq_nil_iff.mp e),
    AuthRule.forall₂_effective_iff (answers_run cs hne)⟩

-- A set that two fields share, asked for groups and narrowed later.
def admins (groups : Value) : List Call :=
  [.leaf (.scalar .string) (.bool false), .ruleSet, .allow (.ruleSet 0) .owner,
    .allowGroups (.ruleSet 0) groups, .auth (.field 0) (.ruleSet 0), .unique (.field 0) .null,
    .auth (.field 2) (.ruleSet 0), .narrow (.object (.rule 1)) .read]

theorem effective_run_admins :
    (({} : Store).run (admins (.list [.text "admin"]))).fields[3]? =
      some ⟨0, 0, some 2, [.auth 0, .unique []]⟩ ∧
    List.Forall₂ AuthRule.Effective
      [.of .owner, ⟨.text "groups", some [.text "admin"], [.read]⟩]
      [none, some ⟨.list [.text "admin"], [.text "admin"]⟩] := by
  refine ⟨rfl, (effective_run_iff (admins (.list [.text "admin"])) (n := 3) rfl
    List.mem_cons_self).right.mpr fun g hg => ?_⟩
  have hg : some g ∈ [none, some (⟨.list [.text "admin"], [.text "admin"]⟩ : Request)] := hg
  cases List.mem_cons.mp hg
  case inl e => exact nomatch e
  case inr hg =>
    cases List.mem_singleton.mp hg
    rfl

-- Groups that are taken from an iterator are all lost.
theorem not_effective_run : ¬ ∀ (cs : List Call) (n : FieldId) (f : Field),
    (({} : Store).run cs).fields[n]? = some f → ∀ s, .auth s ∈ f.directives →
      List.Forall₂ AuthRule.Effective ((({} : Store).run cs).rulesOf s)
        ((({} : Store).requestsOf #[] cs).getD s []) := by
  intro h
  have h : List.Forall₂ AuthRule.Effective
      [.of .owner, ⟨.text "groups", some [], [.read]⟩]
      [none, some ⟨.stream [.text "admin"], [.text "admin"]⟩] :=
    h (admins (.stream [.text "admin"])) 3 _ rfl 0 List.mem_cons_self
  have ⟨g, hg, hn, _⟩ := (h.get (i := 1) (by decide) (by decide)).groups rfl
  cases hg
  exact nomatch hn

end Store

end GraphSchema
