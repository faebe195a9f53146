import GraphSchema.Proofs.Auth.Granted

namespace GraphSchema

open Outcome

namespace AuthRule

structure Worded (r : AuthRule) : Prop where
  allow : ∃ t, r.allow = .text t
  groups : ∀ gs, r.groups = some gs → ∃ ts : List String, gs = ts.map .text

variable {r : AuthRule}

theorem Granted.worded (h : r.Granted) : r.Worded := by
  cases h
  case audience => exact ⟨⟨_, rfl⟩, nofun⟩
  case groups ts _ => exact ⟨⟨_, rfl⟩, fun gs h => ⟨ts, (Option.some.inj h).symm⟩⟩

theorem map_plain_texts (ts : List String) :
    (ts.map Value.text).map (fun v => v.text?.getD "") = ts := by
  simp [Value.text?, Function.comp_def]

-- The text of a rule that is made of texts only.
def wording (r : AuthRule) : String :=
  let plain (v : Value) : String := v.text?.getD ""
  let groups := r.groups.map fun gs => "groups: " ++ quoteList (gs.map plain)
  "\x7b " ++ ", ".intercalate
    (("allow: " ++ plain r.allow) :: groups.toList ++ operationsText r.operations) ++ " \x7d"

-- Nothing else is left to how references read, and to what the lists of objects hold.
theorem Worded.text_settle (h : r.Worded) (own : Ref → Option (List Value))
    (typeName : Ref → String) (reading : Value.Reading) :
    (r.settle own).text typeName reading = .ok r.wording := by
  obtain ⟨allow, groups, operations⟩ := r
  obtain ⟨⟨t, rfl⟩, hg⟩ := h
  cases groups
  case none => rfl
  case some gs =>
    obtain ⟨ts, rfl⟩ := hg gs rfl
    have hs : Value.settleAll own (ts.map .text) = ts.map .text := by
      simp [Value.settleAll_eq_map]
    simp only [settle, Option.map_some, hs, text, groupsText, Value.jsons_texts, wording,
      map_plain_texts, quoteList]
    rfl

end AuthRule

namespace Store

open AuthRule (Worded)

def AllWorded (σ : Store) : Prop := σ.AllRules Worded

variable {σ : Store}

theorem allWorded_run (cs : List Call) : (({} : Store).run cs).AllWorded :=
  (allGranted_run cs).imp fun _ => AuthRule.Granted.worded

theorem rulesText_eq_of_worded {rs : List AuthRule} (h : ∀ r ∈ rs, Worded r) :
    σ.rulesText rs = .ok ("[" ++ ", ".intercalate (rs.map (·.wording)) ++ "]") := by
  have hm : rs.mapM (σ.ruleText σ.names) = .ok (rs.map (·.wording)) :=
    mapM_eq_ok_map fun a ha => (h a ha).text_settle _ _ _
  exact bind_eq_ok.mpr ⟨_, hm, rfl⟩

theorem AllWorded.rulesText_eq (h : σ.AllWorded) (s : RuleSetId) :
    σ.rulesText (σ.rulesOf s) =
      .ok ("[" ++ ", ".intercalate ((σ.rulesOf s).map (·.wording)) ++ "]") :=
  rulesText_eq_of_worded fun _ => h.of_mem

theorem AllWorded.succeeds_rulesText (h : σ.AllWorded) (s : RuleSetId) :
    Succeeds (σ.rulesText (σ.rulesOf s)) := ⟨_, h.rulesText_eq s⟩

end Store

end GraphSchema
