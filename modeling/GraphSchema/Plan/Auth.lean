import GraphSchema.Plan.Basic

namespace GraphSchema.Store

def isGroupName : Value → Bool
  | .text s => s != ""
  | _ => false

def groupRule (σ : Store) (groups : Value) : Except Error AuthRule :=
  if groups.text?.isSome || ! σ.isTrue groups then groups.refuse σ.display .noGroups
  else do
    let names ← σ.items groups.front
    match names.find? (! isGroupName ·) with
    | some v => v.refuse σ.display .groupName
    | none => return .ofGroups (groups.rest names)

def lineRule (σ : Store) (l : RuleLine) : Except Error AuthRule :=
  match Audience.ofName? l.kind, l.args with
  | some a, [] => .ok (.of a)
  | some a, args => .error (.type (.tooMany ("AuthRules." ++ a.name) 1 1 (args.length + 1)))
  | none, args =>
    if l.kind = "groups" then
      match args with
      | [v] => σ.groupRule v
      | [] => .error (.type (.missing "AuthRules.groups" ["groups"]))
      | args => .error (.type (.tooMany "AuthRules.groups" 2 2 (args.length + 1)))
    else .error (.noProperty "AuthRules" l.kind)

def narrowBy (r : AuthRule) (operation : String) : Except Error AuthRule :=
  match Operation.ofName? operation with
  | some o => .ok (r.narrow o)
  | none => .error (.noProperty "AuthRule" operation)

def scriptRule (σ : Store) (l : RuleLine) : Except Error AuthRule := do
  l.operations.foldlM narrowBy (← σ.lineRule l)

-- A class is called to find the member that is worth a value. No member is worth a new rule set.
def classFault (name : String) (members : List (String × String × Value)) : Error :=
  if members.isEmpty then .type (.noMembers ("<enum '" ++ name ++ "'>"))
  else .value (.notAMember "<AuthRules object at ID>" name)

-- The rules that a script makes, of which there must be one. A printer can be called like a
-- script, but makes none, and a class does not take a rule set.
def checkScript (σ : Store) (v : Value) : Except Error (List AuthRule) :=
  match v with
  | .script lines => do
    match ← lines.mapM σ.scriptRule with
    | [] => Misuse.noRules.refusal
    | rs => return rs
  | .object (.printer _) => Misuse.noRules.refusal
  | .enumClass _ name members => .error (classFault name members)
  | v => v.refuse σ.display .notCallable

def addRules (σ : Store) (rs : List AuthRule) : List Change :=
  rs.map .addRule ++ [.addRuleSet ((List.range rs.length).map (σ.rules.size + ·))]

def newRule (σ : Store) (allow groups : Value) : Decision := do
  let gs ← if groups.isNull then pure none else some <$> σ.listed groups
  return ⟨[.addRule ⟨allow, gs, []⟩], .object (.rule σ.rules.size)⟩

def newRuleSet (σ : Store) : Plan := ⟨σ.addRules [], .ruleSet σ.ruleSets.size⟩

def buildRuleSet (σ : Store) (script : Value) : Decision := do
  return ⟨σ.addRules (← σ.checkScript script), .ruleSet σ.ruleSets.size⟩

def extend (σ : Store) (s : RuleSetId) (r : AuthRule) : Plan :=
  ⟨[.addRule r, .extendRuleSet s σ.rules.size], .object (.rule σ.rules.size)⟩

def allow (σ : Store) (set : Value) (a : Audience) : Decision :=
  match σ.ruleSet? set with
  | some s => return σ.extend s (.of a)
  | none => σ.lacks set a.name

def allowGroups (σ : Store) (set groups : Value) : Decision :=
  match σ.ruleSet? set with
  | some s => return σ.extend s (← σ.groupRule groups)
  | none => σ.lacks set "groups"

def narrow (σ : Store) (rule : Value) (o : Operation) : Decision :=
  match rule with
  | .object (.rule r) => return ⟨[.narrowRule r o], rule⟩
  | v => σ.lacks v o.name

end GraphSchema.Store
