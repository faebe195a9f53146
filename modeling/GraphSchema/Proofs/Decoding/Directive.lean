import GraphSchema.Proofs.Auth.Worded
import GraphSchema.Proofs.Decoding.Literal

namespace GraphSchema

open Decoding

variable {r s : List Char}

-- Words of letters.

namespace Decoding

-- A number behind the name of an argument.
def numbered (a : String × Nat) : String := a.1 ++ ": " ++ toString a.2

end Decoding

-- Rules.

namespace AuthRule

def narrowing : List Operation → List Char
  | [] => " \x7d".toList
  | os =>
    ", operations: [".toList ++ ((", ".intercalate (os.map (·.name))).toList ++ "] \x7d".toList)

theorem wording_audience (a : Audience) (os : List Operation) :
    (AuthRule.mk (.text a.name) none os).wording.toList =
      "\x7b allow: ".toList ++ (a.name.toList ++ narrowing os) := by
  cases os <;> simp [wording, operationsText, narrowing, Value.text?, String.intercalate_cons_cons]

theorem wording_groups (ts : List String) (os : List Operation) :
    (AuthRule.mk (.text "groups") (some (ts.map .text)) os).wording.toList =
      "\x7b allow: ".toList ++ ("groups".toList ++ (", groups: [".toList ++
        ((", ".intercalate (ts.map quote)).toList ++ ']' :: narrowing os))) := by
  cases os <;>
    simp [wording, operationsText, narrowing, Value.text?, String.intercalate_cons_cons, quoteList,
      Function.comp_def]

end AuthRule

-- Directives.

-- What a directive says, whatever the objects are numbered that it holds.
inductive Content
  | length (min max : Option Nat)
  | unique (scope : List String)
  | default (literal : String)
  | search
  | auth (rules : List AuthRule)
  -- Not to serve what is stale is to serve it for no time.
  | cache (maxAge staleWhileRevalidate : Nat)

namespace Content

def kind : Content → NodeKind
  | length .. => .length
  | unique _ => .unique
  | default _ => .default
  | search => .search
  | auth _ => .auth
  | cache .. => .cache

def bounds (min max : Option Nat) : List (String × Nat) :=
  (min.map ("min", ·)).toList ++ (max.map ("max", ·)).toList

def times (maxAge stale : Nat) : List (String × Nat) :=
  ("maxAge", maxAge) :: if stale = 0 then [] else [("staleWhileRevalidate", stale)]

def enclose (opening closing t : String) : String := opening ++ t ++ closing

def text : Content → String
  | length min max => enclose "@length(" ")" (", ".intercalate ((bounds min max).map numbered))
  | unique [] => "@unique"
  | unique scope => enclose "@unique(fields: [" "])" (", ".intercalate (scope.map quote))
  | default t => enclose "@default(value: " ")" t
  | search => "@search"
  | auth rules => enclose "@auth(rules: [" "])" (", ".intercalate (rules.map (·.wording)))
  | cache age stale => enclose "@cache(" ")" (", ".intercalate ((times age stale).map numbered))

-- What is known of the contents of the directives of a field.
inductive Told : Content → Prop
  | length {min max} : Told (length min max)
  | unique {scope} : Told (unique scope)
  | default {t} (closed : Closed t.toList) : Told (default t)
  | search : Told search
  | auth {rules} (granted : ∀ r ∈ rules, r.Granted) : Told (auth rules)
  | cache {age stale} : Told (cache age stale)

-- The letter behind the sign tells the kind.
def letter : NodeKind → Char
  | .scalar => ' '
  | .length => 'l'
  | .unique => 'u'
  | .default => 'd'
  | .search => 's'
  | .auth => 'a'
  | .cache => 'c'

-- A field goes on with a blank behind a directive.
def Ends (r : List Char) : Prop := ∀ c ∈ r.head?, c = ' '

end Content

end GraphSchema
