import GraphSchema.Proofs.Constant.Token

namespace GraphSchema

namespace Constant

-- The constant that a lone name is.
def ofName (s : String) : Constant :=
  if s = "null" then null
  else if s = "true" then bool true
  else if s = "false" then bool false
  else enum s

end Constant

mutual

inductive Derives : List Token → Constant → Prop
  | name {s} : Derives [.name s] (.ofName s)
  | number {q} : Derives [.number q] (.number q)
  | text {s} : Derives [.text s] (.text s)
  | list {ts cs} : DerivesItems ts cs → Derives (.listOpen :: (ts ++ [.listClose])) (.list cs)
  | object {ts fs} : DerivesFields ts fs →
    Derives (.objectOpen :: (ts ++ [.objectClose])) (.object fs)

inductive DerivesItems : List Token → List Constant → Prop
  | nil : DerivesItems [] []
  | cons {ts us c cs} : Derives ts c → DerivesItems us cs → DerivesItems (ts ++ us) (c :: cs)

inductive DerivesFields : List Token → List (String × Constant) → Prop
  | nil : DerivesFields [] []
  | cons {k ts us c fs} : Derives ts c → DerivesFields us fs →
    DerivesFields (.name k :: .colon :: (ts ++ us)) ((k, c) :: fs)

end

theorem DerivesItems.snoc {ts us : List Token} {cs : List Constant} {c : Constant} :
    DerivesItems ts cs → Derives us c → DerivesItems (ts ++ us) (cs ++ [c])
  | .nil, h => by simpa using DerivesItems.cons h .nil
  | .cons hd hs, h => by simpa using DerivesItems.cons hd (hs.snoc h)

theorem DerivesFields.snoc {ts us : List Token} {fs : List (String × Constant)} {k : String}
    {c : Constant} :
    DerivesFields ts fs → Derives us c →
    DerivesFields (ts ++ .name k :: .colon :: us) (fs ++ [(k, c)])
  | .nil, h => by simpa using DerivesFields.cons h .nil
  | .cons hd hs, h => by simpa using DerivesFields.cons hd (hs.snoc h)

namespace Parser

-- An open list or object in which a constant is to come, with what is in it already.
inductive Frame
  | list (items : List Constant)
  | object (fields : List (String × Constant)) (key : String)

-- What the words read so far leave to come.
inductive State
  -- A constant, or the end of the innermost list.
  | constant (open_ : List Frame)
  -- A key, or the end of the object.
  | key (open_ : List Frame) (fields : List (String × Constant))
  | colon (open_ : List Frame) (fields : List (String × Constant)) (key : String)
  | done (c : Constant)

-- A constant takes its place in the innermost list or object.
def State.complete (c : Constant) : List Frame → State
  | [] => done c
  | .list cs :: open_ => constant (.list (cs ++ [c]) :: open_)
  | .object fs k :: open_ => key open_ (fs ++ [(k, c)])

def step : State → Token → Option State
  | .constant fr, .name s => some (.complete (.ofName s) fr)
  | .constant fr, .number q => some (.complete (.number q) fr)
  | .constant fr, .text s => some (.complete (.text s) fr)
  | .constant fr, .listOpen => some (.constant (.list [] :: fr))
  | .constant (.list cs :: fr), .listClose => some (.complete (.list cs) fr)
  | .constant fr, .objectOpen => some (.key fr [])
  | .key fr fs, .name k => some (.colon fr fs k)
  | .key fr fs, .objectClose => some (.complete (.object fs) fr)
  | .colon fr fs k, .colon => some (.constant (.object fs k :: fr))
  | _, _ => none

def constant? (ts : List Token) : Option Constant := do
  match ← ts.foldlM step (.constant []) with
  | .done c => some c
  | _ => none

-- What is derived is read, whatever is open.

mutual

theorem foldlM_of_derives {ts : List Token} {c : Constant} : Derives ts c →
    ∀ fr, ts.foldlM step (.constant fr) = some (.complete c fr)
  | .name | .number | .text => fun _ => rfl
  | .list h => fun fr => by
    simp [step, List.foldlM_append, foldlM_of_derivesItems h]
  | .object h => fun fr => by
    simp [step, List.foldlM_append, foldlM_of_derivesFields h]

theorem foldlM_of_derivesItems {ts : List Token} {cs : List Constant} : DerivesItems ts cs →
    ∀ ds fr, ts.foldlM step (.constant (.list ds :: fr)) = some (.constant (.list (ds ++ cs) :: fr))
  | .nil => fun ds fr => by simp
  | .cons h hs => fun ds fr => by
    simp [List.foldlM_append, foldlM_of_derives h, State.complete, foldlM_of_derivesItems hs]

theorem foldlM_of_derivesFields {ts : List Token} {fs : List (String × Constant)} :
    DerivesFields ts fs → ∀ gs fr, ts.foldlM step (.key fr gs) = some (.key fr (gs ++ fs))
  | .nil => fun gs fr => by simp
  | .cons h hs => fun gs fr => by
    simp [step, List.foldlM_append, foldlM_of_derives h, State.complete,
      foldlM_of_derivesFields hs]

end

-- The words that have led to a state.

inductive Opens : List Token → List Frame → Prop
  | nil : Opens [] []
  | list {ts us fr cs} : Opens ts fr → DerivesItems us cs →
    Opens (ts ++ .listOpen :: us) (.list cs :: fr)
  | object {ts us fr fs k} : Opens ts fr → DerivesFields us fs →
    Opens (ts ++ .objectOpen :: (us ++ [.name k, .colon])) (.object fs k :: fr)

inductive Leads : List Token → State → Prop
  | constant {ts fr} : Opens ts fr → Leads ts (.constant fr)
  | key {ts us fr fs} : Opens ts fr → DerivesFields us fs →
    Leads (ts ++ .objectOpen :: us) (.key fr fs)
  | colon {ts us fr fs k} : Opens ts fr → DerivesFields us fs →
    Leads (ts ++ .objectOpen :: (us ++ [.name k])) (.colon fr fs k)
  | done {ts c} : Derives ts c → Leads ts (.done c)

variable {ts us : List Token} {t : Token} {s s' : State} {c : Constant} {fr : List Frame}

theorem Opens.complete (ho : Opens ts fr) (hd : Derives us c) :
    Leads (ts ++ us) (.complete c fr) := by
  cases ho
  case nil => exact .done hd
  case list ho hs => simpa [State.complete] using Leads.constant (ho.list (hs.snoc hd))
  case object ho hs => simpa [State.complete] using Leads.key ho (hs.snoc hd)

theorem Leads.step (hl : Leads ts s) (h : step s t = some s') : Leads (ts ++ [t]) s' := by
  cases hl
  case constant ho =>
    cases t <;> simp only [Parser.step, Option.some.injEq, reduceCtorEq] at h
    case name => exact h ▸ ho.complete .name
    case number => exact h ▸ ho.complete .number
    case text => exact h ▸ ho.complete .text
    case listOpen => exact h ▸ .constant (ho.list .nil)
    case objectOpen => exact h ▸ .key ho .nil
    case listClose =>
      cases ho <;> simp only [Option.some.injEq, reduceCtorEq] at h
      case list ho hs => simpa [← h] using ho.complete (.list hs)
  case key ho hs =>
    cases t <;> simp only [Parser.step, Option.some.injEq, reduceCtorEq] at h
    case name k => simpa [← h] using Leads.colon (k := k) ho hs
    case objectClose => simpa [← h] using ho.complete (.object hs)
  case colon ho hs =>
    cases t <;> simp only [Parser.step, Option.some.injEq, reduceCtorEq] at h
    case colon => simpa [← h] using Leads.constant (ho.object hs)
  case done => exact nomatch h

theorem Leads.foldlM (hl : Leads ts s) (h : us.foldlM Parser.step s = some s') :
    Leads (ts ++ us) s' := by
  induction us generalizing ts s
  case nil =>
    cases h
    simpa using hl
  case cons t us hi =>
    rw [List.foldlM_cons] at h
    have ⟨_, hs, h⟩ := Option.bind_eq_some_iff.mp h
    simpa using hi (hl.step hs) h

theorem constant?_eq_some_iff : constant? ts = some c ↔ Derives ts c := by
  constructor
  case mpr =>
    intro h
    simp [constant?, foldlM_of_derives h, State.complete]
  case mp =>
    intro h
    have ⟨s, hs, h⟩ := Option.bind_eq_some_iff.mp h
    split at h
    case h_1 =>
      cases h
      have hl := (Leads.constant .nil).foldlM hs
      cases hl
      case done hd => simpa using hd
    case h_2 => exact nomatch h

end Parser

-- The texts of a constant: the words in them derive it.
def Constant.Writes (cs : List Char) (c : Constant) : Prop :=
  ∃ ts, tokens? cs = some ts ∧ Derives ts c

def Constant.parse? (s : String) : Option Constant := do
  Parser.constant? (← tokens? s.toList)

theorem Constant.parse?_eq_some_iff {s : String} {c : Constant} :
    parse? s = some c ↔ Writes s.toList c := by
  simp [parse?, Writes, Option.bind_eq_some_iff, Parser.constant?_eq_some_iff]

end GraphSchema
