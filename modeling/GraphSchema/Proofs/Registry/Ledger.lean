import Mathlib.Data.List.Nodup
import GraphSchema.Proofs.Step.Registry

namespace GraphSchema

open Outcome

-- One call of a run on a registry: it puts in a definition, empties it, or is about other things.
inductive Entry
  | register (k : DefinitionKind) (v : Value)
  | clear
  | other (c : Call)

namespace Entry

def call (r : RegistryId) : Entry → Call
  | register k v => .register (.object (.registry r)) k v
  | clear => .clear (.object (.registry r))
  | other c => c

-- Whatever definition is to be registered has been made, and calls about other things register
-- nothing elsewhere either, unless they are refused.
def Proper (σ : Store) : Entry → Prop
  | register _ v => ∀ d, v = .definition d → (σ.name? d).isSome
  | clear => True
  | other c => c.registers = false ∨ ¬ Succeeds (σ.plan c)

end Entry

-- What a registry holds, and the lines of the log.
structure Ledger where
  held : List Definition
  lines : List String
  deriving DecidableEq

namespace Ledger

def register (l : Ledger) (d : Definition) (name : String) : Ledger where
  held := l.held ++ [d]
  lines := l.lines ++ ["Registered " ++ d.typeName ++ " " ++ name]

def clear (l : Ledger) : Ledger where
  held := []
  lines := l.lines ++ ["Clearing " ++ toString l.held.length ++ " definition(s)"]

def enter (σ : Store) (l : Ledger) : Entry → Ledger
  | .register _ (.object (.definition d)) => l.register d (σ.nameOf d)
  | .clear => l.clear
  | _ => l

-- The ledger after one call on the registry: a refused call is not noted.
def note (r : RegistryId) (σ : Store) (l : Ledger) (e : Entry) : Ledger :=
  match (σ.perform (e.call r)).1 with
  | .ok _ => l.enter σ e
  | .error _ => l

def notes (r : RegistryId) (σ : Store) (l : Ledger) : List Entry → Ledger
  | [] => l
  | e :: es => notes r (σ.perform (e.call r)).2 (l.note r σ e) es

def names (σ : Store) (l : Ledger) : List String := l.held.map σ.nameOf

end Ledger

namespace Store

def Proper (r : RegistryId) (σ : Store) : List Entry → Prop
  | [] => True
  | e :: es => e.Proper σ ∧ Proper r (σ.perform (e.call r)).2 es

-- Everything that can be learned about a registry is as the ledger says.
structure Shows (σ : Store) (r : RegistryId) (l : Ledger) : Prop where
  definitions : (σ.perform (.definitions (.object (.registry r)))).1 =
    .ok (.list (l.held.map .definition))
  items : (σ.perform (.items (.object (.registry r)))).1 = .ok (.list (l.held.map .definition))
  distinct : (l.names σ).Nodup
  size : (σ.perform (.size (.object (.registry r)))).1 =
    if l.held.length < indexLimit then .ok (.int l.held.length)
    else .error (.arithmetic .tooLong)
  contains : ∀ n, (σ.perform (.contains (.object (.registry r)) (.text n))).1 =
    .ok (.bool (n ∈ l.names σ))
  get : ∀ d ∈ l.held, (σ.perform (.get (.object (.registry r)) (.text (σ.nameOf d)))).1 =
    .ok (.definition d)
  unknown : ∀ n, n ∉ l.names σ →
    (σ.perform (.get (.object (.registry r)) (.text n))).1 = .error (.unknown n)
  -- A definition of the right kind is accepted if its name is free, and refused otherwise.
  accepted : ∀ d, σ.nameOf d ∉ l.names σ →
    (σ.perform (.register (.object (.registry r)) d.kind (.definition d))).1 = .ok (.definition d)
  taken : ∀ d, σ.nameOf d ∈ l.names σ →
    (σ.perform (.register (.object (.registry r)) d.kind (.definition d))).1 =
      .error (.duplicate (σ.nameOf d))
  -- Nothing else is accepted.
  wrongKind : ∀ k d, d.kind ≠ k →
    (σ.perform (.register (.object (.registry r)) k (.definition d))).1 =
      .error (.misuse (.wrongKind k.typeName (σ.definitionDisplay d)))
  notDefinition : ∀ k v, v.definition? = none →
    (σ.perform (.register (.object (.registry r)) k v)).1 =
      v.refuse σ.display (.wrongKind k.typeName)
  log : σ.log.map Record.text = l.lines

-- The part of it that each call keeps up.
structure Mirrors (σ : Store) (r : RegistryId) (l : Ledger) : Prop where
  made : r < σ.registries.size
  registry : σ.registry r = l.held.map fun d => (σ.nameOf d, d)
  distinct : (l.names σ).Nodup
  named : ∀ d ∈ l.held, (σ.name? d).isSome
  log : σ.log.map Record.text = l.lines

variable {σ : Store} {r : RegistryId} {l : Ledger} {e : Entry} {es : List Entry}

namespace Mirrors

theorem registry? (h : σ.Mirrors r l) : σ.registry? (.object (.registry r)) = some r :=
  if_pos h.made

theorem names_eq (h : σ.Mirrors r l) : (σ.registry r).names = l.names σ := by
  simp [Registry.names, Ledger.names, h.registry]

theorem definitions_eq (h : σ.Mirrors r l) : σ.definitions r = l.held := by
  simp [Store.definitions, h.registry, Function.comp_def]

theorem items? (h : σ.Mirrors r l) :
    σ.items? (.object (.registry r)) = some (l.held.map .definition) := by
  rw [← h.definitions_eq]
  rfl

theorem get?_eq_none (h : σ.Mirrors r l) {n : String} (hn : n ∉ l.names σ) :
    (σ.registry r).get? n = none := by
  refine Option.map_eq_none_iff.mpr (List.find?_eq_none.mpr fun p hp e => hn ?_)
  rw [← h.names_eq, ← eq_of_beq e]
  exact List.mem_map_of_mem hp

-- No two definitions have one name, so the first that is found is the one.
theorem get?_eq_some (h : σ.Mirrors r l) {d : Definition} (hd : d ∈ l.held) :
    (σ.registry r).get? (σ.nameOf d) = some d := by
  cases hf : (σ.registry r).find? (·.1 == σ.nameOf d)
  case none =>
    have hp : (σ.nameOf d, d) ∈ σ.registry r := h.registry ▸ List.mem_map_of_mem hd
    exact absurd (beq_self_eq_true _) (List.find?_eq_none.mp hf _ hp)
  case some p =>
    have ⟨d', hd', e⟩ := List.mem_map.mp (h.registry ▸ List.mem_of_find?_eq_some hf)
    have hn : σ.nameOf d' = σ.nameOf d := by simpa [← e] using List.find?_some hf
    have e' : d' = d := List.inj_on_of_nodup_map h.distinct hd' hd hn
    rw [Registry.get?, hf, ← e, e']
    rfl

theorem plan_definitions (h : σ.Mirrors r l) :
    σ.plan (.definitions (.object (.registry r))) =
      .ok (.say (.list (l.held.map .definition))) := by
  rw [← h.definitions_eq]
  simp only [plan, definitionsOf, registryOf?, h.registry?, Option.some_or]
  rfl

theorem plan_items (h : σ.Mirrors r l) :
    σ.plan (.items (.object (.registry r))) = .ok (.say (.list (l.held.map .definition))) := by
  simp only [plan, itemsOf, listed, Store.items, h.items?]
  rfl

theorem plan_size (h : σ.Mirrors r l) : σ.plan (.size (.object (.registry r))) =
    if l.held.length < indexLimit then .ok (.say (.int l.held.length))
    else .error (.arithmetic .tooLong) := by
  simp only [plan, sizeOf, size?, h.items?, Option.map_some, List.length_map]
  rfl

theorem plan_contains (h : σ.Mirrors r l) (n : String) :
    σ.plan (.contains (.object (.registry r)) (.text n)) = .ok (.say (.bool (n ∈ l.names σ))) := by
  rw [← h.names_eq]
  rfl

theorem plan_get (h : σ.Mirrors r l) {d : Definition} (hd : d ∈ l.held) :
    σ.plan (.get (.object (.registry r)) (.text (σ.nameOf d))) = .ok (.say (.definition d)) := by
  have hf : σ.find r (.text (σ.nameOf d)) = .ok d := by
    simp only [find, Value.text?, Option.bind_some, h.get?_eq_some hd]
    rfl
  simp only [plan, Store.get, h.registry?, hf]
  rfl

theorem plan_get_unknown (h : σ.Mirrors r l) {n : String} (hn : n ∉ l.names σ) :
    σ.plan (.get (.object (.registry r)) (.text n)) = .error (.unknown n) := by
  have hf : σ.find r (.text n) = .error (.unknown n) := by
    simp only [find, Value.text?, Option.bind_some, h.get?_eq_none hn]
    rfl
  simp only [plan, Store.get, h.registry?, hf]
  rfl

theorem plan_register (h : σ.Mirrors r l) (d : Definition) :
    σ.plan (.register (.object (.registry r)) d.kind (.definition d)) =
      σ.enter r [] (σ.nameOf d) d := by
  simp [plan, Store.register, h.registry?]

theorem plan_register_notDefinition (h : σ.Mirrors r l) (k : DefinitionKind) {v : Value}
    (hv : v.definition? = none) : σ.plan (.register (.object (.registry r)) k v) =
      v.refuse σ.display (.wrongKind k.typeName) := by
  simp only [plan, Store.register, h.registry?]
  split
  case h_1 => cases hv
  case h_2 => rfl

theorem shows (h : σ.Mirrors r l) : σ.Shows r l where
  definitions := answer_of_plan h.plan_definitions
  items := answer_of_plan h.plan_items
  distinct := h.distinct
  size := by
    have e := h.plan_size
    split at e
    case isTrue hn => rw [if_pos hn, answer_of_plan e, Plan.say]
    case isFalse hn => rw [if_neg hn, answer_of_refusal e]
  contains n := answer_of_plan (h.plan_contains n)
  get d hd := answer_of_plan (h.plan_get hd)
  unknown n hn := answer_of_refusal (h.plan_get_unknown hn)
  accepted d hd :=
    answer_of_plan ((h.plan_register d).trans (enter_eq_ok.mpr ⟨h.names_eq ▸ hd, rfl⟩))
  taken d hd :=
    answer_of_refusal ((h.plan_register d).trans (if_pos (h.names_eq ▸ hd)))
  wrongKind k d hk := by
    apply answer_of_refusal
    simp only [plan, Store.register, h.registry?, hk, if_false]
    rfl
  notDefinition k v hv := by
    have e := h.plan_register_notDefinition k hv
    cases hd : σ.display v
    case ok t =>
      rw [Value.refuse, hd] at e ⊢
      exact answer_of_refusal e
    case error x =>
      rw [Value.refuse, hd] at e ⊢
      exact answer_of_refusal e
  log := h.log

end Mirrors

-- Definitions keep their names, so it is enough to look at the names before the step.
theorem Mirrors.of_step {c : Call} {cs : List Change} (s : Step σ c cs)
    (made : r < (σ.applyAll cs).registries.size)
    (registry : (σ.applyAll cs).registry r = l.held.map fun d => (σ.nameOf d, d))
    (distinct : (l.names σ).Nodup) (named : ∀ d ∈ l.held, (σ.name? d).isSome)
    (log : (σ.applyAll cs).log.map Record.text = l.lines) : (σ.applyAll cs).Mirrors r l := by
  have kept : ∀ d ∈ l.held, (σ.applyAll cs).nameOf d = σ.nameOf d :=
    fun d hd => (s.nameOf_eq (named d hd)).right
  constructor
  case made => exact made
  case registry => exact registry.trans (List.map_congr_left fun d hd => by rw [kept d hd])
  case distinct => rwa [Ledger.names, List.map_congr_left kept]
  case named => exact fun d hd => (s.nameOf_eq (named d hd)).left
  case log => exact log

theorem Mirrors.registered (h : σ.Mirrors r l) {c : Call} {d : Definition}
    (s : Step σ c [.register r (σ.nameOf d) d]) (hn : (σ.name? d).isSome)
    (free : σ.nameOf d ∉ l.names σ) :
    (σ.applyAll [.register r (σ.nameOf d) d]).Mirrors r (l.register d (σ.nameOf d)) := by
  apply Mirrors.of_step s
  case made => simpa [apply] using h.made
  case registry =>
    rw [registry_of_modify (g := (· ++ [(σ.nameOf d, d)])) rfl h.made, h.registry,
      Ledger.register, List.map_append]
    rfl
  case distinct =>
    rw [Ledger.names, Ledger.register, List.map_append]
    exact List.nodup_append.mpr ⟨h.distinct, by simp, by simpa [Ledger.names] using free⟩
  case named =>
    exact List.forall_mem_append.mpr ⟨h.named, List.forall_mem_singleton.mpr hn⟩
  case log => simp [apply, h.log, Ledger.register, Record.text]

theorem Mirrors.cleared (h : σ.Mirrors r l) {c : Call} (s : Step σ c [.clear r]) :
    (σ.applyAll [.clear r]).Mirrors r l.clear := by
  have hl : (σ.registry r).length = l.held.length := by simp [h.registry]
  apply Mirrors.of_step s
  case made => simpa [apply] using h.made
  case registry => exact registry_of_modify (g := fun _ => []) rfl h.made
  case distinct => exact List.nodup_nil
  case named => exact List.forall_mem_nil _
  case log => simp [apply, h.log, Ledger.clear, Record.text, ← hl, Store.registry]

-- A call about other things.
theorem Mirrors.kept (h : σ.Mirrors r l) {c : Call} {cs : List Change} (s : Step σ c cs)
    (hc : c.registers = false) : (σ.applyAll cs).Mirrors r l := by
  have ⟨hl, hr⟩ := s.registries_cases hc
  apply Mirrors.of_step s
  case made =>
    cases hr
    case inl hr => exact hr ▸ h.made
    case inr hr =>
      rw [hr, Array.size_push]
      exact Nat.lt_succ_of_lt h.made
  case registry =>
    rw [← h.registry]
    cases hr
    case inl hr => simp only [Store.registry, hr]
    case inr hr => exact registry_of_push hr r
  case distinct => exact h.distinct
  case named => exact h.named
  case log => exact hl ▸ h.log

theorem Mirrors.perform (h : σ.Mirrors r l) (hp : e.Proper σ) :
    (σ.perform (e.call r)).2.Mirrors r (l.note r σ e) := by
  unfold Ledger.note
  cases hc : σ.plan (e.call r)
  case error x =>
    rw [perform_of_refusal hc]
    exact h
  case ok p =>
    have s := step_of_plan hc
    rw [perform_of_plan hc]
    cases e
    case register k v =>
      have ⟨r', d, hr, hd, hk, free, e⟩ := register_eq_ok hc
      cases h.registry?.symm.trans hr
      subst hd e
      exact h.registered s (hp d rfl) (h.names_eq ▸ free)
    case clear =>
      have ⟨r', hr, e⟩ := clear_eq_ok hc
      rw [registryOf?, h.registry?, Option.some_or] at hr
      cases hr
      subst e
      exact h.cleared s
    case other c =>
      exact h.kept s (hp.resolve_right fun hn => hn ⟨p, hc⟩)

theorem Mirrors.run (h : σ.Mirrors r l) (hp : σ.Proper r es) :
    (σ.run (es.map (Entry.call r))).Mirrors r (l.notes r σ es) := by
  induction es generalizing σ l
  case nil => exact h
  case cons e es hi => exact hi (h.perform hp.left) hp.right

-- From when it is new, or was emptied, a registry shows the ledger of the calls on it.
theorem registry_shows_ledger (made : r < σ.registries.size) (empty : σ.registry r = [])
    (proper : σ.Proper r es) : (σ.run (es.map (Entry.call r))).Shows r
      (Ledger.notes r σ ⟨[], σ.log.map Record.text⟩ es) := by
  have start : σ.Mirrors r ⟨[], σ.log.map Record.text⟩ :=
    ⟨made, empty, List.nodup_nil, nofun, rfl⟩
  exact (start.run proper).shows

-- Two enums of one name: only one of them can be registered at a time.
theorem registry_shows_ledger_twoEnums :
    let es : List Entry := [
      .other (.enum (.text "E") (.texts ["A"])), .other (.enum (.text "E") (.texts ["B"])),
      .register .type (.definition (.enum 0)), .register .enum (.definition (.enum 0)),
      .register .enum (.definition (.enum 1)), .clear, .register .enum (.definition (.enum 1))]
    (({} : Store).run (.registry :: es.map (Entry.call 0))).Shows 0 ⟨[.enum 1],
      ["Registered EnumDefinition E", "Clearing 1 definition(s)",
        "Registered EnumDefinition E"]⟩ := by
  intro es
  have proper : (({} : Store).run [.registry]).Proper 0 es := by
    refine ⟨.inl rfl, .inl rfl, ?_, ?_, ?_, trivial, ?_, trivial⟩
    all_goals
      intro d hd
      cases hd
      rfl
  exact registry_shows_ledger (by decide) rfl proper

end Store

end GraphSchema
