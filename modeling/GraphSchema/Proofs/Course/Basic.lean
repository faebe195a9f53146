import GraphSchema.Proofs.Plan.Field
import GraphSchema.Proofs.Table

namespace GraphSchema

-- What a call does step by step. What was changed before it is refused stays changed.
abbrev Course := ExceptT Error (StateM Store)

namespace Course

variable {α β γ : Type}

-- The outcome, and the store that is left behind either way.
def on (m : Course α) (σ : Store) : Except Error α × Store := m.run.run σ

def make (c : Change) : Course Unit := modify (·.apply c)

variable {σ : Store} {m : Course α} {k : α → Course β}

theorem on_bind_ok {a : α} {τ : Store} (h : m.on σ = (.ok a, τ)) :
    (m >>= k).on σ = (k a).on τ := by
  simp only [on, ExceptT.run_bind, StateT.run_bind] at h ⊢
  rw [h]
  rfl

theorem on_bind_error {e : Error} {τ : Store} (h : m.on σ = (.error e, τ)) :
    (m >>= k).on σ = (.error e, τ) := by
  simp only [on, ExceptT.run_bind, StateT.run_bind] at h ⊢
  rw [h]
  rfl

end Course

open Table in
-- All objects are as they were, and nothing was logged. There may be more of them.
structure Store.Retains (σ τ : Store) : Prop where
  shapes : Within σ.shapes τ.shapes
  fields : Within σ.fields τ.fields
  rules : Within σ.rules τ.rules
  ruleSets : Within σ.ruleSets τ.ruleSets
  invalidations : Within σ.invalidations τ.invalidations
  fieldCaches : Within σ.fieldCaches τ.fieldCaches
  typeCaches : Within σ.typeCaches τ.typeCaches
  interfaces : Within σ.interfaces τ.interfaces
  types : Within σ.types τ.types
  enums : Within σ.enums τ.enums
  registries : Within σ.registries τ.registries
  builders : Within σ.builders τ.builders
  printers : Within σ.printers τ.printers
  configs : Within σ.configs τ.configs
  log : τ.log = σ.log

open Table in
theorem Store.retains_refl (σ : Store) : σ.Retains σ :=
  ⟨within_refl _, within_refl _, within_refl _, within_refl _, within_refl _, within_refl _,
    within_refl _, within_refl _, within_refl _, within_refl _, within_refl _, within_refl _,
    within_refl _, within_refl _, rfl⟩

-- The course ends where it was decided that it ends, with the result, and where that was refused
-- it is broken off with the same error, in a store of some kind.
structure Follows {α β : Type} (m : Course α) (σ : Store) (x : Except Error β)
    (result : β → α × Store) (broken : Store → Prop) : Prop where
  done : ∀ b, x = .ok b → m.on σ = (.ok (result b).1, (result b).2)
  refused : ∀ e, x = .error e → ∃ τ, m.on σ = (.error e, τ) ∧ broken τ

namespace Follows

open Course

variable {α β γ δ : Type} {σ τ : Store} {m m' : Course α} {x : Except Error β}
  {result : β → α × Store} {broken : Store → Prop}

theorem of_ok {b : β} (h : m.on σ = (.ok (result b).1, (result b).2)) :
    Follows m σ (.ok b) result broken where
  done _ e := Except.ok.inj e ▸ h
  refused _ e := nomatch e

theorem of_error {e : Error} (h : m.on σ = (.error e, τ)) (hb : broken τ) :
    Follows m σ (.error e) result broken where
  done _ e := nomatch e
  refused _ e := Except.error.inj e ▸ ⟨τ, h, hb⟩

theorem congr (e : m'.on τ = m.on σ) (h : Follows m σ x result broken) :
    Follows m' τ x result broken where
  done b hb := e.trans (h.done b hb)
  refused b hb :=
    have ⟨ρ, hρ, hs⟩ := h.refused b hb
    ⟨ρ, e.trans hρ, hs⟩

theorem imp {broken' : Store → Prop} (h : Follows m σ x result broken)
    (hi : ∀ τ, broken τ → broken' τ) : Follows m σ x result broken' where
  done := h.done
  refused e he :=
    have ⟨τ, ht, hb⟩ := h.refused e he
    ⟨τ, ht, hi τ hb⟩

theorem bind {k : α → Course γ} {f : β → Except Error δ} {result' : δ → γ × Store}
    (h : Follows m σ x result broken)
    (hk : ∀ b, x = .ok b → Follows (k (result b).1) (result b).2 (f b) result' broken) :
    Follows (m >>= k) σ (x >>= f) result' broken := by
  cases x
  case error e =>
    have ⟨τ, ht, hb⟩ := h.refused e rfl
    exact of_error (on_bind_error ht) hb
  case ok b => exact (hk b rfl).congr (on_bind_ok (h.done b rfl))

-- What is decided can be put together differently in the end.
theorem map {f : β → δ} {result : δ → α × Store}
    (h : Follows m σ x (fun b => result (f b)) broken) :
    Follows m σ (x >>= fun b => pure (f b)) result broken := by
  cases x
  case error e =>
    have ⟨τ, ht, hb⟩ := h.refused e rfl
    exact of_error ht hb
  case ok b => exact of_ok (h.done b rfl)

theorem ite {p : Prop} [Decidable p] {y : Except Error β} (hp : Follows m σ x result broken)
    (hn : Follows m' σ y result broken) :
    Follows (if p then m else m') σ (if p then x else y) result broken := by
  split
  case isTrue => exact hp
  case isFalse => exact hn

theorem look {k : Store → Course α} (h : Follows (k σ) σ x result broken) :
    Follows (get >>= k) σ x result broken :=
  h.congr (on_bind_ok rfl)

theorem step {c : Change} {k : Unit → Course α} (h : Follows (k ()) (σ.apply c) x result broken) :
    Follows (make c >>= k) σ x result broken :=
  h.congr (on_bind_ok rfl)

-- Checks change nothing.

theorem lift {y : Except Error γ} (hb : broken σ) : Follows (liftM y) σ y (·, σ) broken where
  done _ h := h ▸ rfl
  refused _ h := ⟨σ, h ▸ rfl, hb⟩

theorem check {y : Except Error γ} {k : γ → Course α} {f : γ → Except Error β} (hb : broken σ)
    (h : ∀ c, y = .ok c → Follows (k c) σ (f c) result broken) :
    Follows (liftM y >>= k) σ (y >>= f) result broken :=
  bind (lift hb) h

-- Where nothing can come of it, it is enough to refuse in the same way.
theorem refusal {y : Except Error α} {e : Error} (hb : broken σ) (hy : y = .error e)
    (hx : x = .error e) : Follows (liftM y) σ x result broken := by
  subst hy hx
  exact of_error rfl hb

theorem misuse (hb : broken σ) (u : Misuse) :
    Follows (liftM (u.refusal : Except Error α)) σ u.refusal result broken :=
  refusal hb rfl rfl

theorem lacks (hb : broken σ) (v : Value) (property : String) :
    Follows (liftM (σ.lacks v property : Except Error α)) σ (σ.lacks v property) result
      broken := by
  unfold Store.lacks
  split <;> exact refusal hb rfl rfl

theorem refuse (hb : broken σ) (v : Value) (display : Value → Except Error String)
    (reason : String → Misuse) :
    Follows (liftM (v.refuse display reason : Except Error α)) σ (v.refuse display reason) result
      broken := by
  unfold Value.refuse
  cases display v <;> exact refusal hb rfl rfl

end Follows

-- The course comes to the same as the decision, and nothing that was there before has changed
-- when it is broken off.
def Realizes (m : Course Value) (σ : Store) (d : Decision) : Prop :=
  Follows m σ d (fun p => (p.answer, σ.applyAll p.changes)) σ.Retains

end GraphSchema
