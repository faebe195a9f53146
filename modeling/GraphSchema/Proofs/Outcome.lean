import Mathlib.Data.List.Forall2

namespace GraphSchema.Outcome

variable {ε α β γ : Type} {x : Except ε α} {f : α → Except ε β} {b : β}

theorem bind_eq_ok : x >>= f = .ok b ↔ ∃ a, x = .ok a ∧ f a = .ok b := by
  cases x <;> simp [bind, Except.bind]

theorem map_eq_ok {g : α → β} : x.map g = .ok b ↔ ∃ a, x = .ok a ∧ g a = b := by
  cases x <;> simp [Except.map]

@[simp]
theorem pure_eq_ok {a b : α} : (pure a : Except ε α) = .ok b ↔ a = b := by
  simp [pure, Except.pure]

@[simp]
theorem throw_ne_ok {e : ε} {a : α} : (throw e : Except ε α) ≠ .ok a :=
  fun h => nomatch (h : Except.error e = .ok a)

-- Success without regard to the result.
def Succeeds (x : Except ε α) : Prop := ∃ a, x = .ok a

@[simp]
theorem succeeds_ok {a : α} : Succeeds (.ok a : Except ε α) := ⟨a, rfl⟩

@[simp]
theorem succeeds_pure {a : α} : Succeeds (pure a : Except ε α) := ⟨a, rfl⟩

@[simp]
theorem not_succeeds_error {e : ε} : ¬ Succeeds (.error e : Except ε α) := fun ⟨_, h⟩ => nomatch h

instance decidableSucceeds : (x : Except ε α) → Decidable (Succeeds x)
  | .ok _ => isTrue succeeds_ok
  | .error _ => isFalse not_succeeds_error

theorem succeeds_bind : Succeeds (x >>= f) ↔ ∃ a, x = .ok a ∧ Succeeds (f a) := by
  simp only [Succeeds, bind_eq_ok]
  exact ⟨fun ⟨b, a, ha, hb⟩ => ⟨a, ha, b, hb⟩, fun ⟨a, ha, b, hb⟩ => ⟨b, a, ha, hb⟩⟩

-- A last step that cannot fail makes no difference.
theorem succeeds_bind_pure {g : α → β} :
    Succeeds (x >>= fun a => (pure (g a) : Except ε β)) ↔ Succeeds x := by
  rw [succeeds_bind]
  exact exists_congr fun a => and_iff_left succeeds_pure

theorem succeeds_unit {x : Except ε Unit} : Succeeds x ↔ x = .ok () :=
  ⟨fun ⟨(), h⟩ => h, fun h => ⟨(), h⟩⟩

theorem mapM_cons_eq_ok {a : α} {as : List α} {bs : List β} :
    (a :: as).mapM f = .ok bs ↔ ∃ b cs, f a = .ok b ∧ as.mapM f = .ok cs ∧ bs = b :: cs := by
  simp only [List.mapM_cons, bind_eq_ok, pure_eq_ok]
  constructor
  · rintro ⟨b, hb, cs, hcs, rfl⟩
    exact ⟨b, cs, hb, hcs, rfl⟩
  · rintro ⟨b, cs, hb, hcs, rfl⟩
    exact ⟨b, hb, cs, hcs, rfl⟩

theorem forall₂_of_mapM {as : List α} {bs : List β} (h : as.mapM f = .ok bs) :
    List.Forall₂ (fun a b => f a = .ok b) as bs := by
  induction as generalizing bs
  case nil =>
    cases pure_eq_ok.mp h
    exact .nil
  case cons a as hi =>
    have ⟨b, bs, hb, hbs, e⟩ := mapM_cons_eq_ok.mp h
    exact e ▸ .cons hb (hi hbs)

theorem mem_of_mapM_eq_ok {as : List α} {bs : List β} (h : as.mapM f = .ok bs) (hb : b ∈ bs) :
    ∃ a ∈ as, f a = .ok b := by
  induction as generalizing bs
  case nil =>
    cases h
    cases hb
  case cons a as hi =>
    have ⟨c, cs, hc, hcs, e⟩ := mapM_cons_eq_ok.mp h
    subst e
    cases hb
    case head => exact ⟨a, List.mem_cons_self, hc⟩
    case tail hb =>
      have ⟨a', ha', h'⟩ := hi hcs hb
      exact ⟨a', List.mem_cons_of_mem _ ha', h'⟩

theorem mapM_eq_ok_map {g : α → β} {as : List α} (h : ∀ a ∈ as, f a = .ok (g a)) :
    as.mapM f = .ok (as.map g) := by
  induction as
  case nil => rfl
  case cons a as hi =>
    have ⟨ha, has⟩ := List.forall_mem_cons.mp h
    exact mapM_cons_eq_ok.mpr ⟨g a, as.map g, ha, hi has, rfl⟩

-- What is done to the results one by one can be done in the end.

theorem mapM_map {g : β → γ} (as : List α) :
    as.mapM (fun a => (f a).map g) = (as.mapM f).map (List.map g) := by
  induction as
  case nil => rfl
  case cons a as hi =>
    rw [List.mapM_cons, List.mapM_cons, hi]
    cases f a
    case error => rfl
    case ok => cases as.mapM f <;> rfl

theorem mapM_congr {g : α → Except ε β} {as : List α} (h : ∀ a ∈ as, f a = g a) :
    as.mapM f = as.mapM g := by
  induction as
  case nil => rfl
  case cons a as hi =>
    have ⟨ha, has⟩ := List.forall_mem_cons.mp h
    rw [List.mapM_cons, List.mapM_cons, ha, hi has]

theorem succeeds_mapM {as : List α} : Succeeds (as.mapM f) ↔ ∀ a ∈ as, Succeeds (f a) := by
  induction as
  case nil => simp
  case cons a as hi =>
    simp only [List.forall_mem_cons, ← hi]
    constructor
    · rintro ⟨_, h⟩
      have ⟨b, cs, hb, hcs, _⟩ := mapM_cons_eq_ok.mp h
      exact ⟨⟨b, hb⟩, ⟨cs, hcs⟩⟩
    · rintro ⟨⟨b, hb⟩, ⟨cs, hcs⟩⟩
      exact ⟨b :: cs, mapM_cons_eq_ok.mpr ⟨b, cs, hb, hcs, rfl⟩⟩

-- What came out, if anything did, whatever went wrong otherwise.

theorem toOption_bind (x : Except ε α) (f : α → Except ε β) :
    (x >>= f).toOption = x.toOption.bind fun a => (f a).toOption := by
  cases x <;> rfl

theorem toOption_map (x : Except ε α) (g : α → β) : (x.map g).toOption = x.toOption.map g := by
  cases x <;> rfl

theorem toOption_bind_throw {e : α → ε} :
    (x >>= fun a => (throw (e a) : Except ε β)).toOption = none := by
  cases x <;> rfl

theorem toOption_mapM_congr {f g : α → Except ε β} (as : List α)
    (h : ∀ a ∈ as, (f a).toOption = (g a).toOption) :
    (as.mapM f).toOption = (as.mapM g).toOption := by
  induction as
  case nil => rfl
  case cons a as hi =>
    have ⟨ha, has⟩ := List.forall_mem_cons.mp h
    simp only [List.mapM_cons, toOption_bind, ha, hi has]

end GraphSchema.Outcome
