import GraphSchema.Proofs.Calendar.Written
import GraphSchema.Proofs.Enum.Registered
import GraphSchema.Proofs.Field.Valid

namespace GraphSchema

open Outcome

namespace Scalar

-- The objects that a scalar of the calendar takes, each with the text that says the same.
inductive Says : Scalar → Value → String → Prop
  | day {d : Date} (real : d.isReal) : Says .date (.date d) d.toText
  | moment {t : DateTime} (real : t.isReal) : Says .dateTime (.dateTime t) t.toText
  | stamp {t : DateTime} (real : t.isReal) : Says .timestamp (.dateTime t) t.toText

namespace Says

variable {k : Scalar} {v w : Value} {s : String}

theorem accepts (h : k.Says v s) (hw : w = v ∨ w = .text s) : k.accepts w := by
  rcases hw with rfl | rfl <;> cases h
  case inr.day d real => exact Date.isDateText_toText real
  case inr.moment t real => exact DateTime.isDateTimeText_toText real
  all_goals rfl

theorem settle (h : k.Says v s) (hw : w = v ∨ w = .text s) (σ : Store) : σ.settle w = w := by
  rcases hw with rfl | rfl <;> cases h <;> rfl

theorem literal (h : k.Says v s) (hw : w = v ∨ w = .text s) (r : Value.Reading) :
    w.literal r false = .ok (quote s) := by
  rcases hw with rfl | rfl <;> cases h <;> rfl

theorem isNull (h : k.Says v s) (hw : w = v ∨ w = .text s) : w.isNull = false := by
  rcases hw with rfl | rfl <;> cases h <;> rfl

end Says

end Scalar

namespace Shape

variable {s : Shape} {k : Scalar} {v w : Value} {t : String}

theorem accepts_of_says (hb : s.base = .scalar k) (single : s.isList = false) (h : k.Says v t)
    (hw : w = v ∨ w = .text t) : s.accepts w := by
  rw [accepts_iff, single, hb]
  exact ⟨h.isNull hw, congrArg Base.isObject hb, h.accepts hw⟩

theorem not_accepts_dateTime (hb : s.base = .scalar .date) (t : DateTime) :
    ¬ s.accepts (.dateTime t) := by
  rw [accepts_iff, hb]
  intro ⟨_, _, h⟩
  split at h <;> exact nomatch h

-- A value that is one and can be shown is refused for what it is.
theorem checkDefault_of_not_accepts {display : Value → Except Error String} (h : ¬ s.accepts v)
    (one : s.isList = false ∨ v.front.sequence? = none) (shown : Succeeds (display v)) :
    ∃ m, s.checkDefault display v = .error (.misuse m) := by
  have ⟨t, ht⟩ := shown
  have refuse (reason : String → Misuse) :
      (v.refuse display reason : Except Error Unit) = .error (.misuse (reason t)) := by
    simp [Value.refuse, ht]
  unfold checkDefault
  split_ifs with null object list base
  · exact ⟨_, rfl⟩
  · exact ⟨_, rfl⟩
  · rw [one.resolve_left (by simp [list])]
    exact ⟨_, refuse _⟩
  · exact absurd (accepts_iff.mpr ⟨by simpa using null, by simpa using object, by simpa [list]⟩) h
  · exact ⟨_, refuse _⟩

end Shape

namespace Store

variable {σ : Store} {v w : Value} {f : Numbered Field} {n : FieldId} {k : Scalar}

theorem perform_default (h : σ.checkWrap .default v = .ok f) (w : Value) :
    σ.perform (.default v w) =
      match (σ.shape f.val.shape).checkDefault σ.display (σ.settle w) with
      | .ok () => (.ok (.field σ.fields.size),
          { σ with fields := σ.fields.push (.wrap f (.default w)) })
      | .error e => (.error e, σ) := by
  have e : σ.plan (.default v w) =
      (σ.shape f.val.shape).checkDefault σ.display (σ.settle w) >>= fun () =>
        pure (σ.wrapPlan f [] (.default w)) := by
    simp only [plan, withDefault, h]
    rfl
  cases hc : (σ.shape f.val.shape).checkDefault σ.display (σ.settle w)
  case error => exact perform_of_refusal (by rw [e, hc]; rfl)
  case ok => exact perform_of_plan (by rw [e, hc]; rfl)

theorem succeeds_default_iff (h : σ.checkWrap .default v = .ok f) (w : Value) :
    Succeeds (σ.perform (.default v w)).1 ↔ (σ.shape f.val.shape).accepts (σ.settle w) := by
  have accepts : (σ.shape f.val.shape).checkDefault σ.display (σ.settle w) = .ok () ↔
      (σ.shape f.val.shape).accepts (σ.settle w) := Shape.checkDefault_eq_ok_iff
  rw [perform_default h w, ← accepts]
  cases (σ.shape f.val.shape).checkDefault σ.display (σ.settle w) <;> simp [Succeeds]

theorem refuses_default (h : σ.checkWrap .default v = .ok f)
    (no : ¬ (σ.shape f.val.shape).accepts (σ.settle w))
    (one : (σ.shape f.val.shape).isList = false ∨ (σ.settle w).front.sequence? = none)
    (shown : Succeeds (σ.display (σ.settle w))) : σ.Refuses (.default v w) := by
  have ⟨m, hm⟩ := Shape.checkDefault_of_not_accepts no one shown
  have hp := perform_default h w
  rw [hm] at hp
  exact ⟨m, hp⟩

theorem directive_of_default (hf : σ.fields[n]? = some (.wrap f (.default w)))
    {l : String} (hl : (σ.settle w).literal σ.names (σ.shape f.val.shape).isEnum = .ok l) :
    (σ.perform (.directive (.field n))).1 = .ok (.text ("@default(value: " ++ l ++ ")")) := by
  have given : σ.field? (.field n) = some ⟨n, .wrap f (.default w)⟩ :=
    field?_eq_some_iff.mpr ⟨rfl, hf⟩
  refine answer_of_plan (p := .say _) ?_
  simp only [plan, directive, given, Field.wrap, directiveText, hl]
  rfl

-- The value is taken as the default of the field, and reads as told from then on.
structure TakesDefault (σ : Store) (n : FieldId) (w : Value) (text : String) : Prop where
  taken : (σ.perform (.default (.field n) w)).1 = .ok (.field σ.fields.size)
  text : ∀ ds, (((σ.perform (.default (.field n) w)).2.run ds).perform
    (.directive (.field σ.fields.size))).1 = .ok (.text ("@default(value: " ++ text ++ ")"))

-- What is written for a default of a scalar does not depend on what happens later.
theorem takesDefault_of_literal (cs : List Call) {g : Field}
    (hc : (({} : Store).run cs).checkWrap .default (.field n) = .ok ⟨n, g⟩)
    (hb : ((({} : Store).run cs).shape g.shape).base = .scalar k)
    (ha : ((({} : Store).run cs).shape g.shape).accepts w)
    (still : ∀ τ : Store, τ.settle w = w) {l : String}
    (hl : ∀ r, w.literal r false = .ok l) : (({} : Store).run cs).TakesDefault n w l := by
  have hp := perform_default hc w
  rw [still, Shape.checkDefault_eq_ok_iff.mpr ha] at hp
  refine ⟨congrArg Prod.fst hp, fun ds => ?_⟩
  have made := run_concat {} cs (.default (.field n) w)
  have hf : (({} : Store).run (cs ++ [.default (.field n) w])).fields[
      (({} : Store).run cs).fields.size]? = some (.wrap ⟨n, g⟩ (.default w)) := by
    rw [made, hp]
    exact Array.getElem?_push_size
  have hb : ((({} : Store).run (cs ++ [.default (.field n) w])).outline g.shape).base =
      .scalar k := by
    rw [made, hp]
    exact hb
  rw [← made]
  have ⟨later, base⟩ := base_run _ ds hf
  refine directive_of_default later ?_
  rw [still, Shape.isEnum, show (Store.shape _ g.shape).base = _ from base.trans hb]
  exact hl _

-- The day or moment and its text are taken by the same fields, and what reads of the field does not
-- tell which of them was given. A moment is no day.
theorem takesDefault_dated_run (cs : List Call) {g : Field}
    (hf : (({} : Store).run cs).fields[n]? = some g)
    (hb : ((({} : Store).run cs).shape g.shape).base = .scalar k) :
    let σ := ({} : Store).run cs
    ((σ.shape g.shape).isList = false →
      Grammatical (σ.shape g.shape).isObject (g.kinds.reverse ++ [.default]) →
      ∀ v s, k.Says v s → σ.TakesDefault n v (quote s) ∧ σ.TakesDefault n (.text s) (quote s)) ∧
    (k = .date → ∀ t, σ.Refuses (.default (.field n) (.dateTime t))) := by
  intro σ
  constructor
  case left =>
    intro single may v s h
    have hc := checkWrap_run cs hf may
    have takes (w : Value) (hw : w = v ∨ w = .text s) : σ.TakesDefault n w (quote s) :=
      takesDefault_of_literal cs hc hb (Shape.accepts_of_says hb single h hw) (h.settle hw)
        (h.literal hw)
    exact ⟨takes v (.inl rfl), takes (.text s) (.inr rfl)⟩
  case right =>
    rintro rfl t
    cases hw : g.wrapFault? (σ.shape g.shape) .default
    case some m => exact refuses_of_wrapFault (w := .default _) hf hw
    case none =>
      have hc : σ.checkWrap .default (.field n) = .ok ⟨n, g⟩ :=
        checkWrap_eq_ok.mpr ⟨field?_eq_some_iff.mpr ⟨rfl, hf⟩, hw⟩
      exact refuses_default hc (Shape.not_accepts_dateTime hb t) (.inr rfl) ⟨_, rfl⟩

def births : List Call := [.leaf (.scalar .date) (.bool false)]

def leapDay : Date := ⟨2024, 2, 29⟩

theorem takesDefault_leapDay :
    let σ := ({} : Store).run births
    σ.TakesDefault 0 (.date leapDay) (quote "2024-02-29") ∧
      σ.TakesDefault 0 (.text "2024-02-29") (quote "2024-02-29") ∧
      σ.Refuses (.default (.field 0) (.dateTime ⟨leapDay, 0, 0, 0, 0, none⟩)) := by
  have ⟨taken, refused⟩ := takesDefault_dated_run births (n := 0) rfl rfl
  have text : leapDay.toText = "2024-02-29" := by decide
  have ⟨object, same⟩ := taken rfl ⟨[.default], [], rfl, by decide, by decide, nofun⟩ _ _
    (.day (d := leapDay) rfl)
  rw [text] at object same
  exact ⟨object, same, refused rfl _⟩

end Store

end GraphSchema
