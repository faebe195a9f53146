import GraphSchema.Proofs.Calendar.Zulu
import GraphSchema.Proofs.Field.Moment

namespace GraphSchema

open Outcome

namespace Iso

variable {s : String} {b : Bytes}

theorem isDateTimeText_zulu :
    isDateTimeText (s ++ "Z") = isDateTime (utf8 s.toList ++ greenwich) := by
  have expand : expandZulu (s ++ "Z").toList = s.toList ++ "+00:00".toList := by
    have last : (s ++ "Z").toList = s.toList ++ ['Z'] := String.toList_append
    rw [last, expandZulu, if_pos List.getLast?_concat, List.dropLast_concat]
  rw [isDateTimeText, expand, utf8_append]
  rfl

theorem zulu_iff_isNaive : (isDateTimeText (s ++ "Z") ↔ IsNaive (utf8 s.toList)) ↔
    ¬ (IsDay (utf8 s.toList) ∨ IsLoose (utf8 s.toList) ∨ IsCut (utf8 s.toList)) := by
  rw [isDateTimeText_zulu, isDateTime_greenwich_iff]
  constructor
  · intro h other
    have naive := h.mp (.inr other)
    rcases other with h | h | h
    · exact naive.not_isDay h
    · exact naive.not_isLoose h
    · exact naive.not_isZoned h.isZoned
  · intro none
    exact ⟨fun h => h.resolve_right none, .inl⟩

end Iso

namespace Store

variable {σ : Store} {n : FieldId}

open Iso in
-- The letter is taken behind a time without an offset, and behind three kinds of text that are
-- none.
theorem zulu_run_iff (cs : List Call) {g : Field} (hf : (({} : Store).run cs).fields[n]? = some g)
    (hb : ((({} : Store).run cs).shape g.shape).base = .scalar .dateTime)
    (single : ((({} : Store).run cs).shape g.shape).isList = false)
    (may : Grammatical ((({} : Store).run cs).shape g.shape).isObject
      (g.kinds.reverse ++ [.default])) (s : String) :
    let σ := ({} : Store).run cs
    let c := Call.default (.field n) (.text (s ++ "Z"))
    let b := utf8 s.toList
    (Succeeds (σ.perform c).1 ↔ IsNaive b ∨ IsDay b ∨ IsLoose b ∨ IsCut b) ∧
      ((Succeeds (σ.perform c).1 ↔ IsNaive b) ↔ ¬ (IsDay b ∨ IsLoose b ∨ IsCut b)) ∧
      (¬ Succeeds (σ.perform c).1 → σ.Refuses c) := by
  intro σ c b
  have hc := checkWrap_run cs hf may
  have accepts : (σ.shape g.shape).accepts (.text (s ++ "Z")) ↔ isDateTimeText (s ++ "Z") := by
    have leaf : (σ.shape g.shape).isObject = false := congrArg Base.isObject hb
    rw [Shape.accepts_iff, single, hb]
    simp only [leaf, Value.isNull, true_and]
    rfl
  have taken : Succeeds (σ.perform c).1 ↔ isDateTimeText (s ++ "Z") :=
    (succeeds_default_iff hc _).trans accepts
  refine ⟨?_, ?_, fun no => ?_⟩
  · rw [taken, isDateTimeText_zulu, isDateTime_greenwich_iff]
  · rw [taken]
    exact zulu_iff_isNaive
  · exact refuses_default hc (fun h => no ((succeeds_default_iff hc _).mpr h)) (.inl single)
      ⟨_, rfl⟩

def moments : List Call := [.leaf (.scalar .dateTime) (.bool false)]

theorem zulu_moments :
    Succeeds ((({} : Store).run moments).perform
      (.default (.field 0) (.text ("2020-01-01T12:30" ++ "Z")))).1 := by
  have naive : Iso.IsNaive (Iso.utf8 "2020-01-01T12:30".toList) :=
    ⟨10, 11, ⟨⟨by decide, by decide⟩, by decide, by decide⟩, by decide, by decide⟩
  exact (zulu_run_iff moments (n := 0) rfl rfl rfl
    ⟨[.default], [], rfl, by decide, by decide, nofun⟩ _).left.mpr (.inl naive)

-- The first of January is a day without a time.
theorem not_zulu_iff_isNaive : ¬ ∀ (cs : List Call) (n : FieldId) (g : Field),
    (({} : Store).run cs).fields[n]? = some g →
    ((({} : Store).run cs).shape g.shape).base = .scalar .dateTime →
    ((({} : Store).run cs).shape g.shape).isList = false →
    Grammatical ((({} : Store).run cs).shape g.shape).isObject (g.kinds.reverse ++ [.default]) →
    ∀ s, Succeeds ((({} : Store).run cs).perform (.default (.field n) (.text (s ++ "Z")))).1 ↔
      Iso.IsNaive (Iso.utf8 s.toList) := by
  intro h
  have day : Iso.IsDay (Iso.utf8 "2020-01-01".toList) := ⟨by decide, by decide⟩
  have may : Grammatical false [.scalar, .default] :=
    ⟨[.default], [], rfl, by decide, by decide, nofun⟩
  have h := h moments 0 _ rfl rfl rfl may "2020-01-01"
  exact (h.mp (by decide)).not_isDay day

end Store

end GraphSchema
