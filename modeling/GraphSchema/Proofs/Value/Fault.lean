import GraphSchema.Proofs.Outcome
import GraphSchema.Value.Literal

namespace GraphSchema

namespace Outcome

variable {ε α β : Type} {P : ε → Prop} {x : Except ε α} {f : α → Except ε β}

-- If something goes wrong, it is of a certain kind.
def FailsBy (P : ε → Prop) (x : Except ε α) : Prop := ∀ e, x = .error e → P e

theorem failsBy_pure {a : α} : FailsBy P (pure a : Except ε α) := nofun

theorem failsBy_throw {e : ε} (h : P e) : FailsBy P (throw e : Except ε α) :=
  fun _ he => Except.error.inj he ▸ h

theorem failsBy_of_succeeds (h : Succeeds x) : FailsBy P x :=
  have ⟨_, hx⟩ := h
  fun _ e => nomatch hx.symm.trans e

theorem FailsBy.bind (h : FailsBy P x) (hf : ∀ a, FailsBy P (f a)) : FailsBy P (x >>= f) := by
  cases x
  case error e => exact failsBy_throw (h e rfl)
  case ok a => exact hf a

theorem failsBy_mapM {as : List α} (h : ∀ a ∈ as, FailsBy P (f a)) : FailsBy P (as.mapM f) := by
  induction as
  case nil => exact failsBy_pure
  case cons a as hi =>
    have ⟨ha, has⟩ := List.forall_mem_cons.mp h
    rw [List.mapM_cons]
    exact ha.bind fun _ => (hi has).bind fun _ => failsBy_pure

end Outcome

-- Something has a type that it must not have.
def Error.IsTypeFault : Error → Prop
  | type _ => True
  | _ => False

open Outcome Error

namespace Value

mutual

theorem failsBy_display {ref : Ref → Except Error String}
    (h : ∀ o, FailsBy IsTypeFault (ref o)) : (v : Value) → FailsBy IsTypeFault (display ref v)
  | list xs => (failsBy_displays h xs).bind fun _ => failsBy_pure
  | tuple xs => (failsBy_displays h xs).bind fun _ => failsBy_pure
  | dict es => (failsBy_displayEntries h es).bind fun _ => failsBy_pure
  | enumMember _ _ _ v => (failsBy_display h v).bind fun _ => failsBy_pure
  | object o => h o
  | null | bool _ | int _ | float _ | decimal _ | date _ | dateTime _ | text _ | bytes _
  | byteArray _ | progression _ | stream _ | foreign .. | enumClass .. | labelled .. | scalar _
  | nodeKind _ | enumRef .. | objectRef _ | script _ => failsBy_pure

theorem failsBy_displays {ref : Ref → Except Error String}
    (h : ∀ o, FailsBy IsTypeFault (ref o)) :
    (xs : List Value) → FailsBy IsTypeFault (displays ref xs)
  | [] => failsBy_pure
  | x :: xs =>
    (failsBy_display h x).bind fun _ => (failsBy_displays h xs).bind fun _ => failsBy_pure

theorem failsBy_displayEntries {ref : Ref → Except Error String}
    (h : ∀ o, FailsBy IsTypeFault (ref o)) :
    (es : List (Value × Value)) → FailsBy IsTypeFault (displayEntries ref es)
  | [] => failsBy_pure
  | (k, v) :: es => (failsBy_display h k).bind fun _ => (failsBy_display h v).bind fun _ =>
    (failsBy_displayEntries h es).bind fun _ => failsBy_pure

end

-- Nothing else goes wrong when objects are read.
structure Reading.OnlyTypeFaults (r : Reading) : Prop where
  display : ∀ o, FailsBy IsTypeFault (r.display o)
  text : ∀ o, FailsBy IsTypeFault (r.text o)

variable {r : Reading} {bare : Bool}

theorem failsBy_toText (h : r.OnlyTypeFaults) (v : Value) : FailsBy IsTypeFault (v.toText r) := by
  cases v
  case object o => exact h.text o
  case text | decimal | labelled | date | dateTime | enumMember | scalar | nodeKind =>
    exact failsBy_pure
  all_goals exact failsBy_display h.display _

mutual

theorem failsBy_literal (h : r.OnlyTypeFaults) :
    (v : Value) → FailsBy IsTypeFault (literal r bare v)
  | list xs => (failsBy_literals h xs).bind fun _ => failsBy_pure
  | tuple xs => (failsBy_literals h xs).bind fun _ => failsBy_pure
  | dict es => (failsBy_literalEntries h es).bind fun _ => failsBy_pure
  | null | bool _ | int _ | float _ | decimal _ | labelled .. | text _ | date _ | dateTime _ =>
    failsBy_pure
  | bytes _ | byteArray _ | progression _ | foreign .. | enumClass .. | scalar _ | nodeKind _
  | enumRef .. | objectRef _ | script _ | object _ | stream _ | enumMember .. =>
    (failsBy_display h.display _).bind fun _ => failsBy_throw trivial

theorem failsBy_literals (h : r.OnlyTypeFaults) :
    (xs : List Value) → FailsBy IsTypeFault (literals r bare xs)
  | [] => failsBy_pure
  | x :: xs =>
    (failsBy_literal h x).bind fun _ => (failsBy_literals h xs).bind fun _ => failsBy_pure

theorem failsBy_literalEntries (h : r.OnlyTypeFaults) :
    (es : List (Value × Value)) → FailsBy IsTypeFault (literalEntries r bare es)
  | [] => failsBy_pure
  | (k, v) :: es => (failsBy_literal h v).bind fun _ => (failsBy_toText h k).bind fun _ =>
    (failsBy_literalEntries h es).bind fun _ => failsBy_pure

end

end Value

end GraphSchema
