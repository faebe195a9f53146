import GraphSchema.Calendar.Reader
import GraphSchema.Proofs.Constant.Scan
import Mathlib.Data.List.GetD

namespace GraphSchema.Iso.Bytes

variable {b ds u w : Bytes} {p i : Nat} {x : UInt8}

theorem peek_of_le (h : b.length ≤ i) : b.peek i = 0 := List.getD_eq_default _ _ h

theorem peek_append_left (h : i < u.length) : peek (u ++ w) i = u.peek i :=
  List.getD_append _ _ _ _ h

theorem peek_append (i : Nat) : peek (u ++ w) (u.length + i) = w.peek i := by
  simpa [peek] using List.getD_append_right u w 0 (u.length + i) (Nat.le_add_right _ _)

theorem peek_of_drop (h : b.drop p = w) : b.peek (p + i) = w.peek i := by
  simp [← h, peek, List.getD_eq_getElem?_getD, List.getElem?_drop]

theorem head_of_drop (h : b.drop p = x :: w) : b.peek p = x := peek_of_drop (i := 0) h

theorem drop_of_drop (h : b.drop p = u ++ w) : b.drop (p + u.length) = w := by
  rw [← List.drop_drop, h, List.drop_left]

theorem tail_of_drop (h : b.drop p = x :: w) : b.drop (p + 1) = w := drop_of_drop (u := [x]) h

theorem length_of_drop (h : b.drop p = w) (hp : p ≤ b.length) : b.length = p + w.length := by
  rw [← h, List.length_drop]
  omega

-- Runs of digits.

def AllDigits (ds : Bytes) : Prop := ∀ x ∈ ds, isDigit x

def valueOf (ds : Bytes) : Nat := ds.foldl (fun v d => 10 * v + (d.toNat - 0x30)) 0

theorem map_peek_of_drop (h : b.drop p = ds ++ w) :
    ((List.range ds.length).map fun i => b.peek (p + i)) = ds := by
  refine List.ext_getElem (by simp) fun i hi hi' => ?_
  rw [List.getElem_map, List.getElem_range, peek_of_drop h, peek_append_left hi']
  exact List.getD_eq_getElem _ _ hi'

theorem number?_of_drop (h : b.drop p = ds ++ w) (hd : AllDigits ds) :
    b.number? p ds.length = some (valueOf ds) := by
  unfold number?
  rw [map_peek_of_drop h, if_pos (List.all_eq_true.mpr hd)]
  rfl

theorem afterDigits_of_drop (h : b.drop p = ds ++ w) (hd : AllDigits ds)
    (hw : ∀ x ∈ w.head?, isDigit x = false) : b.afterDigits p = p + ds.length := by
  rw [afterDigits, h, Scan.takeWhile_append hd hw]

-- What an offset starts with.

def isSign (x : UInt8) : Bool := x == 0x2B || x == dash || x == zulu

theorem isSign_of_isDigit (h : isDigit x) : isSign x = false := by
  have ne (y : UInt8) (hy : isDigit y = false) : (x == y) = false :=
    beq_eq_false_iff_ne.mpr fun e => absurd (e ▸ h) (by simp [hy])
  rw [isSign, ne 0x2B rfl, ne dash rfl, ne zulu rfl]
  rfl

theorem not_isDigit_of_isSign (h : isSign x) : isDigit x = false :=
  Bool.eq_false_iff.mpr fun hd => by simp [isSign_of_isDigit hd] at h

theorem ne_colon_of_isSign (h : isSign x) : x ≠ colon := fun e => absurd (e ▸ h) (by decide)

end GraphSchema.Iso.Bytes
