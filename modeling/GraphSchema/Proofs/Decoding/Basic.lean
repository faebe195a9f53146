import GraphSchema.Proofs.Constant.Quoted
import GraphSchema.Proofs.Constant.Number

namespace GraphSchema

namespace Name

-- What occurs in names, the line break that may follow one included.
def isChar (c : Char) : Bool := isPart c || c == '\n'

theorem isChar_of_isName {s : String} (h : isName s) : ∀ c ∈ s.toList, isChar c := by
  intro c hc
  have part {cs : List Char} (h : isWord cs) (hc : c ∈ cs) : isChar c := by
    rw [isChar, List.all_eq_true.mp (all_isPart h) c hc, Bool.true_or]
  simp only [isName, accepts, Bool.or_eq_true, Bool.and_eq_true, beq_iff_eq] at h
  rcases h with h | ⟨hl, h⟩
  case inl => exact part h hc
  case inr =>
    rw [← List.dropLast_append_getLast? _ hl, List.mem_append, List.mem_singleton] at hc
    rcases hc with hc | rfl
    · exact part h hc
    · rfl

end Name

namespace Decoding

variable {r s : List Char}

theorem run_append_inj {p : Char → Bool} {v w : List Char} (hv : ∀ c ∈ v, p c) (hw : ∀ c ∈ w, p c)
    (hr : ∀ c ∈ r.head?, p c = false) (hs : ∀ c ∈ s.head?, p c = false) (h : v ++ r = w ++ s) :
    v = w ∧ r = s := by
  have ht := congrArg (List.takeWhile p) h
  rw [Scan.takeWhile_append hv hr, Scan.takeWhile_append hw hs] at ht
  subst ht
  exact ⟨rfl, List.append_cancel_left h⟩

theorem digits_append_inj {m n : Nat} (hr : Decimal.EndsDigits r) (hs : Decimal.EndsDigits s)
    (h : (toString m).toList ++ r = (toString n).toList ++ s) : m = n ∧ r = s := by
  simp only [Nat.toString_eq_repr, Nat.toList_repr] at h
  have ⟨hd, hr⟩ := run_append_inj (fun _ => Decimal.isDigit_of_mem_toDigits)
    (fun _ => Decimal.isDigit_of_mem_toDigits) hr hs h
  refine ⟨?_, hr⟩
  rw [← Decimal.value_toDigits m, hd, Decimal.value_toDigits]

theorem encode_append_inj {v w : List Char}
    (h : Quoted.encode v ++ '"' :: r = Quoted.encode w ++ '"' :: s) : v = w ∧ r = s := by
  have hd := congrArg Quoted.decode? h
  rw [Quoted.decode?_encode, Quoted.decode?_encode] at hd
  simpa using hd

theorem quote_append_inj {a b : String} (h : (quote a).toList ++ r = (quote b).toList ++ s) :
    a = b ∧ r = s := by
  have h : Quoted.encode a.toList ++ '"' :: r = Quoted.encode b.toList ++ '"' :: s := by
    simpa [toList_quote] using h
  exact (encode_append_inj h).imp_left String.toList_inj.mp

theorem toList_intercalate (sep t : String) (ts : List String) :
    (sep.intercalate (t :: ts)).toList =
      t.toList ++ ts.flatMap fun t => sep.toList ++ t.toList := by
  induction ts generalizing t
  case nil => simp
  case cons u ts hi => simp [String.intercalate_cons_cons, hi]

-- Lists of items that tell what they are in front of a comma or of what closes the list.

section

variable {α : Type} {text : α → String} {close : Char} {P : α → Prop}

-- What follows the first item of a list.
def more (text : α → String) : List α → List Char
  | [] => []
  | a :: as => ',' :: ' ' :: ((text a).toList ++ more text as)

theorem toList_intercalate_cons (a : α) (as : List α) :
    (", ".intercalate ((a :: as).map text)).toList = (text a).toList ++ more text as := by
  rw [List.map_cons, toList_intercalate]
  congr 1
  induction as
  case nil => rfl
  case cons a as hi =>
    rw [List.map_cons, List.flatMap_cons, hi, List.append_assoc]
    rfl

end

-- Texts in which what ends them stands between quotes only.

inductive Closed : List Char → Prop
  | nil : Closed []
  | plain {c cs} (quote : c ≠ '"') (paren : c ≠ ')') : Closed cs → Closed (c :: cs)
  | quoted {s cs} : Closed cs → Closed ('"' :: (Quoted.encode s ++ '"' :: cs))

namespace Closed

theorem append {v w : List Char} (hv : Closed v) (hw : Closed w) : Closed (v ++ w) := by
  induction hv
  case nil => exact hw
  case plain hq hp _ hi => exact .plain hq hp hi
  case quoted hi => simpa using Closed.quoted hi

end Closed

end Decoding

end GraphSchema
