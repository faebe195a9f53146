import GraphSchema.Proofs.Constant.Grammar
import GraphSchema.Proofs.Constant.Number
import GraphSchema.Proofs.Constant.Quoted
import GraphSchema.Proofs.Outcome
import GraphSchema.Call.Basic

namespace GraphSchema

namespace Token

variable {w w' rest : List Char} {ts ts' : List Token} {t : Token}

-- A text is read as these words, and what follows it is read on its own.
def Lexes (w : List Char) (ts : List Token) (rest : List Char) : Prop :=
  tokens? (w ++ rest) = (tokens? rest).map (ts ++ ·)

theorem Lexes.nil : Lexes [] [] rest := by simp [Lexes]

theorem Lexes.append (h : Lexes w ts (w' ++ rest)) (h' : Lexes w' ts' rest) :
    Lexes (w ++ w') (ts ++ ts') rest := by
  simp only [Lexes] at h h' ⊢
  rw [List.append_assoc, h, h', Option.map_map]
  congr 1
  funext us
  simp

theorem lexes_of_turn (found : Option Token) (hw : w ≠ [])
    (h : turn? (w ++ rest) = some (.take found rest)) : Lexes w found.toList rest := by
  rw [Lexes, tokens?, tokens?, Scan.scan_take hw h]
  cases scan turn? 0 rest <;> rfl

theorem lexes_ignored {c : Char} (h : isIgnored c) : Lexes [c] [] rest :=
  lexes_of_turn none nofun (by simp [turn?, h])

-- No word goes on there.
def Ends (rest : List Char) : Prop :=
  ∀ c ∈ rest.head?, Name.isPart c = false ∧ c ≠ '.' ∧ c ≠ '"'

variable {c : Char} {cs : List Char}

-- Where no text begins and nothing opens or closes, there is a name or a number.
theorem read?_word (h : Name.isStart c ∨ c.isDigit ∨ c = '-') :
    read? (c :: cs) = if Name.isStart c then
        some (name (String.ofList ((c :: cs).takeWhile Name.isPart)), cs.dropWhile Name.isPart)
      else (Decimal.number? (c :: cs)).map fun (q, rest) => (number q, rest) := by
  unfold read?
  split
  case h_1 he => cases he
  case h_9 he =>
    cases he
    cases Decimal.number? (c :: cs) <;> rfl
  all_goals
    next he =>
      cases he
      exact absurd h (by decide)

theorem read?_name (h : Name.isStart c) :
    read? (c :: cs) = some (name (String.ofList ((c :: cs).takeWhile Name.isPart)),
      cs.dropWhile Name.isPart) := by
  rw [read?_word (.inl h), if_pos h]

theorem isStart_eq_false_of_isDigit (h : c.isDigit) : Name.isStart c = false := by
  by_cases hc : c = '_'
  case pos => subst hc; exact nomatch h
  case neg =>
    delta Char.isDigit at h
    delta Name.isStart Char.isAlpha Char.isUpper Char.isLower
    grind

theorem read?_number (h : c.isDigit ∨ c = '-') :
    read? (c :: cs) = (Decimal.number? (c :: cs)).map fun (q, rest) => (number q, rest) := by
  have hs : ¬ Name.isStart c := by
    rcases h with h | rfl
    · simp [isStart_eq_false_of_isDigit h]
    · decide
  rw [read?_word (.inr h), if_neg hs]

theorem read?_text (h : ∀ r, cs ≠ '"' :: '"' :: r) :
    read? ('"' :: cs) =
      (Quoted.decode? cs).map fun (s, rest) => (text (String.ofList s), rest) := by
  unfold read?
  split
  case h_8 he =>
    cases he
    cases Quoted.decode? cs <;> rfl
  case h_7 he =>
    cases he
    exact absurd rfl (h _)
  case h_9 hq he =>
    cases he
    exact (hq rfl).elim
  case h_1 he => exact nomatch he
  all_goals
    next he => cases he

-- What a word can begin with is not passed over.
theorem not_isIgnored (h : Name.isStart c ∨ c.isDigit ∨ c = '-' ∨ c = '"') :
    ¬ (isIgnored c ∨ c = '#') := by
  intro hi
  simp only [isIgnored, Quoted.isLineEnd, Bool.or_eq_true, beq_iff_eq] at hi
  rcases hi with (((((rfl | rfl) | rfl | rfl) | rfl) | rfl) | rfl) <;> exact absurd h (by decide)

theorem lexes_read (hc : ¬ (isIgnored c ∨ c = '#'))
    (h : read? (c :: (cs ++ rest)) = some (t, rest)) : Lexes (c :: cs) [t] rest := by
  have ⟨hi, hc⟩ := not_or.mp hc
  refine lexes_of_turn t nofun ?_
  simp [turn?, hi, hc, h]

theorem lexes_word {s : String} (hs : Name.isWord s.toList)
    (hr : ∀ c ∈ rest.head?, Name.isPart c = false) : Lexes s.toList [name s] rest := by
  have ha := List.all_eq_true.mp (Name.all_isPart hs)
  cases hcs : s.toList
  case nil => simp [hcs, Name.isWord] at hs
  case cons c cs =>
    rw [hcs] at hs ha
    have hc : Name.isStart c := (Bool.and_eq_true_iff.mp hs).left
    refine lexes_read (not_isIgnored (.inl hc)) ?_
    rw [read?_name hc, ← List.cons_append, Scan.takeWhile_append ha hr, ← hcs, String.ofList_toList,
      Scan.dropWhile_append (List.forall_mem_cons.mp ha).right hr]

theorem lexes_name {s : String} (hs : Name.isWord s.toList) (h : Ends rest) :
    Lexes s.toList [name s] rest := lexes_word hs fun c hc => (h c hc).left

theorem Ends.endsBefore (h : Ends rest) : Decimal.endsBefore rest := by
  cases rest
  case nil => rfl
  case cons c cs =>
    have ⟨hc, hd, _⟩ := h c rfl
    simp [Decimal.endsBefore, hc, hd]

theorem lexes_number {q : ℚ} (hs : Decimal.Spells w q) (h : Ends rest) :
    Lexes w [number q] rest := by
  obtain ⟨c, cs, rfl, hc⟩ := hs.head
  refine lexes_read (not_isIgnored (.inr (hc.imp_right .inl))) ?_
  rw [read?_number hc, ← List.cons_append, hs.read rest h.endsBefore]
  rfl

-- A string that is empty ends there, so that no block string begins.
theorem lexes_text {s : String} (h : Ends rest) : Lexes (quote s).toList [text s] rest := by
  have hd : Quoted.decode? (Quoted.encode s.toList ++ ('"' :: rest)) = some (s.toList, rest) :=
    Quoted.decode?_encode
  have hb : ∀ r, Quoted.encode s.toList ++ ('"' :: rest) ≠ '"' :: '"' :: r := by
    intro r he
    cases hs : s.toList
    case nil =>
      rw [hs] at he
      cases he
      exact (h '"' rfl).right.right rfl
    case cons c cs =>
      have ⟨a, as, ha, hq⟩ := Quoted.escape_eq_cons c
      simp only [hs, Quoted.encode_cons, ha, List.cons_append, List.cons.injEq] at he
      exact hq he.left
  rw [toList_quote]
  refine lexes_read (not_isIgnored (by decide)) ?_
  rw [List.append_assoc, List.singleton_append, read?_text hb, hd]
  simp

-- In a list of texts the commas and blanks are passed over.
theorem lexes_intercalate_cons {s : String} {l : List String}
    (hs : ∀ rest, Ends rest → Lexes s.toList ts rest)
    (hl : ∀ rest, Ends rest → Lexes (", ".intercalate l).toList ts' rest) (h : Ends rest) :
    Lexes (", ".intercalate (s :: l)).toList (ts ++ ts') rest := by
  cases l
  case nil => simpa using (hs rest h).append (hl rest h)
  case cons s' l =>
    rw [String.intercalate_cons_cons, String.toList_append, String.toList_append, List.append_assoc]
    have he : Ends (", ".toList ++ (", ".intercalate (s' :: l)).toList ++ rest) := by
      rintro _ ⟨⟩
      decide
    have hg : ∀ rest, Lexes ", ".toList [] rest := fun rest =>
      (lexes_ignored (c := ',') rfl).append (lexes_ignored (c := ' ') rfl)
    exact (hs _ he).append ((hg _).append (hl rest h))

theorem lexes_list (hw : ∀ rest, Ends rest → Lexes w ts rest) :
    Lexes ('[' :: (w ++ [']'])) (.listOpen :: (ts ++ [.listClose])) rest :=
  have ho : ∀ rest, Lexes ['['] [.listOpen] rest := fun _ => lexes_read (by decide) rfl
  have hc : Lexes [']'] [.listClose] rest := lexes_read (by decide) rfl
  (ho _).append ((hw _ (by rintro _ ⟨⟩; decide)).append hc)

theorem lexes_object (hw : ∀ rest, Ends rest → Lexes w ts rest) :
    Lexes ('\x7b' :: (w ++ ['\x7d'])) (.objectOpen :: (ts ++ [.objectClose])) rest :=
  have ho : ∀ rest, Lexes ['\x7b'] [.objectOpen] rest := fun _ => lexes_read (by decide) rfl
  have hc : Lexes ['\x7d'] [.objectClose] rest := lexes_read (by decide) rfl
  (ho _).append ((hw _ (by rintro _ ⟨⟩; decide)).append hc)

theorem lexes_field {k t : String} (hk : Name.isWord k.toList) (ht : Lexes t.toList ts rest) :
    Lexes (k ++ ": " ++ t).toList (.name k :: .colon :: ts) rest := by
  have hc : ∀ rest, Lexes [':'] [.colon] rest := fun _ => lexes_read (by decide) rfl
  have hb : ∀ rest, Lexes [' '] [] rest := fun _ => lexes_ignored rfl
  have hw : Lexes (':' :: ' ' :: t.toList) (.colon :: ts) rest := (hc _).append ((hb _).append ht)
  simpa using (lexes_name hk (by rintro _ ⟨⟩; decide)).append hw

end Token

namespace Value

open Token Outcome

mutual

theorem Means.lexes {v : Value} {c : Constant} (r : Reading) : Means v c →
    ∃ t ts, literal r false v = .ok t ∧ Derives ts c ∧ ∀ rest, Ends rest → Lexes t.toList ts rest
  | .null => ⟨_, _, rfl, .name, fun _ h => lexes_name (by decide) h⟩
  | .bool (b := true) => ⟨_, _, rfl, .name, fun _ h => lexes_name (by decide) h⟩
  | .bool (b := false) => ⟨_, _, rfl, .name, fun _ h => lexes_name (by decide) h⟩
  | .int => ⟨_, _, rfl, .number, fun _ h => lexes_number (Decimal.spells_int _) h⟩
  | .decimal => ⟨_, _, rfl, .number, fun _ h => lexes_number (Decimal.spells_toText ..) h⟩
  | .text => ⟨_, _, rfl, .text, fun _ h => lexes_text h⟩
  | .list hs | .tuple hs =>
    have ⟨_, _, hl, hd, hx⟩ := hs.lexes r
    ⟨_, _, bind_eq_ok.mpr ⟨_, hl, rfl⟩, .list hd, fun _ _ => by simpa using lexes_list hx⟩
  | .dict hs =>
    have ⟨_, _, hl, hd, hx⟩ := hs.lexes r
    ⟨_, _, bind_eq_ok.mpr ⟨_, hl, rfl⟩, .object hd, fun _ _ => by simpa using lexes_object hx⟩

theorem MeansAll.lexes {xs : List Value} {cs : List Constant} (r : Reading) : MeansAll xs cs →
    ∃ l ts, literals r false xs = .ok l ∧ DerivesItems ts cs ∧
      ∀ rest, Ends rest → Lexes (", ".intercalate l).toList ts rest
  | .nil => ⟨_, _, rfl, .nil, fun _ _ => .nil⟩
  | .cons h hs =>
    have ⟨_, _, ht, hd, hx⟩ := h.lexes r
    have ⟨_, _, hl, hds, hxs⟩ := hs.lexes r
    ⟨_, _, bind_eq_ok.mpr ⟨_, ht, bind_eq_ok.mpr ⟨_, hl, rfl⟩⟩, .cons hd hds,
      fun _ => lexes_intercalate_cons hx hxs⟩

theorem MeansFields.lexes {es : List (Value × Value)} {fs : List (String × Constant)}
    (r : Reading) : MeansFields es fs →
    ∃ l ts, literalEntries r false es = .ok l ∧ DerivesFields ts fs ∧
      ∀ rest, Ends rest → Lexes (", ".intercalate l).toList ts rest
  | .nil => ⟨_, _, rfl, .nil, fun _ _ => .nil⟩
  | .cons hk h hs =>
    have ⟨_, _, ht, hd, hx⟩ := h.lexes r
    have ⟨_, _, hl, hds, hxs⟩ := hs.lexes r
    ⟨_, _, bind_eq_ok.mpr ⟨_, ht, bind_eq_ok.mpr ⟨_, rfl, bind_eq_ok.mpr ⟨_, hl, rfl⟩⟩⟩,
      .cons hd hds, fun _ => lexes_intercalate_cons (fun _ h => lexes_field hk (hx _ h)) hxs⟩

end

-- A value that holds no objects is printed as it is.

mutual

theorem Means.settle {own : Ref → Option (List Value)} {v : Value} {c : Constant} :
    Means v c → settle own v = v
  | .null | .bool | .int | .decimal | .text => rfl
  | .list h => congrArg Value.list h.settleAll
  | .tuple h => congrArg Value.tuple h.settleAll
  | .dict h => congrArg Value.dict h.settleEntries

theorem MeansAll.settleAll {own : Ref → Option (List Value)} {xs : List Value}
    {cs : List Constant} : MeansAll xs cs → settleAll own xs = xs
  | .nil => rfl
  | .cons h hs => by rw [Value.settleAll, h.settle, hs.settleAll]

theorem MeansFields.settleEntries {own : Ref → Option (List Value)} {es : List (Value × Value)}
    {fs : List (String × Constant)} : MeansFields es fs → settleEntries own es = es
  | .nil => rfl
  | .cons _ h hs => by rw [Value.settleEntries, h.settle, hs.settleEntries]; rfl

end

end Value

namespace Store

theorem parse?_literal (σ : Store) {v : Value} {c : Constant} (h : v.Means c) :
    v.isConstant ∧ ∃ t, σ.perform (.literal v (.bool false)) = (.ok (.text t), σ) ∧
      Constant.Writes t.toList c ∧ Constant.parse? t = some c := by
  have ⟨t, ts, ht, hd, hx⟩ := h.lexes σ.reading
  have hw : Constant.Writes t.toList c := by
    refine ⟨ts, ?_, hd⟩
    have hx := hx [] nofun
    rw [Token.Lexes, List.append_nil, show tokens? [] = some [] from rfl] at hx
    simpa using hx
  refine ⟨h.isConstant, t, ?_, hw, Constant.parse?_eq_some_iff.mpr hw⟩
  have hp : σ.plan (.literal v (.bool false)) = .ok (.say (.text t)) := by
    simp only [plan, literalOf, sayText, settle, h.settle, isTrue, Value.isTrue, ht]
    rfl
  rw [perform_of_plan hp]
  rfl

theorem parse?_literal_nested :
    let v := Value.dict
      [(.text "a", .list [.int (-3), .decimal (.finite true 15 (-8)), .bool true]),
        (.text "b", .tuple [.text "\"], \x7d😀", .null, .dict []])]
    let c := Constant.object
      [("a", .list [.number (-3 : Int), .number (Decimal.rational true 15 (-8)), .bool true]),
        ("b", .list [.text "\"], \x7d😀", .null, .object []])]
    v.Means c ∧ v.isConstant ∧
      ∃ t, ({} : Store).perform (.literal v (.bool false)) = (.ok (.text t), {}) ∧
        Constant.Writes t.toList c ∧ Constant.parse? t = some c := by
  intro v c
  have h : v.Means c :=
    .dict (.cons (by decide) (.list (.cons .int (.cons .decimal (.cons .bool .nil))))
      (.cons (by decide) (.tuple (.cons .text (.cons .null (.cons (.dict .nil) .nil)))) .nil))
  exact ⟨h, parse?_literal {} h⟩

end Store

end GraphSchema
