import GraphSchema.Proofs.Constant.Reading
import GraphSchema.Proofs.Enum.Bare

namespace GraphSchema

open Outcome

-- A quote, and characters up to the next quote that is not escaped, with which the text ends.
def IsQuoted (t : String) : Prop :=
  ∃ w s, t.toList = '"' :: w ∧ Quoted.decode? w = some (s, [])

theorem isQuoted_quote (s : String) : IsQuoted (quote s) :=
  ⟨Quoted.encode s.toList ++ ['"'], s.toList, toList_quote s, Quoted.decode?_encode⟩

theorem IsQuoted.writes {t : String} (h : IsQuoted t) :
    ∃ s, Constant.Writes t.toList (.text s) := by
  obtain ⟨w, s, ht, hs⟩ := h
  -- Where a block string begins, a text that is not one ends too early.
  have single (r : List Char) : w ≠ '"' :: '"' :: r := by
    rintro rfl
    cases hs
  have read : Token.read? ('"' :: (w ++ [])) = some (.text (String.ofList s), []) := by
    rw [List.append_nil, Token.read?_text single, hs]
    rfl
  have lexes := Token.lexes_read (by decide) read
  refine ⟨String.ofList s, [.text (String.ofList s)], ?_, .text⟩
  rw [Token.Lexes, List.append_nil, ← ht] at lexes
  exact lexes

-- Neither null nor made of other constants.
def Constant.IsLeaf : Constant → Prop
  | null | list _ | object _ => False
  | bool _ | enum _ | number _ | text _ => True

theorem Constant.isLeaf_ofName {s : String} (h : s ≠ "null") : (ofName s).IsLeaf := by
  unfold ofName
  rw [if_neg h]
  split_ifs <;> trivial

namespace Scalar

def IsLiteral (k : Scalar) (t : String) : Prop :=
  match k with
  | id | string | email | url | ipAddress | phoneNumber | date | dateTime => IsQuoted t
  | int | bigInt => Decimal.IsInteger t.toList
  | float | decimal => Decimal.IsNumber t.toList
  | boolean => t = "true" ∨ t = "false"
  | timestamp => Decimal.IsInteger t.toList ∨ IsQuoted t
  | json => ∃ c, Constant.Writes t.toList c

variable {k : Scalar} {v : Value} {t : String}

-- All these literals are constants.
theorem IsLiteral.exists_writes (h : k.IsLiteral t) : ∃ c, Constant.Writes t.toList c := by
  have number (h : Decimal.IsNumber t.toList) : ∃ c, Constant.Writes t.toList c :=
    have ⟨_, h⟩ := Constant.exists_reads_of_isNumber h
    ⟨_, h.writes⟩
  have quoted (h : IsQuoted t) : ∃ c, Constant.Writes t.toList c :=
    have ⟨_, h⟩ := h.writes
    ⟨_, h⟩
  cases k
  case id | string | email | url | ipAddress | phoneNumber | date | dateTime => exact quoted h
  case int | bigInt => exact number (.inl h)
  case float | decimal => exact number h
  case boolean =>
    rcases h with rfl | rfl
    · exact ⟨_, (Constant.reads_name (t := "true") (by decide)).writes⟩
    · exact ⟨_, (Constant.reads_name (t := "false") (by decide)).writes⟩
  case timestamp => exact h.elim (fun h => number (.inl h)) quoted
  case json => exact h

theorem not_isLiteral_of_unread (h : Constant.Unread t) : ¬ k.IsLiteral t := fun hl =>
  have ⟨c, hc⟩ := hl.exists_writes
  h.not_writes c hc

-- What a scalar other than JSON is written as.
inductive Written (k : Scalar) (r : Value.Reading) (v : Value) : Prop
  | read {t : String} {c : Constant} (named : v.isNamed = false)
      (literal : v.literal r false = .ok t) (isLiteral : k.IsLiteral t)
      (reads : Constant.Reads t c) (leaf : c.IsLeaf)
  | unread {t : String} (named : v.isNamed) (literal : v.literal r false = .ok t)
      (unread : Constant.Unread t)

namespace Written

variable {r : Value.Reading}

theorem quoted {s : String} (hn : v.isNamed = false) (hv : v.literal r false = .ok (quote s))
    (hk : IsQuoted (quote s) → k.IsLiteral (quote s)) : k.Written r v :=
  .read hn hv (hk (isQuoted_quote s)) (Constant.reads_quote s) trivial

theorem number (hn : v.isNamed = false) (hv : v.literal r false = .ok t)
    (h : Decimal.IsNumber t.toList) (hk : k.IsLiteral t) : k.Written r v :=
  have ⟨_, hr⟩ := Constant.exists_reads_of_isNumber h
  .read hn hv hk hr trivial

theorem int (n : Int) (hk : Decimal.IsInteger (toString n).toList → k.IsLiteral (toString n)) :
    k.Written r (.int n) :=
  have h := Decimal.isInteger_toString n
  number rfl rfl (.inl h) (hk h)

-- Members of a class are written by their names or like any other number.
theorem labelled {n : Number} {l : Label} (h : Decimal.IsNumber n.toText.toList)
    (hk : k.IsLiteral n.toText) : k.Written r (.labelled n l) := by
  cases hs : l.scope
  case none =>
    have text : l.text n = n.toText := by rw [Label.text, hs]
    refine number ?_ (congrArg Except.ok text) h hk
    rw [Value.isNamed, hs]
    rfl
  case some s =>
    have text : l.text n = s ++ "." ++ l.name := by rw [Label.text, hs]
    refine .unread ?_ (congrArg Except.ok text) (.dotted (l.words.right s hs))
    rw [Value.isNamed, hs]
    rfl

end Written

theorem written_of_accepts (r : Value.Reading) (hj : k ≠ .json) (h : k.accepts v) :
    k.Written r v := by
  cases k
  case id | string | email | url | ipAddress | phoneNumber =>
    cases v
    case text s => exact .quoted rfl rfl fun h => h
    all_goals exact nomatch h
  case int | bigInt =>
    cases v
    case int n => exact .int n fun h => h
    case labelled n l =>
      cases n
      case int n =>
        have hn := Decimal.isInteger_toString n
        exact .labelled (.inl hn) hn
      all_goals exact nomatch h
    all_goals exact nomatch h
  case float | decimal =>
    cases v
    case int n => exact .int n .inl
    case float x =>
      have hx := Double.isNumber_toText h
      exact .number rfl rfl hx hx
    case decimal d =>
      have hd := (Number.decimal d).isNumber_toText h
      exact .number rfl rfl hd hd
    case labelled n l =>
      have hn := n.isNumber_toText h
      exact .labelled hn hn
    all_goals exact nomatch h
  case boolean =>
    cases v
    case bool b =>
      cases b
      case true =>
        exact .read rfl rfl (.inl rfl) (Constant.reads_name (t := "true") (by decide)) trivial
      case false =>
        exact .read rfl rfl (.inr rfl) (Constant.reads_name (t := "false") (by decide)) trivial
    all_goals exact nomatch h
  case date | dateTime =>
    cases v
    case text | date | dateTime => exact .quoted rfl rfl fun h => h
    all_goals exact nomatch h
  case timestamp =>
    cases v
    case int n => exact .int n .inl
    case labelled n l =>
      cases n
      case int n =>
        have hn := Decimal.isInteger_toString n
        exact .labelled (.inl hn) (.inl hn)
      all_goals exact nomatch h
    case text | dateTime => exact .quoted rfl rfl .inr
    all_goals exact nomatch h
  case json => exact absurd rfl hj

-- A literal of the class is what a value gets exactly if no number in it is written by its name.
theorem exists_literal_of_accepts (r : Value.Reading) (h : k.accepts v)
    (hk : k = .json → ∀ n ∈ v.keys, IsWord n) :
    ∃ t, v.literal r false = .ok t ∧ (k.IsLiteral t ↔ ¬ v.isNamed) := by
  by_cases hj : k = .json
  case pos =>
    subst hj
    obtain ⟨t, ht, hs⟩ := Value.exists_shown (r := r) v h (hk rfl)
    refine ⟨t, ht, ?_⟩
    generalize v.isNamed = named at hs
    cases hs
    case read c hc => exact iff_of_true ⟨c, hc.writes⟩ Bool.false_ne_true
    case unread hu => exact iff_of_false (not_isLiteral_of_unread hu) fun h => h rfl
  case neg =>
    rcases written_of_accepts r hj h with ⟨named, ht, hl, _, _⟩ | ⟨named, ht, hu⟩
    case read => exact ⟨_, ht, iff_of_true hl (named ▸ Bool.false_ne_true)⟩
    case unread => exact ⟨_, ht, iff_of_false (not_isLiteral_of_unread hu) fun h => h named⟩

end Scalar

namespace Value

variable {r : Reading} {bare : Bool} {xs : List Value} {ls : List String}

theorem literals_eq_mapM (xs : List Value) : literals r bare xs = xs.mapM (literal r bare) := by
  induction xs
  case nil => rfl
  case cons x xs hi => simp only [literals, List.mapM_cons, hi]

theorem literal_sequence_eq_ok {v : Value} {l : String} (hv : v = .list xs ∨ v = .tuple xs) :
    literal r bare v = .ok l ↔
      ∃ ls, literals r bare xs = .ok ls ∧ l = "[" ++ ", ".intercalate ls ++ "]" := by
  have pure (ls : List String) :
      ((pure ("[" ++ ", ".intercalate ls ++ "]") : Except Error String) = .ok l) ↔
        l = "[" ++ ", ".intercalate ls ++ "]" := pure_eq_ok.trans eq_comm
  rcases hv with rfl | rfl <;>
    exact bind_eq_ok.trans (exists_congr fun ls => and_congr_right fun _ => pure ls)

theorem keys_of_sequence {v x : Value} (hv : v = .list xs ∨ v = .tuple xs) (hx : x ∈ xs)
    {k : String} (hk : k ∈ x.keys) : k ∈ v.keys := by
  rcases hv with rfl | rfl <;> exact mem_listKeys.mpr ⟨x, hx, hk⟩

end Value

theorem Shape.exists_literal_of_acceptsItem {s : Shape} {k : Scalar} {x : Value}
    (r : Value.Reading) (hb : s.base = .scalar k) (h : s.acceptsItem x)
    (hk : k = .json → ∀ n ∈ x.keys, IsWord n) : ∃ l, x.literal r false = .ok l ∧
      (x = .null ∧ l = "null" ∨ x ≠ .null ∧ (k.IsLiteral l ↔ ¬ x.isNamed)) := by
  by_cases hx : x = .null
  case pos =>
    subst hx
    exact ⟨"null", rfl, .inl ⟨rfl, rfl⟩⟩
  case neg =>
    have ha := (acceptsItem_iff.mp h).resolve_left fun h => hx h.left
    rw [hb] at ha
    have ⟨l, hl, hc⟩ := Scalar.exists_literal_of_accepts r ha hk
    exact ⟨l, hl, .inr ⟨hx, hc⟩⟩

namespace Store

variable {σ τ : Store} {s : ShapeId} {k : Scalar} {v : Value}

theorem perform_literal {bare : Bool} {t : String}
    (h : (σ.settle v).literal σ.reading bare = .ok t) :
    σ.perform (.literal v (.bool bare)) = (.ok (.text t), σ) := by
  have hp : σ.plan (.literal v (.bool bare)) = .ok (.say (.text t)) := by
    simp only [plan, literalOf, sayText, isTrue_bool, h]
    rfl
  rw [perform_of_plan hp]
  rfl

-- What is accepted as the default of a scalar is written then, and as long as the lists in it are
-- the same. The literal is of the class of the scalar exactly if no number is written by its name
-- in it; a list is written as the list of such literals, where null stands for nothing.
theorem isLiteral_iff_of_suits (hs : (σ.outline s).base = .scalar k)
    (hv : Succeeds (σ.plan (.checkDefault (.object (.shape s)) v)))
    (same : τ.settle v = σ.settle v)
    (hk : k = .json → ∀ n ∈ (σ.settle v).keys, Name.InGrammar n) :
    ((σ.shape s).isList = false → ∃ t,
      τ.perform (.literal v (.bool false)) = (.ok (.text t), τ) ∧
      (k.IsLiteral t ↔ ¬ (σ.settle v).isNamed)) ∧
    ((σ.shape s).isList → ∀ xs, σ.settle v = .list xs ∨ σ.settle v = .tuple xs → ∃ ls,
      τ.perform (.literal v (.bool false)) =
        (.ok (.text ("[" ++ ", ".intercalate ls ++ "]")), τ) ∧
      List.Forall₂ (fun x l => x = .null ∧ l = "null" ∨
        x ≠ .null ∧ (k.IsLiteral l ↔ ¬ x.isNamed)) xs ls) := by
  have hb : (σ.shape s).base = .scalar k := hs
  have ⟨_, _, ha⟩ := Shape.accepts_iff.mp (suits_default_iff.mp hv)
  have word (hj : k = .json) (n : String) (hn : n ∈ (σ.settle v).keys) : IsWord n :=
    Name.inGrammar_iff.mp (hk hj n hn)
  refine ⟨fun hl => ?single, fun hl xs hxs => ?list⟩
  case single =>
    rw [hl, if_neg Bool.false_ne_true, hb] at ha
    have ⟨t, ht, hc⟩ := Scalar.exists_literal_of_accepts τ.reading ha word
    exact ⟨t, perform_literal (same ▸ ht), hc⟩
  case list =>
    rw [if_pos hl] at ha
    obtain ⟨ys, hy, ha⟩ := ha
    obtain rfl : xs = ys := by
      rcases hxs with h | h <;> rw [h] at hy <;> exact Option.some.inj hy
    have item {x : Value} (hx : x ∈ xs) :=
      Shape.exists_literal_of_acceptsItem τ.reading hb (ha x hx) fun hj n hn =>
        word hj n (Value.keys_of_sequence hxs hx hn)
    have ⟨ls, hls⟩ : Succeeds (Value.literals τ.reading false xs) :=
      Value.succeeds_literals.mpr fun x hx => (item hx).imp fun _ h => h.left
    refine ⟨ls, perform_literal ?_, ?_⟩
    · rw [same]
      exact (Value.literal_sequence_eq_ok hxs).mpr ⟨ls, hls, rfl⟩
    · have each := forall₂_of_mapM (Value.literals_eq_mapM xs ▸ hls)
      refine ((List.forall₂_and_left _ _).mpr ⟨fun _ => id, each⟩).imp fun x l ⟨hx, hl⟩ => ?_
      have ⟨_, hl', h⟩ := item hx
      cases hl.symm.trans hl'
      exact h

def priced : List Call :=
  [.shape (.scalar .json) (.bool false) (.bool true) (.bool true)]

theorem isLiteral_of_priced :
    let σ := ({} : Store).run priced
    let v := Value.list [.dict [(.text "price", .float ⟨0x3FF8000000000000⟩)], .null]
    ∃ l, Scalar.json.IsLiteral l ∧ σ.perform (.literal v (.bool false)) =
      (.ok (.text ("[" ++ ", ".intercalate [l, "null"] ++ "]")), σ) := by
  intro σ v
  have hv : Succeeds (σ.plan (.checkDefault (.object (.shape 0)) v)) := ⟨_, rfl⟩
  have hk : ∀ n ∈ (σ.settle v).keys, Name.InGrammar n := fun n hn =>
    Name.inGrammar_iff.mpr (List.mem_singleton.mp hn ▸ by decide)
  have ⟨_, h⟩ := isLiteral_iff_of_suits (s := 0) (k := .json) rfl hv rfl fun _ => hk
  have ⟨ls, hl, each⟩ := h rfl _ (.inl rfl)
  obtain ⟨l, _, hf, tail, rfl⟩ := List.forall₂_cons_left_iff.mp each
  obtain ⟨_, _, hn, last, rfl⟩ := List.forall₂_cons_left_iff.mp tail
  obtain rfl := List.forall₂_nil_left_iff.mp last
  obtain ⟨_, rfl⟩ := hn.resolve_right fun h => h.left rfl
  have literal := (hf.resolve_left nofun).right.mpr Bool.false_ne_true
  exact ⟨l, literal, hl⟩

-- The member LOW, worth 1, of a class of numbers P.
def low : Value := .labelled (.int 1) ⟨"P", "LOW", "<P.LOW: 1>", some "P", by decide⟩

def listedInts : List Call :=
  [.leaf (.scalar .int) (.bool false), .list (.field 0), .ruleSet, .allow (.ruleSet 0) .signedIn]

-- A member of a class is written by its name, and a list of operations is written with items that
-- it got after it was accepted.
theorem not_isLiteral_of_suits :
    (¬ ∀ (cs : List Call) (s : ShapeId) (k : Scalar) (v : Value), let σ := ({} : Store).run cs
      (σ.outline s).base = .scalar k → (σ.shape s).isList = false →
      Succeeds (σ.plan (.checkDefault (.object (.shape s)) v)) →
      ∃ t, σ.perform (.literal v (.bool false)) = (.ok (.text t), σ) ∧ k.IsLiteral t) ∧
    ¬ ∀ (cs more : List Call) (s : ShapeId) (k : Scalar) (v : Value) (xs : List Value),
      let σ := ({} : Store).run cs
      let τ := σ.run more
      (σ.outline s).base = .scalar k → (σ.shape s).isList →
      Succeeds (σ.plan (.checkDefault (.object (.shape s)) v)) → τ.settle v = .list xs →
      ∃ ls, τ.perform (.literal v (.bool false)) =
          (.ok (.text ("[" ++ ", ".intercalate ls ++ "]")), τ) ∧
        List.Forall₂ (fun x l => x = .null ∧ l = "null" ∨ x ≠ .null ∧ k.IsLiteral l) xs ls := by
  constructor
  case left =>
    intro h
    obtain ⟨t, ht, hl⟩ := h [.shape (.scalar .int) (.bool false) (.bool false) (.bool false)] 0 .int
      low rfl rfl ⟨_, rfl⟩
    cases ht
    have named : Constant.Unread ("P" ++ "." ++ "LOW") := .dotted (by decide)
    exact Scalar.not_isLiteral_of_unread (k := .int) named hl
  case right =>
    intro h
    obtain ⟨ls, ht, each⟩ := h listedInts [.narrow (.object (.rule 0)) .read] 0 .int
      (.object (.operations 0)) _ rfl rfl ⟨_, rfl⟩ rfl
    obtain ⟨l, _, hl, last, rfl⟩ := List.forall₂_cons_left_iff.mp each
    obtain rfl := List.forall₂_nil_left_iff.mp last
    have whole : Decimal.IsInteger l.toList := (hl.resolve_left nofun).right
    have text : "[" ++ l ++ "]" = "[" ++ quote "read" ++ "]" :=
      (Value.text.inj (Except.ok.inj (congrArg Prod.fst ht))).symm
    obtain rfl : l = quote "read" := by simpa [← String.toList_inj] using text
    have ⟨_, number⟩ := Constant.exists_reads_of_isNumber (.inl whole)
    have parsed := Constant.parse?_eq_some_iff.mpr (Constant.reads_quote "read").writes
    exact nomatch parsed.symm.trans (Constant.parse?_eq_some_iff.mpr number.writes)

end Store

end GraphSchema
