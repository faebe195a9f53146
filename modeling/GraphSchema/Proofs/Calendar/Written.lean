import GraphSchema.Proofs.Calendar.Clock
import GraphSchema.Proofs.Constant.Number

namespace GraphSchema

namespace Iso

open Bytes

variable {b w ds : Bytes} {p n width : Nat}

@[simp]
theorem utf8_nil : utf8 [] = [] := rfl

theorem utf8_append (cs ds : List Char) : utf8 (cs ++ ds) = utf8 cs ++ utf8 ds :=
  List.flatMap_append

theorem utf8_cons (c : Char) (cs : List Char) :
    utf8 (c :: cs) = String.utf8EncodeChar c ++ utf8 cs := rfl

theorem utf8_colon (cs : List Char) : utf8 (':' :: cs) = colon :: utf8 cs := rfl

-- Numbers in fields of a fixed width.

theorem exists_digit {c : Char} (h : c.isDigit) :
    ∃ x, String.utf8EncodeChar c = [x] ∧ isDigit x ∧ x.toNat = c.toNat := by
  have hc : 48 ≤ c.toNat ∧ c.toNat ≤ 57 := by
    simpa [Char.isDigit, UInt32.le_iff_toNat_le] using h
  have small : c.utf8Size = 1 := by
    rw [Char.utf8Size_eq_one_iff, UInt32.le_iff_toNat_le]
    exact Nat.le_trans hc.right (by decide)
  have e : c.toUInt8.toNat = c.toNat :=
    (UInt32.toNat_toUInt8 c.val).trans (Nat.mod_eq_of_lt (Nat.lt_of_le_of_lt hc.right (by decide)))
  refine ⟨c.toUInt8, String.utf8EncodeChar_eq_singleton small, ?_, e⟩
  simpa [isDigit, UInt8.le_iff_toNat_le, e] using hc

-- So many digits, which are those of a number.
structure IsFigure (width n : Nat) (ds : Bytes) : Prop where
  length : ds.length = width
  digits : AllDigits ds
  value : valueOf ds = n

theorem isFigure_utf8 {cs : List Char} (h : ∀ c ∈ cs, c.isDigit) :
    IsFigure cs.length (Decimal.value cs) (utf8 cs) := by
  suffices ∀ v, (utf8 cs).length = cs.length ∧ AllDigits (utf8 cs) ∧
      (utf8 cs).foldl (fun v d => 10 * v + (d.toNat - 0x30)) v = Nat.ofDigitChars 10 cs v from
    have ⟨hl, hd, hv⟩ := this 0
    ⟨hl, hd, hv⟩
  induction cs
  case nil => exact fun v => ⟨rfl, nofun, rfl⟩
  case cons c cs hi =>
    intro v
    have ⟨hc, hcs⟩ := List.forall_mem_cons.mp h
    have ⟨x, e, hx, hn⟩ := exists_digit hc
    have ⟨hl, hd, hv⟩ := hi hcs (10 * v + (x.toNat - 0x30))
    rw [utf8_cons, e]
    refine ⟨congrArg (· + 1) hl, List.forall_mem_cons.mpr ⟨hx, hd⟩, hv.trans ?_⟩
    rw [Nat.ofDigitChars_cons, hn]
    rfl

theorem isDigit_of_mem_padded {c : Char} (hc : c ∈ padded width n) : c.isDigit := by
  rcases List.mem_append.mp hc with hc | hc
  case inl => rw [List.eq_of_mem_replicate hc]; rfl
  case inr => exact Decimal.isDigit_of_mem_toDigits hc

theorem isFigure_padded (hw : 0 < width) (h : n < 10 ^ width) :
    IsFigure width n (utf8 (padded width n)) := by
  have hl : (Nat.toDigits 10 n).length ≤ width := (Nat.length_toDigits_le_iff (by decide) hw).mpr h
  have length : (padded width n).length = width := by
    simp only [padded, List.length_append, List.length_replicate]
    omega
  have value : Decimal.value (padded width n) = n := by
    rw [padded, Decimal.value_zeros_append, Decimal.value_toDigits]
  have digits : ∀ c ∈ padded width n, c.isDigit := fun _ => isDigit_of_mem_padded
  have figure := isFigure_utf8 digits
  rwa [length, value] at figure

namespace IsFigure

variable (hf : IsFigure width n ds) (h : b.drop p = ds ++ w)

include hf h

theorem number? : b.number? p width = some n := by
  rw [← hf.length, number?_of_drop h hf.digits, hf.value]

theorem drop : b.drop (p + width) = w := hf.length ▸ drop_of_drop h

theorem isDigit_peek (hw : 0 < width) : isDigit (b.peek p) := by
  cases ds
  case nil => exact absurd hf.length (Nat.ne_of_lt hw)
  case cons x ds => exact head_of_drop h ▸ hf.digits x List.mem_cons_self

end IsFigure

-- Dates.

section

variable {d : Date}

theorem utf8_date (d : Date) : utf8 (date d) = utf8 (padded 4 d.year) ++ dash ::
    (utf8 (padded 2 d.month) ++ dash :: utf8 (padded 2 d.day)) := by
  simp only [date, utf8_append, utf8_cons, List.append_assoc]
  rfl

theorem bounds_of_isReal (h : d.isReal) : d.year < 10 ^ 4 ∧ d.month < 10 ^ 2 ∧ d.day < 10 ^ 2 := by
  have days : Date.daysIn d.year d.month ≤ 31 := by
    unfold Date.daysIn
    split
    case h_1 => split <;> decide
    all_goals decide
  simp only [Date.isReal, Bool.and_eq_true, decide_eq_true_eq] at h
  omega

theorem length_utf8_date (hd : d.isReal) : (utf8 (date d)).length = 10 := by
  have ⟨hy, hm, hn⟩ := bounds_of_isReal hd
  simp only [utf8_date, List.length_append, List.length_cons,
    (isFigure_padded (by decide) hy).length, (isFigure_padded (by decide) hm).length,
    (isFigure_padded (by decide) hn).length]

theorem day?_date (hd : d.isReal) (h : b.drop 0 = utf8 (date d) ++ w) :
    day? b 10 = some d.ordinal := by
  have ⟨hy, hm, hn⟩ := bounds_of_isReal hd
  have year := isFigure_padded (by decide) hy
  have month := isFigure_padded (by decide) hm
  have day := isFigure_padded (by decide) hn
  rw [utf8_date, List.append_assoc, List.cons_append, List.append_assoc, List.cons_append] at h
  have h4 := year.drop h
  have h5 := tail_of_drop h4
  have h7 := month.drop h5
  have h8 := tail_of_drop h7
  have noWeek : (b.peek 5 == week) = false := by
    rw [beq_eq_false_iff_ne]
    intro e
    exact absurd (e ▸ month.isDigit_peek h5 (by decide)) (by decide)
  simpa [day?, year.number? h, head_of_drop h4, noWeek, month.number? h5, head_of_drop h7,
    day.number? h8, monthDay?] using hd

theorem dateLength?_date (hd : d.isReal) (h : b.drop 0 = utf8 (date d) ++ w) :
    dateLength? b = some 10 := by
  have ⟨hy, hm, hn⟩ := bounds_of_isReal hd
  have year := isFigure_padded (by decide) hy
  have month := isFigure_padded (by decide) hm
  have long : b.length ≠ 7 := by
    have length := length_of_drop h (Nat.zero_le _)
    rw [List.length_append, length_utf8_date hd] at length
    omega
  rw [utf8_date, List.append_assoc, List.cons_append, List.append_assoc] at h
  have h4 := year.drop h
  have noWeek : (b.peek 5 != week) = true := by
    rw [bne_iff_ne]
    intro e
    exact absurd (e ▸ month.isDigit_peek (tail_of_drop h4) (by decide)) (by decide)
  have h4 : b.peek 4 = dash := head_of_drop h4
  simp [dateLength?, long, h4, noWeek]

end

-- Clocks.

section

variable {m s stop : Nat} {hs ms ss us : Bytes} {ns : List Nat} {k : Nat}

theorem numbers?_colon (hf : IsFigure 2 n ds) (at_ : b.drop p = ds ++ colon :: w)
    (hs : p + 3 < stop) :
    numbers? b stop true ns (k + 1) p = numbers? b stop true (ns ++ [n]) k (p + 3) := by
  have more : ¬ stop ≤ p + 2 + 1 := Nat.not_le.mpr hs
  have hn : next? b stop true (p + 2) = some (.digits (p + 3)) := by
    simp [next?, head_of_drop (hf.drop at_), more]
  simp only [numbers?, hf.number? at_, hn, Option.bind_eq_bind, Option.bind_some]

theorem numbers?_point (hf : IsFigure 2 n ds) (at_ : b.drop p = ds ++ 0x2E :: w)
    (hs : p + 3 < stop) {colons : Bool} :
    numbers? b stop colons ns (k + 1) p =
      (fraction? b stop (p + 3)).map (.ofNumbers (ns ++ [n])) := by
  have more : ¬ stop ≤ p + 2 + 1 := Nat.not_le.mpr hs
  have hn : next? b stop colons (p + 2) = some (.fraction (p + 3)) := by
    simp [next?, head_of_drop (hf.drop at_), more, colon]
  simp only [numbers?, hf.number? at_, hn, Option.bind_eq_bind, Option.bind_some]
  exact (Option.map_eq_bind).symm

theorem numbers?_done (hf : IsFigure 2 n ds) (at_ : b.drop p = ds ++ w)
    (hs : stop ≤ p + 3) {colons : Bool} :
    numbers? b stop colons ns (k + 1) p = some (.ofNumbers (ns ++ [n]) (w.peek 0 != 0)) := by
  have hn : next? b stop colons (p + 2) = some (.done (w.peek 0 != 0)) := by
    simp only [next?, if_pos hs, peek_of_drop (i := 0) (hf.drop at_)]
  simp only [numbers?, hf.number? at_, hn, Option.bind_eq_bind, Option.bind_some]
  rfl

theorem fraction?_of_drop (hf : IsFigure 6 n ds) (at_ : b.drop p = ds ++ w) (hs : stop = p + 6)
    (hw : ∀ x ∈ w.head?, isDigit x = false) : fraction? b stop p = some (w.peek 0 != 0) := by
  have h6 := hf.drop at_
  have none : AllDigits [] := nofun
  have after : b.afterDigits (p + 6) = p + 6 := afterDigits_of_drop h6 none hw
  have six : min 6 (p + 6 - p) = 6 := by omega
  simp only [fraction?, hs, six, hf.number? at_, after, peek_of_drop (i := 0) h6]
  rfl

theorem utf8_clock (h m s : Nat) : utf8 (clock h m s) = utf8 (padded 2 h) ++ colon ::
    (utf8 (padded 2 m) ++ colon :: utf8 (padded 2 s)) := by
  simp only [clock, utf8_append, utf8_cons, List.append_assoc]
  rfl

theorem clock?_colon (h : b.peek (p + 2) = colon) :
    clock? b p stop = numbers? b stop true [] 3 p := by
  rw [clock?_eq, h]
  rfl

-- A clock up to minutes, as offsets may have it.
theorem clock?_minutes {h : Nat} (hour : h < 10 ^ 2) (minute : m < 10 ^ 2)
    (at_ : b.drop p = utf8 (padded 2 h) ++ colon :: (utf8 (padded 2 m) ++ w))
    (hs : stop = p + 5) : clock? b p stop = some ⟨h, m, 0, w.peek 0 != 0⟩ := by
  have hour := isFigure_padded (by decide) hour
  have minute := isFigure_padded (by decide) minute
  have h2 := hour.drop at_
  rw [clock?_colon (head_of_drop h2), numbers?_colon hour at_ (by omega),
    numbers?_done minute (tail_of_drop h2) (by omega)]
  rfl

theorem clock?_seconds {h : Nat} (hour : h < 10 ^ 2) (minute : m < 10 ^ 2) (second : s < 10 ^ 2)
    (at_ : b.drop p = utf8 (clock h m s) ++ w) (hs : stop = p + 8) :
    clock? b p stop = some ⟨h, m, s, w.peek 0 != 0⟩ := by
  have hour := isFigure_padded (by decide) hour
  have minute := isFigure_padded (by decide) minute
  have second := isFigure_padded (by decide) second
  rw [utf8_clock, List.append_assoc, List.cons_append, List.append_assoc, List.cons_append] at at_
  have h2 := hour.drop at_
  have h5 := minute.drop (tail_of_drop h2)
  rw [clock?_colon (head_of_drop h2), numbers?_colon hour at_ (by omega),
    numbers?_colon minute (tail_of_drop h2) (by omega),
    numbers?_done second (tail_of_drop h5) (by omega)]
  rfl

theorem clock?_micros {h : Nat} (hour : h < 10 ^ 2) (minute : m < 10 ^ 2) (second : s < 10 ^ 2)
    (micro : n < 10 ^ 6) (at_ : b.drop p = utf8 (clock h m s) ++ (utf8 ('.' :: padded 6 n) ++ w))
    (hs : stop = p + 15) (hw : ∀ x ∈ w.head?, isDigit x = false) :
    clock? b p stop = some ⟨h, m, s, w.peek 0 != 0⟩ := by
  have hour := isFigure_padded (by decide) hour
  have minute := isFigure_padded (by decide) minute
  have second := isFigure_padded (by decide) second
  have micro := isFigure_padded (by decide) micro
  rw [utf8_clock, List.append_assoc, List.cons_append, List.append_assoc, List.cons_append] at at_
  have h2 := hour.drop at_
  have h5 := minute.drop (tail_of_drop h2)
  have h8 := second.drop (tail_of_drop h5)
  rw [clock?_colon (head_of_drop h2), numbers?_colon hour at_ (by omega),
    numbers?_colon minute (tail_of_drop h2) (by omega),
    numbers?_point second (tail_of_drop h5) (by omega),
    fraction?_of_drop micro (tail_of_drop h8) (by omega) hw]
  rfl

end

-- Times, with the offset that stands behind the first sign.

section

variable {t : DateTime}

theorem offsetStart_of_drop (h : b.drop p = ds ++ w) (hd : ∀ x ∈ ds, isSign x = false)
    (hw : ∀ x ∈ w.head?, isSign x) : offsetStart b p = p + ds.length := by
  have signless : ∀ x ∈ ds, (! isSign x) = true := by simpa using hd
  have sign : ∀ x ∈ w.head?, (! isSign x) = false := by simpa using hw
  exact congrArg (p + ·.length) (h ▸ Scan.takeWhile_append signless sign)

theorem isSign_utf8 {cs : List Char} (h : ∀ c ∈ cs, c.isDigit ∨ c = ':' ∨ c = '.') :
    ∀ x ∈ utf8 cs, isSign x = false := by
  intro x hx
  have ⟨c, hc, hx⟩ := List.mem_flatMap.mp hx
  rcases h c hc with hc | rfl | rfl
  case inl =>
    have ⟨y, e, hy, _⟩ := exists_digit hc
    rw [e, List.mem_singleton] at hx
    exact hx ▸ isSign_of_isDigit hy
  all_goals
    cases List.mem_singleton.mp hx
    rfl

-- The second of a clock with its decimals.
def decimals (t : DateTime) : List Char := if t.micro = 0 then [] else '.' :: padded 6 t.micro

def zone (t : DateTime) : List Char := (t.offset.map offset).getD []

theorem utf8_dateTime (t : DateTime) : utf8 (dateTime t) = utf8 (date t.date) ++ 0x54 ::
    (utf8 (clock t.hour t.minute t.second) ++ (utf8 (decimals t) ++ utf8 (zone t))) := by
  simp only [dateTime, utf8_append, utf8_cons, List.append_assoc]
  rfl

theorem clockBounds_of_isReal (ht : t.isReal) :
    t.hour < 10 ^ 2 ∧ t.minute < 10 ^ 2 ∧ t.second < 10 ^ 2 ∧ t.micro < 10 ^ 6 := by
  simp only [DateTime.isReal, Bool.and_eq_true, decide_eq_true_eq] at ht
  omega

theorem clock?_dateTime (ht : t.isReal) (at_ : b.drop p =
    utf8 (clock t.hour t.minute t.second) ++ (utf8 (decimals t) ++ w))
    (hw : ∀ x ∈ w.head?, isDigit x = false) {stop : Nat}
    (hs : stop = p + (utf8 (clock t.hour t.minute t.second ++ decimals t)).length) :
    clock? b p stop = some ⟨t.hour, t.minute, t.second, w.peek 0 != 0⟩ := by
  have ⟨hour, minute, second, micro⟩ := clockBounds_of_isReal ht
  have eight : (utf8 (clock t.hour t.minute t.second)).length = 8 := by
    simp [utf8_clock, (isFigure_padded (by decide) hour).length,
      (isFigure_padded (by decide) minute).length, (isFigure_padded (by decide) second).length]
  rw [utf8_append, List.length_append, eight] at hs
  by_cases hm : t.micro = 0
  case pos =>
    have none : decimals t = [] := if_pos hm
    rw [none] at at_ hs
    exact clock?_seconds hour minute second at_ hs
  case neg =>
    have some : decimals t = '.' :: padded 6 t.micro := if_neg hm
    rw [some, utf8_cons, List.length_append, (isFigure_padded (by decide) micro).length] at hs
    rw [some] at at_
    exact clock?_micros hour minute second micro at_ hs hw

theorem isSign_time (t : DateTime) :
    ∀ x ∈ utf8 (clock t.hour t.minute t.second ++ decimals t), isSign x = false := by
  have digits {width n : Nat} : ∀ c ∈ padded width n, c.isDigit ∨ c = ':' ∨ c = '.' :=
    fun c hc => .inl (isDigit_of_mem_padded hc)
  have colon : ':'.isDigit ∨ ':' = ':' ∨ ':' = '.' := .inr (.inl rfl)
  have point : '.'.isDigit ∨ '.' = ':' ∨ '.' = '.' := .inr (.inr rfl)
  refine isSign_utf8 fun c hc => ?_
  rcases List.mem_append.mp hc with hc | hc
  case inl =>
    simp only [clock, List.mem_append, List.mem_cons, or_assoc] at hc
    rcases hc with hc | rfl | hc | rfl | hc <;> first | exact digits c hc | exact colon
  case inr =>
    unfold decimals at hc
    split at hc
    case isTrue => cases hc
    case isFalse =>
      rcases List.mem_cons.mp hc with rfl | hc
      · exact point
      · exact digits c hc

theorem exists_sign (o : Int) : ∃ x, isSign x ∧ (x == zulu) = false ∧
    utf8 (offset o) = x :: (utf8 (padded 2 (o.natAbs / 3600)) ++ colon ::
      (utf8 (padded 2 (o.natAbs / 60 % 60)) ++
        utf8 (if o.natAbs % 60 = 0 then [] else ':' :: padded 2 (o.natAbs % 60)))) := by
  simp only [offset, utf8_append, utf8_cons, List.append_assoc, List.cons_append]
  by_cases ho : o < 0
  case pos => exact ⟨dash, rfl, rfl, by rw [if_pos ho]; rfl⟩
  case neg => exact ⟨0x2B, rfl, rfl, by rw [if_neg ho]; rfl⟩

theorem clock?_offset {n : Nat} (hn : n < 86400) (hp : p ≤ b.length) (at_ : b.drop p =
    utf8 (padded 2 (n / 3600)) ++ colon :: (utf8 (padded 2 (n / 60 % 60)) ++
      utf8 (if n % 60 = 0 then [] else ':' :: padded 2 (n % 60)))) :
    clock? b p b.length = some ⟨n / 3600, n / 60 % 60, n % 60, false⟩ := by
  have hour : n / 3600 < 10 ^ 2 := by omega
  have minute : n / 60 % 60 < 10 ^ 2 := by omega
  have second : n % 60 < 10 ^ 2 := by omega
  have two {m : Nat} (h : m < 10 ^ 2) : (utf8 (padded 2 m)).length = 2 :=
    (isFigure_padded (by decide) h).length
  have length := length_of_drop at_ hp
  by_cases hs : n % 60 = 0
  case pos =>
    rw [if_pos hs, utf8_nil] at at_ length
    rw [hs]
    have hl : b.length = p + 5 := by
      simpa only [List.length_append, List.length_cons, two hour, two minute,
        List.length_nil] using length
    exact clock?_minutes hour minute at_ hl
  case neg =>
    rw [if_neg hs] at at_ length
    have e : b.drop p = utf8 (clock (n / 3600) (n / 60 % 60) (n % 60)) ++ [] := by
      rw [at_, utf8_clock, List.append_nil]
      rfl
    have hl : b.length = p + 8 := by
      simpa only [utf8_colon, List.length_append, List.length_cons, two hour, two minute,
        two second] using length
    exact clock?_seconds hour minute second e hl

theorem isSign_zone (t : DateTime) : ∀ x ∈ (utf8 (zone t)).head?, isSign x := by
  unfold zone
  cases t.offset
  case none => nofun
  case some o =>
    have ⟨x, hx, _, e⟩ := exists_sign o
    rw [Option.map_some, Option.getD_some, e]
    exact fun y hy => Option.some.inj hy ▸ hx

theorem isTime_dateTime (ht : t.isReal) (hp : p ≤ b.length) (at_ : b.drop p =
    utf8 (clock t.hour t.minute t.second) ++ (utf8 (decimals t) ++ utf8 (zone t))) :
    isTime b p := by
  have digitless : ∀ x ∈ (utf8 (zone t)).head?, isDigit x = false := fun x hx => by
    have := isSign_zone t x hx
    cases hd : isDigit x
    case false => rfl
    case true => exact absurd this (by simp [isSign_of_isDigit hd])
  have whole : b.drop p = utf8 (clock t.hour t.minute t.second ++ decimals t) ++ utf8 (zone t) := by
    rw [at_, utf8_append, List.append_assoc]
  have start := offsetStart_of_drop whole (isSign_time t) (isSign_zone t)
  have read := clock?_dateTime ht at_ digitless start
  have length := length_of_drop whole hp
  rw [List.length_append, ← Nat.add_assoc, ← start] at length
  simp only [DateTime.isReal, Bool.and_eq_true, decide_eq_true_eq, Option.all_eq_true] at ht
  obtain ⟨⟨⟨⟨⟨_, hour⟩, minute⟩, second⟩, _⟩, offset⟩ := ht
  have real : (Clock.mk t.hour t.minute t.second ((utf8 (zone t)).peek 0 != 0)).isReal := by
    simp [Clock.isReal, hour, minute, second]
  simp only [isTime, read, real, Bool.true_and]
  cases ho : t.offset
  case none =>
    have hz : utf8 (zone t) = [] := by rw [zone, ho]; rfl
    rw [hz] at length ⊢
    have ends : offsetStart b p = b.length := length.symm
    rw [if_pos ends]
    rfl
  case some o =>
    have ⟨x, _, hx, e⟩ := exists_sign o
    have hz : zone t = Iso.offset o := by rw [zone, ho]; rfl
    have further := drop_of_drop whole
    rw [← start, hz, e] at further
    rw [hz, e] at length
    have ends : offsetStart b p ≠ b.length := by
      rw [length, List.length_cons]
      omega
    have size : o.natAbs < 86400 := by
      have := offset o ho
      omega
    have inside : offsetStart b p + 1 ≤ b.length := by
      rw [length, List.length_cons]
      omega
    rw [if_neg ends, head_of_drop further, hx, clock?_offset size inside (tail_of_drop further)]
    have seconds : o.natAbs / 3600 * 3600 + o.natAbs / 60 % 60 * 60 + o.natAbs % 60 < 86400 := by
      omega
    exact decide_eq_true seconds

theorem isDateTime_dateTime (ht : t.isReal) : isDateTime (utf8 (dateTime t)) := by
  have day : t.date.isReal := by
    simp only [DateTime.isReal, Bool.and_eq_true] at ht
    exact ht.left.left.left.left.left
  have start : (utf8 (dateTime t)).drop 0 = utf8 (date t.date) ++ 0x54 ::
      (utf8 (clock t.hour t.minute t.second) ++ (utf8 (decimals t) ++ utf8 (zone t))) :=
    utf8_dateTime t
  have ten := length_utf8_date day
  have h10 := drop_of_drop start
  rw [ten] at h10
  have length := length_of_drop start (Nat.zero_le _)
  rw [List.length_append, ten] at length
  have long : 7 ≤ (utf8 (dateTime t)).length := by omega
  have inside : 11 ≤ (utf8 (dateTime t)).length := by
    rw [length, List.length_cons]
    omega
  have time := isTime_dateTime ht inside (tail_of_drop h10)
  have next : 10 + charLength ((utf8 (dateTime t)).peek 10) = 11 := by
    rw [show (utf8 (dateTime t)).peek 10 = 0x54 from head_of_drop h10]
    rfl
  simp [isDateTime, long, dateLength?_date day start, day?_date day start, next, time]

theorem not_mem_padded {c : Char} (hc : c.isDigit = false) : c ∉ padded width n := fun h =>
  absurd (isDigit_of_mem_padded h) (by simp [hc])

theorem expandZulu_dateTime (t : DateTime) : expandZulu (dateTime t) = dateTime t := by
  have digits {width n : Nat} : 'Z' ∉ padded width n := not_mem_padded rfl
  have offset (o : Int) : 'Z' ∉ offset o := by
    unfold Iso.offset
    split_ifs <;> simp [digits]
  have zulu : 'Z' ∉ dateTime t := by
    cases ho : t.offset <;> by_cases hm : t.micro = 0 <;>
      simp [dateTime, date, clock, ho, hm, digits, offset]
  exact if_neg fun h => zulu (List.mem_of_getLast? h)

end

end Iso

theorem Date.isDateText_toText {d : Date} (h : d.isReal) : Iso.isDateText d.toText := by
  have start : (Iso.utf8 (Iso.date d)).drop 0 = Iso.utf8 (Iso.date d) ++ [] := by simp
  unfold Iso.isDateText toText
  rw [String.toList_ofList, Iso.isDate, Iso.length_utf8_date h, Iso.day?_date h start]
  rfl

theorem DateTime.isDateTimeText_toText {t : DateTime} (h : t.isReal) :
    Iso.isDateTimeText t.toText := by
  unfold Iso.isDateTimeText toText
  rw [String.toList_ofList, Iso.expandZulu_dateTime]
  exact Iso.isDateTime_dateTime h

end GraphSchema
