import GraphSchema.Calendar.Date

namespace GraphSchema.Iso

abbrev Bytes := List UInt8

def utf8 (cs : List Char) : Bytes := cs.flatMap String.utf8EncodeChar

namespace Bytes

-- Past the end of a text there are zeros.
def peek (b : Bytes) (i : Nat) : UInt8 := b.getD i 0

def isDigit (x : UInt8) : Bool := 0x30 ≤ x && x ≤ 0x39

def dash : UInt8 := 0x2D
def colon : UInt8 := 0x3A
def week : UInt8 := 0x57
def zulu : UInt8 := 0x5A

def number? (b : Bytes) (p n : Nat) : Option Nat :=
  let ds := (List.range n).map fun i => b.peek (p + i)
  if ds.all isDigit then some (ds.foldl (fun v d => 10 * v + (d.toNat - 0x30)) 0) else none

def afterDigits (b : Bytes) (p : Nat) : Nat := p + ((b.drop p).takeWhile isDigit).length

end Bytes

open Bytes

-- Monday of the first week of a year, the week of its first Thursday.
def firstMonday (year : Nat) : Nat :=
  let new := Date.ordinal ⟨year, 1, 1⟩
  let weekday := (new + 6) % 7
  if weekday ≤ 3 then new - weekday else new + 7 - weekday

def hasLongYear (year : Nat) : Bool :=
  let weekday := (Date.ordinal ⟨year, 1, 1⟩ + 6) % 7
  weekday == 3 || (weekday == 2 && Date.isLeap year)

def weekDay? (year week day : Nat) : Option Nat :=
  let ordinal := firstMonday year + 7 * (week - 1) + (day - 1)
  if 1 ≤ year ∧ 1 ≤ week ∧ (week ≤ 52 ∨ (week = 53 ∧ hasLongYear year)) ∧ 1 ≤ day ∧ day ≤ 7
      ∧ ordinal ≤ Date.lastOrdinal
  then some ordinal else none

def monthDay? (d : Date) : Option Nat := if d.isReal then some d.ordinal else none

-- The day named by the first `n` bytes. Bytes after a complete date are not looked at.
def day? (b : Bytes) (n : Nat) : Option Nat := do
  let year ← b.number? 0 4
  let dashed := b.peek 4 == dash
  let p := if dashed then 5 else 4
  if b.peek p == week then
    let w ← b.number? (p + 1) 2
    if n ≤ p + 3 then weekDay? year w 1
    else if ! dashed then weekDay? year w (← b.number? (p + 3) 1)
    else if b.peek (p + 3) == dash then weekDay? year w (← b.number? (p + 4) 1)
    else none
  else
    let month ← b.number? p 2
    if ! dashed then monthDay? ⟨year, month, ← b.number? (p + 2) 2⟩
    else if b.peek (p + 2) == dash then monthDay? ⟨year, month, ← b.number? (p + 3) 2⟩
    else none

inductive Next
  | done (leftover : Bool)
  | digits (p : Nat)
  | fraction (p : Nat)

def next? (b : Bytes) (stop : Nat) (colons : Bool) (p : Nat) : Option Next :=
  let c := b.peek p
  if stop ≤ p + 1 then some (.done (c != 0))
  else if colons && c == colon then some (.digits (p + 1))
  else if c == 0x2E || c == 0x2C then some (.fraction (p + 1))
  else if colons then none
  else some (.digits p)

structure Clock where
  hour : Nat
  minute : Nat
  second : Nat
  leftover : Bool

-- Whether bytes are left after the fraction of a second.
def fraction? (b : Bytes) (stop p : Nat) : Option Bool := do
  let n := min 6 (stop - p)
  discard (b.number? p n)
  return b.peek (b.afterDigits (p + n)) != 0

def clock? (b : Bytes) (p stop : Nat) : Option Clock := do
  let h ← b.number? p 2
  let colons := b.peek (p + 2) == colon
  match ← next? b stop colons (p + 2) with
  | .done l => return ⟨h, 0, 0, l⟩
  | .fraction q => return ⟨h, 0, 0, ← fraction? b stop q⟩
  | .digits q =>
    let m ← b.number? q 2
    match ← next? b stop colons (q + 2) with
    | .done l => return ⟨h, m, 0, l⟩
    | .fraction r => return ⟨h, m, 0, ← fraction? b stop r⟩
    | .digits r =>
      let s ← b.number? r 2
      match ← next? b stop colons (r + 2) with
      | .done l => return ⟨h, m, s, l⟩
      | .fraction t => return ⟨h, m, s, ← fraction? b stop t⟩
      | .digits t => return ⟨h, m, s, ← fraction? b stop t⟩

def Clock.isReal (c : Clock) : Bool := c.hour < 24 && c.minute < 60 && c.second < 60

def Clock.seconds (c : Clock) : Nat := c.hour * 3600 + c.minute * 60 + c.second

def offsetStart (b : Bytes) (p : Nat) : Nat :=
  p + ((b.drop p).takeWhile fun x => ! (x == 0x2B || x == dash || x == zulu)).length

def isTime (b : Bytes) (p : Nat) : Bool :=
  let stop := offsetStart b p
  match clock? b p stop with
  | none => false
  | some c =>
    c.isReal &&
      if stop = b.length then ! c.leftover
      else if b.peek stop == zulu then b.peek (stop + 1) == 0
      else
        match clock? b (stop + 1) b.length with
        | none => false
        | some o => ! o.leftover && o.seconds < 86400

-- How many bytes at the front are the date, judged by the separators alone.
def dateLength? (b : Bytes) : Option Nat :=
  let n := b.length
  if n = 7 then some 7
  else if b.peek 4 == dash then
    if b.peek 5 != week then some 10
    else if n ≤ 8 || b.peek 8 != dash then some 8
    else if n = 9 then none
    else if 10 < n && isDigit (b.peek 10) then some 8
    else some 10
  else if b.peek 4 == week then
    let p := b.afterDigits 7
    if p < 9 then some p else if p % 2 = 0 then some 7 else some 8
  else some 8

def charLength (x : UInt8) : Nat :=
  if x < 0x80 then 1 else if x < 0xE0 then 2 else if x < 0xF0 then 3 else 4

def isDateTime (b : Bytes) : Bool :=
  7 ≤ b.length &&
    match dateLength? b with
    | none => false
    | some n =>
      (day? b n).isSome && (b.length ≤ n || isTime b (n + charLength (b.peek n)))

def isDate (b : Bytes) : Bool :=
  (b.length == 7 || b.length == 8 || b.length == 10) && (day? b b.length).isSome

def expandZulu (cs : List Char) : List Char :=
  if cs.getLast? = some 'Z' then cs.dropLast ++ "+00:00".toList else cs

def isDateText (s : String) : Bool := isDate (utf8 s.toList)

def isDateTimeText (s : String) : Bool := isDateTime (utf8 (expandZulu s.toList))

end GraphSchema.Iso
