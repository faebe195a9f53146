namespace GraphSchema

structure Date where
  year : Nat
  month : Nat
  day : Nat
  deriving DecidableEq, Inhabited

namespace Date

def isLeap (year : Nat) : Bool := year % 4 == 0 && (year % 100 != 0 || year % 400 == 0)

def daysIn (year month : Nat) : Nat :=
  match month with
  | 2 => if isLeap year then 29 else 28
  | 4 | 6 | 9 | 11 => 30
  | _ => 31

-- Years have four digits.
def isReal (d : Date) : Bool :=
  1 ≤ d.year && d.year ≤ 9999 && 1 ≤ d.month && d.month ≤ 12 && 1 ≤ d.day
    && d.day ≤ daysIn d.year d.month

def daysBeforeYear (year : Nat) : Nat :=
  let y := year - 1
  y * 365 + y / 4 - y / 100 + y / 400

def daysBeforeMonth (year month : Nat) : Nat :=
  (List.range (month - 1)).foldl (fun days m => days + daysIn year (m + 1)) 0

-- The first day of year one is day one, a Monday.
def ordinal (d : Date) : Nat := daysBeforeYear d.year + daysBeforeMonth d.year d.month + d.day

def lastOrdinal : Nat := ordinal ⟨9999, 12, 31⟩

end Date

structure DateTime where
  date : Date
  hour : Nat
  minute : Nat
  second : Nat
  micro : Nat
  -- Seconds east of Greenwich, if the place is known.
  offset : Option Int
  deriving DecidableEq, Inhabited

namespace DateTime

def isReal (t : DateTime) : Bool :=
  t.date.isReal && t.hour < 24 && t.minute < 60 && t.second < 60 && t.micro < 1000000
    && t.offset.all fun o => -86400 < o && o < 86400

-- Microseconds since the start of year one, by the clock of Greenwich if the offset is known.
def instant (t : DateTime) : Int :=
  ((t.date.ordinal * 86400 + t.hour * 3600 + t.minute * 60 + t.second : Nat) - t.offset.getD 0)
    * 1000000 + t.micro

-- A time with an offset is never the same as one without.
def equals (a b : DateTime) : Bool :=
  a.offset.isSome == b.offset.isSome && a.instant == b.instant

end DateTime

namespace Iso

def padded (width n : Nat) : List Char :=
  let ds := Nat.toDigits 10 n
  List.replicate (width - ds.length) '0' ++ ds

def date (d : Date) : List Char :=
  padded 4 d.year ++ '-' :: padded 2 d.month ++ '-' :: padded 2 d.day

def clock (h m s : Nat) : List Char :=
  padded 2 h ++ ':' :: padded 2 m ++ ':' :: padded 2 s

-- Seconds of the offset are written only if there are any.
def offset (o : Int) : List Char :=
  let n := o.natAbs
  let hm := padded 2 (n / 3600) ++ ':' :: padded 2 (n / 60 % 60)
  (if o < 0 then '-' else '+') :: hm ++ if n % 60 = 0 then [] else ':' :: padded 2 (n % 60)

def dateTime (t : DateTime) : List Char :=
  date t.date ++ 'T' :: clock t.hour t.minute t.second
    ++ (if t.micro = 0 then [] else '.' :: padded 6 t.micro)
    ++ (t.offset.map offset).getD []

end Iso

namespace Date

def toText (d : Date) : String := String.ofList (Iso.date d)

end Date

namespace DateTime

def toText (t : DateTime) : String := String.ofList (Iso.dateTime t)

end DateTime

end GraphSchema
