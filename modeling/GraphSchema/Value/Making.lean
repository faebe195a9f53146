import GraphSchema.Value.Display

namespace GraphSchema.Value

def isWithin (low high n : Int) : Bool := low ≤ n && n ≤ high

def checkRanges : List (Int × Int × Int × ValueFault) → Except Error Unit
  | [] => .ok ()
  | (n, low, high, fault) :: rest =>
    if isWithin low high n then checkRanges rest else .error (.value fault)

-- Numbers.

def floatOfText (id : OutsideId) (s : String) : Except Error Value :=
  match Double.ofText? id s with
  | some x => .ok (float x)
  | none => .error (.value (.notANumber (Escaped.text s)))

def decimalOfText (id : OutsideId) (s : String) : Except Error Value :=
  match Decimal.ofText? s with
  | some d =>
    if d.isInRange then .ok (decimal (d.identified id)) else .error (.arithmetic .notInRange)
  | none => .error (.arithmetic .noDecimal)

def progressionOf (start stop step : Int) : Except Error Value :=
  if step = 0 then .error (.value .noStep) else .ok (progression ⟨start, stop, step⟩)

-- Dates.

def dateOfParts (year month day : Int) : Except Error Date := do
  checkRanges [(year, 1, 9999, .year year), (month, 1, 12, .month)]
  checkRanges [(day, 1, Date.daysIn year.toNat month.toNat, .day)]
  return ⟨year.toNat, month.toNat, day.toNat⟩

def checkOffset (offset : Int) : Except Error Unit :=
  checkRanges [(offset, -86399, 86399, .offset (displayDuration offset))]

def dateTimeOfParts (date : Except Error Date) (hour minute second micro : Int)
    (offset : Option Int) : Except Error DateTime := do
  discard (offset.mapM checkOffset)
  let date ← date
  checkRanges [(hour, 0, 23, .hour), (minute, 0, 59, .minute), (second, 0, 59, .second),
    (micro, 0, 999999, .micro)]
  return ⟨date, hour.toNat, minute.toNat, second.toNat, micro.toNat, offset⟩

-- Bytes.

def octetsOf (fault : ValueFault) (ns : List Int) : Except Error (List UInt8) := do
  checkRanges (ns.map fun n => (n, 0, 255, fault))
  return ns.map (·.toNat.toUInt8)

end GraphSchema.Value
