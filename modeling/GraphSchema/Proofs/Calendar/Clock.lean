import GraphSchema.Proofs.Calendar.Cursor

namespace GraphSchema.Iso

open Bytes

def Clock.ofNumbers (ns : List Nat) (leftover : Bool) : Clock :=
  ⟨ns.getD 0 0, ns.getD 1 0, ns.getD 2 0, leftover⟩

-- Reads up to `k` more numbers of a clock, and then a fraction.
def numbers? (b : Bytes) (stop : Nat) (colons : Bool) : List Nat → Nat → Nat → Option Clock
  | ns, 0, p => do return .ofNumbers ns (← fraction? b stop p)
  | ns, k + 1, p => do
    let n ← b.number? p 2
    match ← next? b stop colons (p + 2) with
    | .done l => return .ofNumbers (ns ++ [n]) l
    | .fraction q => return .ofNumbers (ns ++ [n]) (← fraction? b stop q)
    | .digits q => numbers? b stop colons (ns ++ [n]) k q

variable {b : Bytes} {p stop : Nat}

theorem clock?_eq : clock? b p stop = numbers? b stop (b.peek (p + 2) == colon) [] 3 p := rfl

end GraphSchema.Iso
