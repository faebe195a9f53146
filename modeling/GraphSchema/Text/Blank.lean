namespace GraphSchema

namespace Blank

def ranges : List (Nat × Nat) :=
  [(0x09, 0x0D), (0x1C, 0x20), (0x85, 0x85), (0xA0, 0xA0), (0x1680, 0x1680), (0x2000, 0x200A),
    (0x2028, 0x2029), (0x202F, 0x202F), (0x205F, 0x205F), (0x3000, 0x3000)]

end Blank

def isBlank (c : Char) : Bool := Blank.ranges.any fun (lo, hi) => lo ≤ c.toNat && c.toNat ≤ hi

theorem isBlank_newline : isBlank '\n' := by decide

def stripBlank (cs : List Char) : List Char :=
  ((cs.dropWhile isBlank).reverse.dropWhile isBlank).reverse

end GraphSchema
