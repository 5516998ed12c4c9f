set_option autoImplicit false

/-!
Sets of characters given by ranges of their numbers, and the set of white space of any script.
-/

namespace PlainC

/-- Whether a character lies in one of the ranges, whose ends belong to them. -/
def CharRange.contains (ranges : List (Nat × Nat)) (c : Char) : Bool :=
  ranges.any fun (first, last) => first ≤ c.toNat && c.toNat ≤ last

/-- The characters that are white space. -/
def CharRange.blank : List (Nat × Nat) :=
  [(0x9, 0xd), (0x20, 0x20), (0x85, 0x85), (0xa0, 0xa0), (0x1680, 0x1680), (0x2000, 0x200a),
   (0x2028, 0x2029), (0x202f, 0x202f), (0x205f, 0x205f), (0x3000, 0x3000)]

def isBlankChar (c : Char) : Bool := CharRange.contains CharRange.blank c

end PlainC
