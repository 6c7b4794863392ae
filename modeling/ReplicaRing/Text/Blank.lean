/-! Blank text: the characters with the Unicode property White_Space. -/

namespace ReplicaRing.Text

/-- The white space characters as ranges of code points, ends included. -/
def blankRanges : List (Nat × Nat) :=
  [(0x09, 0x0D), (0x20, 0x20), (0x85, 0x85), (0xA0, 0xA0), (0x1680, 0x1680), (0x2000, 0x200A),
    (0x2028, 0x2029), (0x202F, 0x202F), (0x205F, 0x205F), (0x3000, 0x3000)]

def isBlankChar (char : Char) : Bool :=
  blankRanges.any fun range => range.1 ≤ char.toNat && char.toNat ≤ range.2

/-- Nothing is left of such a text once it is trimmed. -/
def isBlank (text : String) : Bool :=
  text.toList.all isBlankChar

end ReplicaRing.Text
