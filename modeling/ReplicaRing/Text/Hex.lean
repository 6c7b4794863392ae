/-! Numbers in lower-case hexadecimal. -/

namespace ReplicaRing.Text

def hexDigit (value : Nat) : Char :=
  if value < 10 then Char.ofNat (48 + value) else Char.ofNat (87 + value)

/-- The lowest `width` digits of a number, the most significant first. -/
def hexDigits : Nat → Nat → List Char
  | 0, _ => []
  | width + 1, number => hexDigits width (number / 16) ++ [hexDigit (number % 16)]

def hex (width number : Nat) : String :=
  String.ofList (hexDigits width number)

end ReplicaRing.Text
