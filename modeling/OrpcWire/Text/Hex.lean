/-!
# Hexadecimal text

Every octet is written as two lower-case digits, high digit first.
-/

namespace OrpcWire.Hex

def digits (octet : UInt8) : List Char :=
  [Nat.digitChar (octet.toNat / 16), Nat.digitChar (octet.toNat % 16)]

/-- The digits of all octets in order, nothing between them. -/
def text (octets : List UInt8) : String :=
  String.ofList (octets.flatMap digits)

end OrpcWire.Hex
