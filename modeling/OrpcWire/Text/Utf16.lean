/-!
# UTF-16

Text travels as 16-bit units. A character beyond the first 65536 is a pair of units, a high
surrogate and then a low one. Decoding is strict: a surrogate without its partner is refused.
-/

namespace OrpcWire.Utf16

def charUnits (c : Char) : List UInt16 :=
  if c.toNat < 0x10000 then
    [.ofNat c.toNat]
  else
    [.ofNat (0xd800 + (c.toNat - 0x10000) / 0x400), .ofNat (0xdc00 + (c.toNat - 0x10000) % 0x400)]

def units (text : String) : List UInt16 := text.toList.flatMap charUnits

def isHigh (unit : UInt16) : Bool := 0xd800 ≤ unit ∧ unit < 0xdc00

def isLow (unit : UInt16) : Bool := 0xdc00 ≤ unit ∧ unit < 0xe000

def pairChar (high low : UInt16) : Char :=
  .ofNat (0x10000 + (high.toNat - 0xd800) * 0x400 + (low.toNat - 0xdc00))

/-- Decodes behind the characters read so far, which are kept backwards. -/
def charsOnto (read : List Char) : List UInt16 → Option (List Char)
  | [] => some read.reverse
  | unit :: units =>
    if isHigh unit then
      match units with
      | low :: units => if isLow low then charsOnto (pairChar unit low :: read) units else none
      | [] => none
    else if isLow unit then
      none
    else
      charsOnto (.ofNat unit.toNat :: read) units

/-- The text that has the given units, if any. -/
def text? (units : List UInt16) : Option String := (charsOnto [] units).map String.ofList

def length (text : String) : Nat := (units text).length

end OrpcWire.Utf16
