import OrpcWire.Text.Hex
import OrpcWire.Wire.Block
import OrpcWire.Wire.ByteOrder

/-!
# Globally unique identifiers

A GUID has three numeric fields, which follow the byte order of the stream, and eight octets, which
do not. Its text form is the hyphenated one in lower case.
-/

namespace OrpcWire

/-- A 128-bit identifier of an interface, an object's interface pointer, an extension or a call
chain. -/
structure Guid where
  data1 : UInt32
  data2 : UInt16
  data3 : UInt16
  data4 : Block 8
  deriving DecidableEq, Repr, Inhabited

namespace Guid

def nil : Guid := ⟨0, 0, 0, Block.zero 8⟩

/-- The eight octets of the numeric fields, most significant first. -/
def numericOctets (guid : Guid) : Block 8 :=
  ⟨ByteOrder.big.octets 4 guid.data1.toNat ++ ByteOrder.big.octets 2 guid.data2.toNat ++
    ByteOrder.big.octets 2 guid.data3.toNat, by simp⟩

/-- The canonical text `xxxxxxxx-xxxx-xxxx-xxxx-xxxxxxxxxxxx`. -/
def text (guid : Guid) : String :=
  let numbers := guid.numericOctets.octets
  let rest := guid.data4.octets
  String.intercalate "-"
    [Hex.text (numbers.take 4), Hex.text ((numbers.drop 4).take 2), Hex.text (numbers.drop 6),
      Hex.text (rest.take 2), Hex.text (rest.drop 2)]

/-- The identifier whose fields, most significant octet first, are the given sixteen octets. -/
def ofOctets (octets : Block 16) : Guid where
  data1 := UInt32.ofNat (ByteOrder.big.value (octets.octets.take 4))
  data2 := UInt16.ofNat (ByteOrder.big.value ((octets.octets.drop 4).take 2))
  data3 := UInt16.ofNat (ByteOrder.big.value ((octets.octets.drop 6).take 2))
  data4 := ⟨octets.octets.drop 8, by simp⟩

/-- Marks an identifier as a random one: version 4 in the high digit of the third field, variant
`10` in the two high bits of the last octets. -/
def markRandom (guid : Guid) : Guid :=
  { guid with
    data3 := guid.data3 &&& 0x0fff ||| 0x4000
    data4 := ⟨guid.data4.octets.modifyHead fun octet => octet &&& 0x3f ||| 0x80, by simp⟩ }

/-- A random identifier made of sixteen octets of entropy. -/
def ofEntropy (entropy : Block 16) : Guid := (ofOctets entropy).markRandom

def iUnknown : Guid := ⟨0, 0, 0, ⟨[0xc0, 0, 0, 0, 0, 0, 0, 0x46], rfl⟩⟩

def iDispatch : Guid := ⟨0x00020400, 0, 0, ⟨[0xc0, 0, 0, 0, 0, 0, 0, 0x46], rfl⟩⟩

def errorInfo : Guid := ⟨0x0000031c, 0, 0, ⟨[0xc0, 0, 0, 0, 0, 0, 0, 0x46], rfl⟩⟩

end Guid

end OrpcWire
