import OrpcWire.Wire.Reader

/-!
# Identifiers of exporters, objects and interface pointers

An OXID names an object exporter and an OID an object in it. Both are opaque: eight octets assigned
by the exporter, copied as they stand. An IPID names an interface pointer on an object and is a
GUID.
-/

namespace OrpcWire

/-- Identifier of an object exporter. -/
structure Oxid where
  octets : Block 8
  deriving DecidableEq, Repr, Inhabited

/-- Identifier of an object in an exporter. -/
structure Oid where
  octets : Block 8
  deriving DecidableEq, Repr, Inhabited

/-- Identifier of an interface pointer on an object. -/
structure Ipid where
  guid : Guid
  deriving DecidableEq, Repr, Inhabited

namespace Oxid

def size : Nat := 8

/-- A random identifier, the numeric octets of a random GUID. -/
def ofRandom (guid : Guid) : Oxid := ⟨guid.numericOctets⟩

def text (oxid : Oxid) : String := Hex.text oxid.octets.octets

def labelled (oxid : Oxid) : String := "OXID(" ++ oxid.text ++ ")"

def layout (oxid : Oxid) : Layout := [.raw oxid.octets.octets]

def read : Reader WireError Oxid := return ⟨← Reader.block 8⟩

end Oxid

namespace Oid

def size : Nat := 8

/-- A random identifier, the numeric octets of a random GUID. -/
def ofRandom (guid : Guid) : Oid := ⟨guid.numericOctets⟩

def text (oid : Oid) : String := Hex.text oid.octets.octets

def labelled (oid : Oid) : String := "OID(" ++ oid.text ++ ")"

def layout (oid : Oid) : Layout := [.raw oid.octets.octets]

def read : Reader WireError Oid := return ⟨← Reader.block 8⟩

end Oid

namespace Ipid

def size : Nat := 16

def nil : Ipid := ⟨Guid.nil⟩

def isNil (ipid : Ipid) : Bool := ipid.guid = Guid.nil

def text (ipid : Ipid) : String := ipid.guid.text

def labelled (ipid : Ipid) : String := "IPID(" ++ ipid.text ++ ")"

def layout (ipid : Ipid) : Layout := ipid.guid.layout

def read : Reader WireError Ipid := return ⟨← Reader.guid⟩

end Ipid

end OrpcWire
