import OrpcWire.ObjRef.Identifier

/-!
# Standard object references

The part of every standard reference that says which object is meant: exporter, object and interface
pointer, with the number of public references that travel along.
-/

namespace OrpcWire

/-! Flag words of a standard reference. The bits `oxRes1` to `oxRes8` belong to the exporter and
mean nothing to importers. -/

namespace StdFlag

def null : UInt32 := 0x0000
def oxRes1 : UInt32 := 0x0001
def oxRes2 : UInt32 := 0x0020
def oxRes3 : UInt32 := 0x0040
def oxRes4 : UInt32 := 0x0080
def oxRes5 : UInt32 := 0x0100
def oxRes6 : UInt32 := 0x0200
def oxRes7 : UInt32 := 0x0400
def oxRes8 : UInt32 := 0x0800

/-- The object need not be kept alive by pings. -/
def noPing : UInt32 := 0x1000

end StdFlag

/-- Which object is meant, and how many references to it are handed over. -/
structure StdObjRef where
  flags : UInt32
  publicRefs : Int32
  oxid : Oxid
  oid : Oid
  ipid : Ipid
  deriving DecidableEq, Inhabited

namespace StdObjRef

def size : Nat := 40

/-- A reference to an object that is kept alive by pings. -/
def pinged (oxid : Oxid) (oid : Oid) (ipid : Ipid) (publicRefs : Int32) : StdObjRef :=
  ⟨StdFlag.null, publicRefs, oxid, oid, ipid⟩

/-- A reference to an object that lives without pings. -/
def unpinged (oxid : Oxid) (oid : Oid) (ipid : Ipid) (publicRefs : Int32) : StdObjRef :=
  ⟨StdFlag.noPing, publicRefs, oxid, oid, ipid⟩

/-- Whether the object has to be kept alive by pings. -/
def needsPing (std : StdObjRef) : Bool := std.flags &&& StdFlag.noPing = 0

/-- Writes a reference. The signed count goes as the word with the same bits. -/
def layout (std : StdObjRef) : Layout :=
  .u32 std.flags :: .u32 std.publicRefs.toUInt32 ::
    (std.oxid.layout ++ std.oid.layout ++ std.ipid.layout)

def read : Reader WireError StdObjRef := do
  let flags ← Reader.u32
  let publicRefs ← Reader.i32
  let oxid ← Oxid.read
  let oid ← Oid.read
  let ipid ← Ipid.read
  return ⟨flags, publicRefs, oxid, oid, ipid⟩

end StdObjRef

end OrpcWire
