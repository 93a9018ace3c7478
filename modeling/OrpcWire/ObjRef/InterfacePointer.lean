import OrpcWire.Binding.DualStringArray
import OrpcWire.ObjRef.Standard
import OrpcWire.Wire.IdSupply

/-!
# Marshaled interface pointers

An interface pointer travels as a referent id, its length twice, and an object reference: signature,
kind, interface, standard reference and resolver addresses. Only references of the standard kind are
read. A word of marshal flags selects variants of this layout and must be the same for writer and
reader.
-/

namespace OrpcWire

/-- The four octets in front of every object reference. -/
def objRefSignature : Block 4 := ⟨[0x4d, 0x45, 0x4f, 0x57], rfl⟩

inductive ObjRefKind where
  | standard
  | handler
  | custom
  deriving DecidableEq, Repr

namespace ObjRefKind

def word : ObjRefKind → UInt32
  | .standard => 1
  | .handler => 2
  | .custom => 4

/-- The kind that a word stands for. -/
def ofWord? (word : UInt32) : Option ObjRefKind :=
  if word = 1 then some .standard
  else if word = 2 then some .handler
  else if word = 4 then some .custom
  else none

def name : ObjRefKind → String
  | .standard => "Standard"
  | .handler => "Handler"
  | .custom => "Custom"

end ObjRefKind

/-! Flags that select between the layouts of an interface pointer. -/

namespace MarshalFlag

/-- The layout without variants. -/
def null : UInt32 := 0

/-- Write the interface `IUnknown` instead of the pointer's own. -/
def asIUnknown : UInt32 := 0x0200

/-- Write the interface `IDispatch` instead of the pointer's own. -/
def asIDispatch : UInt32 := 0x0400

/-- Neither referent id nor lengths in front of the signature. -/
def bare : UInt32 := 0x0800

/-- Write a zero word instead of the pointer. -/
def nullForVariant : UInt32 := 0x1000

def isSet (flags flag : UInt32) : Bool := flags &&& flag ≠ 0

end MarshalFlag

/-- An interface of an object, and how to reach the object. -/
structure InterfacePointer where
  iid : Guid
  std : StdObjRef
  resolver : DualStringArray
  /-- The length of the object reference as received, or as it will be sent. -/
  objRefLength : UInt32
  deriving DecidableEq, Inhabited

namespace InterfacePointer

/-- The octets of a standard object reference in front of its resolver addresses. -/
def sizeWithoutAddresses : Nat := StdObjRef.size + 4 + 4 + 16

/-- The octets of an object reference with the given resolver addresses. -/
def lengthWith (resolver : DualStringArray) : UInt32 :=
  .ofNat (sizeWithoutAddresses + resolver.length)

def make (iid : Guid) (std : StdObjRef) (resolver : DualStringArray) : InterfacePointer :=
  ⟨iid, std, resolver, lengthWith resolver⟩

/-- A pointer exported by hosts through the resolver on a TCP port. -/
def exportedBy (iid : Guid) (hosts : List String) (port : UInt16) (std : StdObjRef) :
    InterfacePointer :=
  make iid std (.ofHosts hosts port)

/-- The same object seen through another interface. -/
def viewedAs (iid : Guid) (pointer : InterfacePointer) : InterfacePointer :=
  make iid pointer.std pointer.resolver

def kind (_pointer : InterfacePointer) : ObjRefKind := .standard

def sameExporter (a b : InterfacePointer) : Bool := a.std.oxid = b.std.oxid

/-! ## writing -/

/-- The interface that is written under a word of flags. -/
def writtenIid (pointer : InterfacePointer) (flags : UInt32) : Guid :=
  if MarshalFlag.isSet flags MarshalFlag.asIUnknown then Guid.iUnknown
  else if MarshalFlag.isSet flags MarshalFlag.asIDispatch then Guid.iDispatch
  else pointer.iid

/-- Writes the object reference itself. -/
def encodeObjRef (pointer : InterfacePointer) (flags : UInt32) : Except OrpcError Layout := do
  let resolver ← pointer.resolver.encode
  return .raw objRefSignature.octets :: .u32 ObjRefKind.standard.word ::
    ((pointer.writtenIid flags).layout ++ pointer.std.layout ++ resolver)

/-- Writes a pointer under a word of flags, its id drawn from `ids` if it has one. -/
def encode (pointer : InterfacePointer) (flags : UInt32) (ids : IdSupply) :
    Except OrpcError (Layout × IdSupply) :=
  if MarshalFlag.isSet flags MarshalFlag.nullForVariant then
    .ok ([.u32 0], ids)
  else do
    let objRef ← pointer.encodeObjRef flags
    if MarshalFlag.isSet flags MarshalFlag.bare then
      return (objRef, ids)
    else
      let length := lengthWith pointer.resolver
      return (.u32 ids.next :: .u32 length :: .u32 length :: objRef, ids.advance)

/-- Writes a pointer, or the null id where there is none. -/
def encodeOptional (pointer : Option InterfacePointer) (flags : UInt32) (ids : IdSupply) :
    Except OrpcError (Layout × IdSupply) :=
  match pointer with
  | some pointer => pointer.encode flags ids
  | none => .ok ([.u32 nullId], ids)

/-! ## reading -/

/-- Reads an object reference. Where no length was received in front of it, the length is that of
its parts. -/
def readObjRef (length : Option UInt32) : Reader OrpcError InterfacePointer := do
  let signature ← Reader.block 4
  if signature ≠ objRefSignature then
    Reader.fail (.objRef (.signature objRefSignature signature))
  let kind ← Reader.u32
  if ObjRefKind.ofWord? kind ≠ some .standard then
    Reader.fail (.objRefKind kind)
  let iid ← Reader.guid
  let std ← StdObjRef.read
  let resolver ← DualStringArray.read
  return ⟨iid, std, resolver, length.getD (lengthWith resolver)⟩

/-- Reads a pointer written under the same word of flags, none for the null id. The two lengths in
front of an object reference need not agree; the first is kept. -/
def read (flags : UInt32) : Reader OrpcError (Option InterfacePointer) :=
  if MarshalFlag.isSet flags MarshalFlag.bare then
    some <$> readObjRef none
  else do
    match ← Reader.referentId with
    | none => return none
    | some _ =>
      let length ← Reader.u32
      let _ ← Reader.u32
      some <$> readObjRef (some length)

end InterfacePointer

end OrpcWire
