import OrpcWire.Error
import OrpcWire.Graph.Shape
import OrpcWire.Graph.Value

/-!
# Extensions

An extension of an envelope is an identifier with data. On the wire the data is padded with zero
octets to a multiple of eight, and a word says how much of it counts.
-/

namespace OrpcWire

structure Extension where
  id : Guid
  data : List UInt8
  deriving DecidableEq, Repr, Inhabited

namespace Extension

def size (extension : Extension) : Except OrpcError UInt32 :=
  if extension.data.length < UInt32.size then
    .ok (.ofNat extension.data.length)
  else
    .error (.extensions (.extensionTooLarge extension.id))

/-- The octets sent for data of a size, the next multiple of eight. -/
def paddedSize (size : Nat) : Nat := (size + 7) / 8 * 8

/-- The data and zero octets up to its padded size. -/
def paddedData (extension : Extension) : List UInt8 :=
  let size := extension.data.length
  extension.data ++ List.replicate (paddedSize size - size) 0

/-- An extension on the wire: identifier, size and padded data. -/
def shape : Shape := .struct [.guid, .u32, .octets]

/-- The value of an extension. -/
def value (extension : Extension) : Except OrpcError Value := do
  let size ← extension.size
  return .struct [.guid extension.id, .u32 size, .ofOctets extension.paddedData]

/-- The extension in the members of a structure. Its declared size cuts off the padding of the
data. -/
def ofMembers (members : List Value) : Except OrpcError Extension :=
  match members with
  | [.guid id, .u32 size, data] =>
    match data.octets? with
    | none => .error (.extensions (.unexpectedShape .extentData))
    | some data =>
      if data.length < size.toNat then
        .error (.extensions (.unexpectedShape .shortData))
      else
        .ok ⟨id, data.take size.toNat⟩
  | _ => .error (.extensions (.unexpectedShape .extentMembers))

/-- An extension without padding: identifier, size, and data as it stands. -/
def flatLayout (extension : Extension) : Except OrpcError Layout := do
  let size ← extension.size
  return extension.id.layout ++ [.u32 size, .raw extension.data]

end Extension

end OrpcWire
