import OrpcWire.Proofs.Envelope.Request
import OrpcWire.Proofs.ObjRef.InterfacePointer

/-!
# Sequences of primitives

Words, GUIDs, identifiers and octets that stand as they are can be mixed at will, with alignment to
any boundary in between. No mark on the wire says which of them comes next, so a reader has to know
their types, and how long octets are. It then finds each of them where the writer put it
(`Primitive.read_finds`). The padding in front depends on the position, so the next one is found
only because the reader is at the position that the writer was at, and this goes on through the
whole sequence (`Primitive.readEach_writeEach`).
-/

namespace OrpcWire

/-- What is put on a stream as one thing. -/
inductive Primitive where
  | u8 (word : UInt8)
  | u16 (word : UInt16)
  | u32 (word : UInt32)
  | i32 (word : Int32)
  | u64 (word : UInt64)
  | guid (guid : Guid)
  /-- Octets copied as they stand. -/
  | raw (octets : List UInt8)
  /-- Nothing but the padding up to a boundary. -/
  | align (boundary : Nat)
  | version (version : ComVersion)
  | oxid (oxid : Oxid)
  | oid (oid : Oid)
  | ipid (ipid : Ipid)
  | std (std : StdObjRef)
  deriving DecidableEq

/-- What a reader has to be told of a primitive. -/
inductive PrimitiveType where
  | u8
  | u16
  | u32
  | i32
  | u64
  | guid
  | raw (length : Nat)
  | align (boundary : Nat)
  | version
  | oxid
  | oid
  | ipid
  | std
  deriving DecidableEq

/-- Where the reader is. -/
def Reader.position {ε : Type} : Reader ε Nat := ⟨fun _ cursor => .ok (cursor.position, cursor)⟩

namespace PrimitiveType

def read : PrimitiveType → Reader WireError Primitive
  | .u8 => .u8 <$> Reader.u8
  | .u16 => .u16 <$> Reader.u16
  | .u32 => .u32 <$> Reader.u32
  | .i32 => .i32 <$> Reader.i32
  | .u64 => .u64 <$> Reader.u64
  | .guid => .guid <$> Reader.guid
  | .raw length => .raw <$> Reader.octets length
  | .align boundary => (fun _ => .align boundary) <$> Reader.align boundary
  | .version => .version <$> ComVersion.read
  | .oxid => .oxid <$> Oxid.read
  | .oid => .oid <$> Oid.read
  | .ipid => .ipid <$> Ipid.read
  | .std => .std <$> StdObjRef.read

/-- Reads primitives one after the other, and notes where it is behind each. -/
def readEach : List PrimitiveType → Reader WireError (List (Primitive × Nat))
  | [] => return []
  | type :: types => do
    let item ← type.read
    let position ← Reader.position
    let others ← readEach types
    return (item, position) :: others

end PrimitiveType

namespace Primitive

def type : Primitive → PrimitiveType
  | .u8 _ => .u8
  | .u16 _ => .u16
  | .u32 _ => .u32
  | .i32 _ => .i32
  | .u64 _ => .u64
  | .guid _ => .guid
  | .raw octets => .raw octets.length
  | .align boundary => .align boundary
  | .version _ => .version
  | .oxid _ => .oxid
  | .oid _ => .oid
  | .ipid _ => .ipid
  | .std _ => .std

def layout : Primitive → Layout
  | .u8 word => [.u8 word]
  | .u16 word => [.u16 word]
  | .u32 word => [.u32 word]
  | .i32 word => [.u32 word.toUInt32]
  | .u64 word => [.u64 word]
  | .guid id => id.layout
  | .raw octets => [.raw octets]
  | .align boundary => [.align boundary]
  | .version value => value.layout
  | .oxid value => value.layout
  | .oid value => value.layout
  | .ipid value => value.layout
  | .std value => value.layout

theorem read_finds (item : Primitive) : item.type.read.Finds item item.layout := by
  cases item with
  | u8 word => exact (Reader.u8_exact.finds word).map u8
  | u16 word => exact (Reader.u16_exact.finds word).map u16
  | u32 word => exact (Reader.u32_exact.finds word).map u32
  | i32 word => exact (Reader.i32_exact.finds word).map i32
  | u64 word => exact (Reader.u64_exact.finds word).map u64
  | guid id => exact (Reader.guid_exact.finds id).map guid
  | raw octets => exact (Reader.octets_finds octets).map raw
  | align boundary => exact ((Reader.align_exact boundary).finds ()).map fun _ => align boundary
  | version value => exact (ComVersion.read_exact.finds value).map version
  | oxid value => exact (Oxid.read_exact.finds value).map oxid
  | oid value => exact (Oid.read_exact.finds value).map oid
  | ipid value => exact (Ipid.read_exact.finds value).map ipid
  | std value => exact (StdObjRef.read_exact.finds value).map std

/-- Writes primitives one after the other. Beside the octets there is a note of where the writer is
behind each. It moves on by the padding and the size of every field, whatever octets it puts
down. -/
def writeEach (order : ByteOrder) : Nat → List Primitive → List UInt8 × List (Primitive × Nat)
  | _, [] => ([], [])
  | position, item :: items =>
    let octets := item.layout.render order position
    let next := item.layout.endFrom position
    let later := writeEach order next items
    (octets ++ later.1, (item, next) :: later.2)

variable {order : ByteOrder} {position : Nat}

theorem writeEach_octets (order : ByteOrder) (position : Nat) (items : List Primitive) :
    (writeEach order position items).1 = Layout.render order position (items.flatMap layout) := by
  induction items generalizing position with
  | nil => rfl
  | cons item items ih =>
    rw [writeEach, ih, List.flatMap_cons, Layout.render_append, Layout.add_length_render]

theorem writeEach_items (order : ByteOrder) (position : Nat) (items : List Primitive) :
    (writeEach order position items).2.map (·.1) = items := by
  induction items generalizing position with
  | nil => rfl
  | cons item items ih => rw [writeEach, List.map_cons, ih]

theorem run_readEach_cons (item : Primitive) (types : List PrimitiveType) (behind : List UInt8) :
    let next := item.layout.endFrom position
    (PrimitiveType.readEach (item.type :: types)).run order
        ⟨position, item.layout.render order position ++ behind⟩ =
      ((PrimitiveType.readEach types).run order ⟨next, behind⟩).map
        fun (others, last) => ((item, next) :: others, last) := by
  intro next
  have hnext : position + (item.layout.render order position).length = next :=
    Layout.add_length_render order position item.layout
  have hitem : item.type.read.run order ⟨position, item.layout.render order position ++ behind⟩ =
      .ok (item, ⟨next, behind⟩) := by
    rw [← hnext]
    exact item.read_finds order _ _ (Layout.between_render order position item.layout behind)
  rw [PrimitiveType.readEach, Reader.run_bind, hitem]
  show ((PrimitiveType.readEach types) >>= _).run order _ = _
  rw [Reader.run_bind]
  cases (PrimitiveType.readEach types).run order ⟨next, behind⟩ <;> rfl

/-- Whatever follows, primitives are read back as they were written, and behind each of them the
reader is where the writer was. -/
theorem readEach_writeEach (items : List Primitive) (order : ByteOrder) (position : Nat)
    (behind : List UInt8) :
    let octets := Layout.render order position (items.flatMap layout)
    let written := writeEach order position items
    written.1 = octets ∧ written.2.map (·.1) = items ∧
      (PrimitiveType.readEach (items.map type)).run order ⟨position, octets ++ behind⟩ =
        .ok (written.2, ⟨position + octets.length, behind⟩) := by
  intro octets written
  refine ⟨writeEach_octets order position items, writeEach_items order position items, ?_⟩
  unfold octets written
  -- The position is general, because the next item starts where this one ends.
  induction items generalizing position with
  | nil => rfl
  | cons item items ih =>
    rw [List.map_cons, List.flatMap_cons, Layout.render_append, List.append_assoc,
      run_readEach_cons, List.length_append, ← Nat.add_assoc, Layout.add_length_render, ih]
    rfl

/-- No boundary need be a power of two, and 0 asks for nothing. -/
example : writeEach .big 1 [.align 3, .raw [7, 8], .align 0, .u16 0x0102] =
    ([0, 0, 7, 8, 0, 1, 2],
      [(.align 3, 3), (.raw [7, 8], 5), (.align 0, 5), (.u16 0x0102, 8)]) := by
  decide

end Primitive

end OrpcWire
