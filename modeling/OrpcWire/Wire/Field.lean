import OrpcWire.Guid
import OrpcWire.Wire.Alignment

/-!
# Fields and layouts

A writer does not produce octets at once. It produces a layout: the fields of a message in order,
free of byte order and stream position. `Layout.render` then puts a layout at a position, with zero
octets as padding in front of a field that is not aligned there. Layouts of consecutive parts are
appended, and `Layout.render_append` says that rendering threads the position through.

Positions are natural numbers. They count the octets of a stream in memory, so a machine word holds
each of them, and nothing is meant by a stream that goes on past the largest word.
-/

namespace OrpcWire

inductive Field where
  | u8 (word : UInt8)
  | u16 (word : UInt16)
  | u32 (word : UInt32)
  | u64 (word : UInt64)
  /-- Octets copied as they stand. -/
  | raw (octets : List UInt8)
  /-- Nothing but the padding up to a boundary. -/
  | align (boundary : Nat)
  deriving DecidableEq, Repr

namespace Field

def boundary : Field → Nat
  | .u8 _ => 1
  | .u16 _ => 2
  | .u32 _ => 4
  | .u64 _ => 8
  | .raw _ => 1
  | .align boundary => boundary

/-- The octets of the field behind its padding. -/
def body (order : ByteOrder) : Field → List UInt8
  | .u8 word => order.octets 1 word.toNat
  | .u16 word => order.octets 2 word.toNat
  | .u32 word => order.octets 4 word.toNat
  | .u64 word => order.octets 8 word.toNat
  | .raw octets => octets
  | .align _ => []

/-- The octets of the field at a position, padding included. -/
def octets (order : ByteOrder) (position : Nat) (field : Field) : List UInt8 :=
  List.replicate (padding field.boundary position) 0 ++ field.body order

end Field

/-- The fields of a message or of a part of one. -/
abbrev Layout := List Field

namespace Layout

/-- Renders behind `written`, which is kept backwards. -/
def renderOnto (order : ByteOrder) : Nat → Layout → List UInt8 → List UInt8
  | _, [], written => written.reverse
  | position, field :: fields, written =>
    let octets := field.octets order position
    renderOnto order (position + octets.length) fields (octets.reverse ++ written)

def render (order : ByteOrder) (position : Nat) (layout : Layout) : List UInt8 :=
  renderOnto order position layout []

theorem renderOnto_eq (order : ByteOrder) (position : Nat) (layout : Layout)
    (written : List UInt8) :
    renderOnto order position layout written = written.reverse ++ render order position layout := by
  induction layout generalizing position written with
  | nil => simp [renderOnto, render]
  | cons field fields ih =>
    rw [render, renderOnto, renderOnto, ih, ih _ (_ ++ [])]
    simp

@[simp] theorem render_nil (order : ByteOrder) (position : Nat) :
    render order position [] = [] := rfl

theorem render_cons (order : ByteOrder) (position : Nat) (field : Field) (fields : Layout) :
    render order position (field :: fields) = field.octets order position ++
      render order (position + (field.octets order position).length) fields := by
  rw [render, renderOnto, renderOnto_eq]
  simp

/-- A later part starts where the earlier one ends. -/
theorem render_append (order : ByteOrder) (position : Nat) (first second : Layout) :
    render order position (first ++ second) = render order position first ++
      render order (position + (render order position first).length) second := by
  induction first generalizing position with
  | nil => simp
  | cons field fields ih =>
    rw [List.cons_append, render_cons, render_cons, ih, List.append_assoc, List.length_append,
      Nat.add_assoc]

end Layout

/-- The fields of a GUID: the three numbers aligned as words, the eight octets as they stand. -/
def Guid.layout (guid : Guid) : Layout :=
  [.u32 guid.data1, .u16 guid.data2, .u16 guid.data3, .raw guid.data4.octets]

end OrpcWire
