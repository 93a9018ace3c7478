import OrpcWire.Graph.Shape
import OrpcWire.Graph.Value

/-!
# Pointers on top of each other

The pointer depth of a shape is the largest number of pointers passed on a way from the shape to its
leaves. It bounds how many generations of referents a value of that shape can have, whatever graph
the pointers run through.
-/

namespace OrpcWire

namespace Shape

mutual

/-- How many pointers lie on top of each other in a shape. -/
def pointerDepth : Shape → Nat
  | .u8 | .u16 | .u32 | .u64 | .guid => 0
  | .struct members => membersDepth members
  | .array element => element.pointerDepth
  | .pointer target => target.pointerDepth + 1

/-- The largest pointer depth among members. -/
def membersDepth : List Shape → Nat
  | [] => 0
  | member :: members => max member.pointerDepth (membersDepth members)

end

end Shape

namespace Value

mutual

/-- How many pointers in a value are not null. -/
def pointerCount : Value → Nat
  | .u8 _ | .u16 _ | .u32 _ | .u64 _ | .guid _ | .pointer none => 0
  | .pointer (some _) => 1
  | .struct members => pointerCounts members
  | .array elements => pointerCounts elements

/-- How many pointers in several values are not null. -/
def pointerCounts : List Value → Nat
  | [] => 0
  | value :: values => value.pointerCount + pointerCounts values

end

end Value

end OrpcWire
