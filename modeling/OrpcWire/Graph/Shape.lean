/-!
# Shapes

A shape says what stands on the wire: words, GUIDs, structures, counted arrays, and pointers to
further shapes. A structure whose last member is an array is conformant: the element count is
hoisted in front of the whole structure.
-/

namespace OrpcWire

inductive Shape where
  | u8
  | u16
  | u32
  | u64
  | guid
  | struct (members : List Shape)
  /-- A count word, then that many elements. -/
  | array (element : Shape)
  /-- A referent id in place, the referent later. -/
  | pointer (target : Shape)
  deriving Repr, Inhabited

namespace Shape

def octets : Shape := .array .u8

mutual

/-- The boundary at which a construct of this shape starts. -/
def alignment : Shape → Nat
  | .u8 => 1
  | .u16 => 2
  | .u32 | .guid | .pointer _ => 4
  | .u64 => 8
  | .array element => max element.alignment 4
  | .struct members => membersAlignment members

/-- The largest boundary among members, at least 1. An array counts with its elements only, since
its count is a word of its own. -/
def membersAlignment : List Shape → Nat
  | [] => 1
  | .array element :: members => max element.alignment (membersAlignment members)
  | member :: members => max member.alignment (membersAlignment members)

end

/-- Whether members form a conformant structure, that is, end in an array. -/
def isConformant (members : List Shape) : Bool :=
  match members.getLast? with
  | some (.array _) => true
  | _ => false

end Shape

end OrpcWire
