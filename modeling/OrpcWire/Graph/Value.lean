import OrpcWire.Guid

/-!
# Values

A value is laid out by a shape. A pointer value does not hold its referent but the slot of a graph
in which the referent lies, so that values stay finite while graphs may share referents or run in
circles.
-/

namespace OrpcWire

/-- A value that a shape can lay out. -/
inductive Value where
  | u8 (word : UInt8)
  | u16 (word : UInt16)
  | u32 (word : UInt32)
  | u64 (word : UInt64)
  | guid (id : Guid)
  | struct (members : List Value)
  | array (elements : List Value)
  /-- The slot of the referent, or the null pointer. -/
  | pointer (slot : Option Nat)
  deriving Repr, Inhabited

namespace Value

def null : Value := .pointer none

def ofOctets (octets : List UInt8) : Value := .array (octets.map .u8)

def word? : Value → Option UInt32
  | .u32 word => some word
  | _ => none

def guid? : Value → Option Guid
  | .guid id => some id
  | _ => none

def octet? : Value → Option UInt8
  | .u8 word => some word
  | _ => none

def members? : Value → Option (List Value)
  | .struct members => some members
  | _ => none

def elements? : Value → Option (List Value)
  | .array elements => some elements
  | _ => none

/-- What a pointer points at, itself none for the null pointer. -/
def slot? : Value → Option (Option Nat)
  | .pointer slot => some slot
  | _ => none

/-- The octets of an array that holds nothing else. -/
def octets? (value : Value) : Option (List UInt8) := do
  let elements ← value.elements?
  elements.mapM octet?

theorem octets?_ofOctets (octets : List UInt8) : (ofOctets octets).octets? = some octets := by
  induction octets with
  | nil => rfl
  | cons octet octets ih =>
    simp only [ofOctets, octets?, elements?, Option.bind_eq_bind, Option.bind_some,
      List.map_cons] at ih ⊢
    rw [List.mapM_cons, ih]
    rfl

end Value

end OrpcWire
