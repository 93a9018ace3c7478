import OrpcWire.Wire.Error

/-!
# Graphs

A graph is a root value and a table of referents. Pointer values name slots of the table. Graphs
read off the wire have one slot for each pointer that is not null; graphs made by a program may name
a slot several times, in a circle, or name slots that do not exist.
-/

namespace OrpcWire

/-- A value that pointers point at. -/
structure Referent where
  /-- The id under which the referent was announced on the wire, 0 if it was made here. -/
  id : UInt32
  value : Value
  deriving Repr, Inhabited

/-- A value and the referents its pointers name. -/
structure Graph where
  root : Value := .null
  /-- Slot `k` is the referent at index `k`. -/
  referents : List Referent := []
  deriving Repr, Inhabited

namespace Graph

/-- The graph whose referents were made here and have no ids. -/
def ofValues (root : Value) (values : List Value) : Graph :=
  ⟨root, values.map fun value => ⟨0, value⟩⟩

def value? (graph : Graph) (slot : Nat) : Option Value :=
  graph.referents[slot]?.map (·.value)

/-- Follows a pointer, to none from the null pointer. -/
def follow (graph : Graph) (pointer : Value) : Except WireError (Option Value) :=
  match pointer with
  | .pointer none => .ok none
  | .pointer (some slot) =>
    match graph.value? slot with
    | some value => .ok (some value)
    | none => .error (.mismatch (.unknownSlot slot))
  | value => .error (.mismatch (.notPointer value))

/-- The referents announced under an id. A stream may repeat an id; each occurrence is a referent of
its own. -/
def withId (graph : Graph) (id : UInt32) : List Referent :=
  graph.referents.filter fun referent => referent.id = id

end Graph

end OrpcWire
