import OrpcWire.Graph.Text

/-!
# Errors of the wire

What can go wrong between values and octets. Octets alone cause only the first two kinds; a mismatch
is a mistake of the program that chose shape and value.
-/

namespace OrpcWire

/-- How a graph fails to fit what is asked of it. -/
inductive Mismatch where
  /-- The value cannot be laid out by the shape. -/
  | notEncodable (value : Value) (shape : Shape)
  /-- The last member of a conformant structure is no array. -/
  | tailNotArray (last : Option Value)
  /-- A pointer to be written names a slot that does not exist. -/
  | danglingPointer (slot : Nat)
  /-- A pointer to be followed names a slot that does not exist. -/
  | unknownSlot (slot : Nat)
  /-- A value to be followed is no pointer. -/
  | notPointer (value : Value)
  | other (text : String)
  deriving Repr

namespace Mismatch

def text : Mismatch → String
  | .notEncodable value shape => "cannot encode " ++ value.text ++ " as " ++ shape.text
  | .tailNotArray none => "conformant struct tail is not an array: None"
  | .tailNotArray (some value) =>
    "conformant struct tail is not an array: Some(" ++ value.text ++ ")"
  | .danglingPointer slot => slotText slot ++ " is not in the graph"
  | .unknownSlot slot => slotText slot ++ " is not in this graph"
  | .notPointer value => "expected a pointer, found " ++ value.text
  | .other text => text

end Mismatch

/-- Why octets cannot be read or a graph cannot be written. -/
inductive WireError where
  /-- Fewer octets are left than a field needs, padding included. -/
  | underflow (needed available : Nat)
  /-- More array elements or referents than allowed. -/
  | limitExceeded (requested limit : Nat)
  /-- A graph that does not fit its shape. -/
  | mismatch (cause : Mismatch)
  deriving Repr

namespace WireError

/-- Whether the caller, and not the octets, is at fault. -/
def isCallerFault : WireError → Bool
  | .mismatch _ => true
  | _ => false

def message : WireError → String
  | .underflow needed available =>
    "buffer underflow: needed " ++ toString needed ++ " bytes, have " ++ toString available
  | .limitExceeded requested limit =>
    "allocation limit exceeded: requested " ++ toString requested ++ ", limit " ++ toString limit
  | .mismatch cause => "shape mismatch: " ++ cause.text

end WireError

end OrpcWire
