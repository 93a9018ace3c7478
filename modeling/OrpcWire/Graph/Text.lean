import OrpcWire.Graph.Shape
import OrpcWire.Graph.Value

/-!
# Shapes and values as text

The text that appears in messages: the name of the construct, its content in parentheses, lists in
brackets with a comma and a blank between items.
-/

namespace OrpcWire

def bracketed (items : List String) : String :=
  "[" ++ String.intercalate ", " items ++ "]"

namespace Shape

mutual

def text : Shape → String
  | .u8 => "U8"
  | .u16 => "U16"
  | .u32 => "U32"
  | .u64 => "U64"
  | .guid => "Guid"
  | .struct members => "Struct(" ++ bracketed (texts members) ++ ")"
  | .array element => "ConformantArray(" ++ element.text ++ ")"
  | .pointer target => "Pointer(" ++ target.text ++ ")"

def texts : List Shape → List String
  | [] => []
  | shape :: shapes => shape.text :: texts shapes

end

end Shape

def slotText (slot : Nat) : String := "Slot#" ++ toString slot

namespace Value

mutual

def text : Value → String
  | .u8 word => "U8(" ++ toString word.toNat ++ ")"
  | .u16 word => "U16(" ++ toString word.toNat ++ ")"
  | .u32 word => "U32(" ++ toString word.toNat ++ ")"
  | .u64 word => "U64(" ++ toString word.toNat ++ ")"
  | .guid id => "Guid(" ++ id.text ++ ")"
  | .struct members => "Struct(" ++ bracketed (texts members) ++ ")"
  | .array elements => "Array(" ++ bracketed (texts elements) ++ ")"
  | .pointer none => "Pointer(None)"
  | .pointer (some slot) => "Pointer(Some(" ++ slotText slot ++ "))"

def texts : List Value → List String
  | [] => []
  | value :: values => value.text :: texts values

end

end Value

end OrpcWire
