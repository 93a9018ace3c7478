import OrpcWire.Wire.Error
import OrpcWire.Wire.Reader

/-!
# Errors of the object protocol

What can go wrong in object references, bindings and envelopes. Every error names its cause;
`OrpcError.message` is the one place with their wording, `OrpcError.kind` and `OrpcError.hresult`
say how a failing call reports them.
-/

namespace OrpcWire

inductive SecurityBindingDefect where
  /-- Authentication service 0 ends a chain and cannot be a member of one. -/
  | reservedService
  | nulInName
  | nameNotUtf16
  | other (text : String)
  deriving DecidableEq, Repr

/-- What is wrong with a string binding or a list of bindings. -/
inductive StringBindingDefect where
  /-- Tower 0 ends a section and cannot be a member of one. -/
  | reservedTower
  | nulInAddress
  | addressNotUtf16
  /-- The list has more units than its header can count. -/
  | listTooLong
  /-- The security section starts behind the end of the list. -/
  | offsetBeyondEnd (offset entries : Nat)
  | other (text : String)
  deriving DecidableEq, Repr

inductive ObjRefDefect where
  /-- The reference begins with other octets than its signature. -/
  | signature (expected found : Block 4)
  | other (text : String)
  deriving DecidableEq, Repr

/-- Which part of an extension array is not what its shape calls for. -/
inductive ExtensionPart where
  | header
  | count
  | arrayPointer
  | nullArrayPointer
  | array
  | fewerSlots
  | extent
  | extentMembers
  | extentData
  | shortData
  deriving DecidableEq, Repr

inductive ExtensionsDefect where
  /-- The header counts more extensions than are accepted. -/
  | tooManyReceived (count limit : Nat)
  /-- The extensions to be written are more than a word can count. -/
  | tooManyToSend
  /-- The data of an extension to be written is longer than a word can say. -/
  | extensionTooLarge (id : Guid)
  | unexpectedShape (part : ExtensionPart)
  | other (text : String)
  deriving DecidableEq, Repr

/-- Why a message of the object protocol cannot be read or written. -/
inductive OrpcError where
  /-- The octets or the graph underneath. -/
  | wire (error : WireError)
  | objRef (defect : ObjRefDefect)
  /-- An object reference of a kind other than the standard one. -/
  | objRefKind (kind : UInt32)
  /-- Reply flags outside the accepted ones. -/
  | replyFlags (flags : UInt32)
  | securityBinding (defect : SecurityBindingDefect)
  | stringBinding (defect : StringBindingDefect)
  | extensions (defect : ExtensionsDefect)
  deriving Repr

inductive ErrorKind where
  /-- The octets received are no valid message. -/
  | malformed
  /-- A valid message of a kind that is not read here. -/
  | unsupported
  /-- The program asked for something that cannot be laid out. -/
  | callerFault
  deriving DecidableEq, Repr

/-! ## wording -/

def SecurityBindingDefect.text : SecurityBindingDefect → String
  | .reservedService => "authentication service 0 is reserved for the chain terminator"
  | .nulInName => "principal name contains a NUL"
  | .nameNotUtf16 => "principal name is not valid UTF-16"
  | .other text => text

def StringBindingDefect.text : StringBindingDefect → String
  | .reservedTower => "tower id 0 is reserved for the section terminator"
  | .nulInAddress => "network address contains a NUL"
  | .addressNotUtf16 => "invalid UTF-16 string"
  | .listTooLong => "resolver address list too long"
  | .offsetBeyondEnd offset entries =>
    "security offset " ++ toString offset ++ " beyond " ++ toString entries ++ " entries"
  | .other text => text

/-- The defect in words, octets as hexadecimal digits. -/
def ObjRefDefect.text : ObjRefDefect → String
  | .signature expected found =>
    let list (block : Block 4) := bracketed (block.octets.map fun octet => Hex.text [octet])
    "invalid signature: expected " ++ list expected ++ ", got " ++ list found
  | .other text => text

def ExtensionPart.text : ExtensionPart → String
  | .header => "header"
  | .count => "count"
  | .arrayPointer => "array pointer"
  | .nullArrayPointer => "array pointer is null"
  | .array => "array"
  | .fewerSlots => "fewer slots than extensions"
  | .extent => "extent"
  | .extentMembers => "extent members"
  | .extentData => "extent data"
  | .shortData => "extent data shorter than its size"

def ExtensionsDefect.text : ExtensionsDefect → String
  | .tooManyReceived count limit =>
    toString count ++ " extensions exceed the limit of " ++ toString limit
  | .tooManyToSend => "too many extensions"
  | .extensionTooLarge id => "extension " ++ id.text ++ " is too large"
  | .unexpectedShape part => "unexpected extension array shape: " ++ part.text
  | .other text => text

namespace OrpcError

def wordText (word : UInt32) : String := "0x" ++ Hex.text (ByteOrder.big.octets 4 word.toNat)

def message : OrpcError → String
  | .wire error => "NDR error: " ++ error.message
  | .objRef defect => "invalid OBJREF: " ++ defect.text
  | .objRefKind kind => "unsupported OBJREF kind: " ++ wordText kind
  | .replyFlags flags => "invalid ORPC flags: " ++ wordText flags
  | .securityBinding defect => "invalid security binding: " ++ defect.text
  | .stringBinding defect => "invalid string binding: " ++ defect.text
  | .extensions defect => "invalid data: " ++ defect.text

def kind : OrpcError → ErrorKind
  | .wire error => if error.isCallerFault then .callerFault else .malformed
  | .objRefKind _ | .replyFlags _ => .unsupported
  | _ => .malformed

end OrpcError

/-! ## result codes of failing calls -/

namespace Hresult

def fail : UInt32 := 0x80004005

def noInterface : UInt32 := 0x80004002

/-- The header of the call cannot be read. -/
def invalidHeader : UInt32 := 0x80010111

end Hresult

/-- The result code for a call that fails with an error. -/
def OrpcError.hresult (error : OrpcError) : UInt32 :=
  match error.kind, error with
  | .callerFault, _ => Hresult.fail
  | .unsupported, .objRefKind _ => Hresult.noInterface
  | _, _ => Hresult.invalidHeader

/-- Readers of the wire run inside readers of the object protocol. -/
instance : MonadLift (Reader WireError) (Reader OrpcError) where
  monadLift reader := reader.mapError OrpcError.wire

theorem Reader.Uses.lift {α : Type} {n : Nat} {reader : Reader WireError α} (h : reader.Uses n) :
    (liftM reader : Reader OrpcError α).Uses n :=
  h.mapError OrpcError.wire

end OrpcWire
