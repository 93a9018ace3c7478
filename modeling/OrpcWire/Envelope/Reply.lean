import OrpcWire.Envelope.Chain
import OrpcWire.Envelope.Settings

/-!
# Reply headers

ORPCTHAT stands in front of the results of every reply: flags and extensions. Received flags must be
one of the accepted words; what is sent has neither flags nor extensions.
-/

namespace OrpcWire

/-! Flag words of request and reply headers. -/

namespace OrpcFlag

def null : UInt32 := 0x00

/-- The call stays on this machine. -/
def isLocal : UInt32 := 0x01

def reserved1 : UInt32 := 0x02
def reserved2 : UInt32 := 0x04
def reserved3 : UInt32 := 0x08
def reserved4 : UInt32 := 0x10

/-- The words that a reply may carry. -/
def accepted : List UInt32 := [null, isLocal, reserved1, reserved2, reserved3, reserved4]

end OrpcFlag

structure OrpcThat where
  flags : UInt32 := OrpcFlag.null
  extensions : Chain := none
  deriving DecidableEq, Repr, Inhabited

namespace OrpcThat

/-- The octets of a header without its extensions. -/
def sizeWithoutExtensions : Nat := 4 + 4

/-- The flags that callers may act on. Reserved bits are not shown. -/
def visibleFlags (header : OrpcThat) : UInt32 :=
  if header.flags &&& OrpcFlag.isLocal ≠ 0 then OrpcFlag.isLocal else OrpcFlag.null

/-- Writes a header, which has neither flags nor extensions whatever was received. -/
def layout (_header : OrpcThat) : Layout := [.u32 OrpcFlag.null, .u32 nullId]

def read (settings : EnvelopeSettings) : Reader OrpcError OrpcThat := do
  let flags ← Reader.u32
  if flags ∉ OrpcFlag.accepted then
    Reader.fail (.replyFlags flags)
  let extensions ← Chain.read settings.extensionLimit
  return ⟨flags, extensions⟩

end OrpcThat

end OrpcWire
