import OrpcWire.Binding.NulTerminated

/-!
# Security bindings

A security binding tells which authentication service an exporter accepts, under which principal
name. A chain of them ends with a zero word where the next authentication service would stand.
-/

namespace OrpcWire

namespace AuthnService

/-- No authentication; on the wire, the end of a chain. -/
def none : UInt16 := 0

def dcePrivate : UInt16 := 1
def dcePublic : UInt16 := 2
def gssNegotiate : UInt16 := 9
def winNt : UInt16 := 10
def gssKerberos : UInt16 := 16

end AuthnService

/-- The authorization service word that stands for no authorization. -/
def authzNone : UInt16 := 0xffff

/-- One way to authenticate to an exporter. -/
structure SecurityBinding where
  authnService : UInt16
  authzService : UInt16
  principalName : String
  deriving DecidableEq, Repr, Inhabited

namespace SecurityBinding

def servicesSize : Nat := 4

def nameUnits (binding : SecurityBinding) : Nat := Utf16.length binding.principalName

/-- The octets that the binding takes on the wire: services, name and zero unit. -/
def length (binding : SecurityBinding) : Nat := servicesSize + 2 * binding.nameUnits + 2

/-- The 16-bit units that the binding takes on the wire. -/
def units (binding : SecurityBinding) : Nat := binding.length / 2

def encode (binding : SecurityBinding) : Except OrpcError Layout :=
  if binding.authnService = AuthnService.none then
    .error (.securityBinding .reservedService)
  else if hasNul binding.principalName then
    .error (.securityBinding .nulInName)
  else
    .ok (.u16 binding.authnService :: .u16 binding.authzService ::
      nulTerminated binding.principalName)

/-- Reads a binding, or none at the end of a chain. -/
def read : Reader OrpcError (Option SecurityBinding) := do
  let authnService ← Reader.u16
  if authnService = AuthnService.none then
    return none
  let authzService ← Reader.u16
  let principalName ← Reader.textToNul (.securityBinding .nameNotUtf16)
  return some ⟨authnService, authzService, principalName⟩

/-- Writes bindings one after the other and the end of the chain. -/
def encodeChain (bindings : List SecurityBinding) : Except OrpcError Layout := do
  let layouts ← bindings.mapM encode
  return layouts.flatten ++ [.u16 AuthnService.none]

theorem read_uses : read.Uses 2 :=
  Reader.Uses.bind (n := 0) Reader.u16_uses.lift fun _ => by
    split
    · exact Reader.Uses.pure _
    · exact (Reader.Uses.bind Reader.u16_uses.lift fun _ =>
        Reader.Uses.bind (Reader.textToNul_uses _) fun _ => Reader.Uses.pure _).mono (by omega)

theorem read_progresses : read.Progresses := read_uses.progresses (by omega)

/-- Reads bindings up to the end of the chain. -/
def readChain : Reader OrpcError (List SecurityBinding) := Reader.collect read read_progresses

end SecurityBinding

end OrpcWire
