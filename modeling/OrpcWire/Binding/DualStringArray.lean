import OrpcWire.Binding.SecurityBinding
import OrpcWire.Binding.StringBinding

/-!
# Resolver address lists

A resolver address list tells an importer how to reach the resolver of an exporter: string bindings,
then security bindings, in an array of 16-bit units. Its header gives the number of units and the
unit at which the security bindings start. A section without bindings is written as two zero units.

On reading the array is taken as a whole and cut at the security offset, so no binding reaches from
one section into the other, and what follows the end of a section inside it does not count.
-/

namespace OrpcWire

/-- How to reach the resolver of an exporter, in wire order. -/
structure DualStringArray where
  stringBindings : List StringBinding := []
  securityBindings : List SecurityBinding := []
  deriving DecidableEq, Repr, Inhabited

namespace DualStringArray

def headerSize : Nat := 4

/-- A TCP binding for each host on one port, and NTLM without authorization. -/
def ofHosts (hosts : List String) (port : UInt16) : DualStringArray where
  stringBindings := hosts.map fun host => .tcp host (some port)
  securityBindings := [⟨AuthnService.winNt, authzNone, ""⟩]

def stringUnits (list : DualStringArray) : Nat :=
  if list.stringBindings.isEmpty then 2 else list.stringBindings.foldr (·.units + ·) 0 + 1

def securityUnits (list : DualStringArray) : Nat :=
  if list.securityBindings.isEmpty then 2 else list.securityBindings.foldr (·.units + ·) 0 + 1

def numEntries (list : DualStringArray) : Nat := list.stringUnits + list.securityUnits

/-- The unit at which the security section starts. -/
def securityOffset (list : DualStringArray) : Nat := list.stringUnits

/-- The octets that the list takes on the wire, header included. -/
def length (list : DualStringArray) : Nat := headerSize + 2 * list.numEntries

def encodeStrings (bindings : List StringBinding) : Except OrpcError Layout :=
  if bindings.isEmpty then
    .ok [.u16 0, .u16 0]
  else do
    let layouts ← bindings.mapM (·.encode)
    return layouts.flatten ++ [.u16 0]

def encodeSecurity (bindings : List SecurityBinding) : Except OrpcError Layout :=
  if bindings.isEmpty then .ok [.u16 0, .u16 0] else SecurityBinding.encodeChain bindings

def encode (list : DualStringArray) : Except OrpcError Layout :=
  if list.numEntries ≤ 65535 then do
    let strings ← encodeStrings list.stringBindings
    let security ← encodeSecurity list.securityBindings
    return .u16 (.ofNat list.numEntries) :: .u16 (.ofNat list.securityOffset) ::
      (strings ++ security)
  else
    .error (.stringBinding .listTooLong)

/-- A string binding, or none at the end of the section or of its octets. -/
def readString : Reader OrpcError (Option StringBinding) := do
  if ← Reader.atEnd then
    return none
  StringBinding.read

theorem readString_progresses : readString.Progresses := by
  intro order cursor binding next heq
  obtain ⟨done, middle, hdone, heq⟩ := Reader.run_bind_eq_ok.1 heq
  cases hdone
  split at heq
  · cases heq
  · exact StringBinding.read_uses.progresses (by omega) order cursor binding next heq

def readStrings : Reader OrpcError (List StringBinding) :=
  Reader.collect readString readString_progresses

/-- Reads the security bindings of a section, which may have no octets at all. -/
def readSecurity : Reader OrpcError (List SecurityBinding) := do
  if ← Reader.atEnd then
    return []
  SecurityBinding.readChain

def read : Reader OrpcError DualStringArray := do
  let entries := (← Reader.u16).toNat
  let offset := (← Reader.u16).toNat
  if entries < offset then
    Reader.fail (.stringBinding (.offsetBeyondEnd offset entries))
  let array ← Reader.octets (2 * entries)
  let stringBindings ← Reader.within (array.take (2 * offset)) readStrings
  let securityBindings ← Reader.within (array.drop (2 * offset)) readSecurity
  return ⟨stringBindings, securityBindings⟩

end DualStringArray

end OrpcWire
