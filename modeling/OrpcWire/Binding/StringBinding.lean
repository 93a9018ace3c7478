import OrpcWire.Binding.NulTerminated
import OrpcWire.Text.Decimal

/-!
# String bindings

A string binding tells under which network address an exporter is reached by which protocol. The
address may end in a port in brackets. A section of string bindings ends with a zero word where the
next tower would stand.
-/

namespace OrpcWire

namespace Tower

def tcp : UInt16 := 0x07
def namedPipe : UInt16 := 0x0f
def http : UInt16 := 0x1f

/-- Calls within one machine. -/
def localRpc : UInt16 := 0x10

/-- The word that stands where a section of bindings ends. -/
def none : UInt16 := 0

def name (tower : UInt16) : String :=
  if tower = tcp then "ncacn_ip_tcp"
  else if tower = namedPipe then "ncacn_np"
  else if tower = http then "ncacn_http"
  else if tower = localRpc then "ncalrpc"
  else "unknown"

end Tower

/-- One way to reach an exporter. -/
structure StringBinding where
  towerId : UInt16
  networkAddr : String
  deriving DecidableEq, Repr, Inhabited

namespace StringBinding

/-- A TCP binding, with the port in brackets behind the host if there is one. -/
def tcp (host : String) (port : Option UInt16) : StringBinding :=
  match port with
  | some port => ⟨Tower.tcp, host ++ "[" ++ port.toNat.repr ++ "]"⟩
  | none => ⟨Tower.tcp, host⟩

def namedPipe (pipe : String) : StringBinding := ⟨Tower.namedPipe, pipe⟩

/-- The address up to its first opening bracket. -/
def hostChars (address : List Char) : List Char := address.takeWhile (· ≠ '[')

/-- What stands between the first opening bracket of an address and its last closing one, if the one
stands before the other. -/
def portChars (address : List Char) : Option (List Char) :=
  match address.dropWhile (· ≠ '[') with
  | [] => none
  | _ :: behind =>
    match behind.reverse.dropWhile (· ≠ ']') with
    | [] => none
    | _ :: between => some between.reverse

def host (binding : StringBinding) : String := .ofList (hostChars binding.networkAddr.toList)

/-- The port in the address, if what stands in the brackets is one. -/
def port (binding : StringBinding) : Option UInt16 := do
  let chars ← portChars binding.networkAddr.toList
  let number ← Decimal.parse? 65535 chars
  return .ofNat number

/-- The 16-bit units that the binding takes on the wire: tower, address and zero unit. -/
def units (binding : StringBinding) : Nat := 1 + Utf16.length binding.networkAddr + 1

/-- The binding as text, the protocol in front of the address. -/
def text (binding : StringBinding) : String :=
  Tower.name binding.towerId ++ ":" ++ binding.networkAddr

def encode (binding : StringBinding) : Except OrpcError Layout :=
  if binding.towerId = Tower.none then
    .error (.stringBinding .reservedTower)
  else if hasNul binding.networkAddr then
    .error (.stringBinding .nulInAddress)
  else
    .ok (.u16 binding.towerId :: nulTerminated binding.networkAddr)

/-- Reads a binding, or none at the end of a section. -/
def read : Reader OrpcError (Option StringBinding) := do
  let towerId ← Reader.u16
  if towerId = Tower.none then
    return none
  let networkAddr ← Reader.textToNul (.stringBinding .addressNotUtf16)
  return some ⟨towerId, networkAddr⟩

theorem read_uses : read.Uses 2 :=
  Reader.Uses.bind (n := 0) Reader.u16_uses.lift fun _ => by
    split
    · exact Reader.Uses.pure _
    · exact Reader.Uses.bind (Reader.textToNul_uses _) fun _ => Reader.Uses.pure _

end StringBinding

end OrpcWire
