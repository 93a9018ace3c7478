import OrpcWire.Causality
import OrpcWire.Envelope.Chain
import OrpcWire.Envelope.Settings

/-!
# Request headers

ORPCTHIS stands in front of the arguments of every request: version, flags, a reserved word, the
causality id and extensions. Sending replaces the causality id by that of the call being served;
receiving makes the call the one being served, but only when the whole header was accepted
(`OrpcThis.receive`).
-/

namespace OrpcWire

structure OrpcThis where
  version : ComVersion
  flags : UInt32
  /-- Sent as 0 whatever it is, and 0 on receipt. -/
  reserved : UInt32
  causalityId : Guid
  extensions : Chain
  deriving DecidableEq, Repr, Inhabited

namespace OrpcThis

/-- The octets of a header without its extensions. -/
def sizeWithoutExtensions : Nat := 4 + 4 + 4 + 16

/-- A header of the newest version in the chain of calls with the given id. -/
def ofCausality (id : Guid) : OrpcThis := ⟨.v5_7, 0, 0, id, none⟩

/-- A header of the version in the settings, in the chain of calls with the given id. -/
def ofSettings (settings : EnvelopeSettings) (id : Guid) : OrpcThis :=
  { ofCausality id with version := settings.version }

/-- The causality id that is sent. -/
def sentCausalityId (header : OrpcThis) (causality : Causality) : Guid :=
  causality.outgoing header.causalityId

/-- Writes a chain in one of its layouts. -/
def encodeChain (layout : ChainLayout) (chain : Chain) (ids : IdSupply) :
    Except OrpcError (Layout × IdSupply) :=
  match layout with
  | .linked => chain.encodeLinked ids
  | .flat => chain.encodeFlat.map (·, ids)

/-- Writes a header, with ids drawn from `ids`. -/
def encode (header : OrpcThis) (settings : EnvelopeSettings) (causality : Causality)
    (ids : IdSupply) : Except OrpcError (Layout × IdSupply) := do
  let (extensions, ids) ← encodeChain settings.chainLayout header.extensions ids
  return (header.version.layout ++ [.u32 header.flags, .u32 0] ++
    (header.sentCausalityId causality).layout ++ extensions, ids)

def read (settings : EnvelopeSettings) : Reader OrpcError OrpcThis := do
  let version ← ComVersion.read
  let flags ← Reader.u32
  let _ ← Reader.u32
  let causalityId ← Reader.guid
  let extensions ← Chain.read settings.extensionLimit
  return ⟨version, flags, 0, causalityId, extensions⟩

/-- Reads a header and serves its call, if the header is accepted. -/
def receive (settings : EnvelopeSettings) (causality : Causality) (order : ByteOrder)
    (cursor : Cursor) : Except OrpcError (OrpcThis × Cursor) × Causality :=
  match (read settings).run order cursor with
  | .ok (header, next) => (.ok (header, next), causality.serve header.causalityId)
  | .error error => (.error error, causality)

end OrpcThis

end OrpcWire
