import OrpcWire.Envelope.Extension
import OrpcWire.Graph.Decode
import OrpcWire.Graph.Encode

/-!
# Extension chains

Envelopes carry a chain of extensions or none at all. On the wire a chain is a pointer to a header,
which counts the extensions and points at an array of pointers to them. The array has an even number
of slots; a slot too many is null, and null slots are passed over on reading. No chain at all is the
null pointer and differs from a chain without extensions.

`Chain.toGraph` makes the graph of a chain and `Chain.ofGraph` takes a graph of the same shape
apart. There is also a layout without pointers, `Chain.encodeFlat`, which is only ever written.

`Chain.paddedSlots` and `Chain.referentLimit` are natural numbers and do not stop at the largest
machine word. It would make a difference only for limits within two of that word, and no wire in
memory has the referents to reach those.
-/

namespace OrpcWire

/-- The extensions of an envelope, none for the null pointer. -/
abbrev Chain := Option (List Extension)

namespace Chain

/-- The slots sent for a number of extensions, the next multiple of two. -/
def paddedSlots (count : Nat) : Nat := (count + 1) / 2 * 2

/-- The most referents of a chain of at most `limit` extensions: header, array, and one for each
slot. -/
def referentLimit (limit : Nat) : Nat := paddedSlots limit + 2

def shape : Shape :=
  .pointer (.struct [.u32, .u32, .pointer (.array (.pointer Extension.shape))])

def countWord (extensions : List Extension) : Except OrpcError UInt32 :=
  if extensions.length < UInt32.size then
    .ok (.ofNat extensions.length)
  else
    .error (.extensions .tooManyToSend)

/-! ## as a graph -/

/-- Pointers to the first `count` slots of a graph, and null pointers up to an even number. -/
def slots (count : Nat) : List Value :=
  (List.range count).map (fun slot => .pointer (some slot)) ++
    List.replicate (paddedSlots count - count) .null

/-- The graph of a chain: the extensions first, then the array, then the header. -/
def toGraph (chain : Chain) : Except OrpcError Graph :=
  match chain with
  | none => .ok {}
  | some extensions => do
    let values ← extensions.mapM (·.value)
    let count ← countWord extensions
    let array := extensions.length
    let header : Value := .struct [.u32 count, .u32 0, .pointer (some array)]
    return .ofValues (.pointer (some (array + 1))) (values ++ [.array (slots array), header])

/-- Follows a pointer of a graph. -/
def follow (graph : Graph) (pointer : Value) : Except OrpcError (Option Value) :=
  (graph.follow pointer).mapError .wire

/-- What a part of the graph is expected to be, or the error that names the part. -/
def expect {α : Type} (part : ExtensionPart) (found : Option α) : Except OrpcError α :=
  found.elim (.error (.extensions (.unexpectedShape part))) .ok

/-- The extension a slot points at, none for a null slot. -/
def ofSlot (graph : Graph) (slot : Value) : Except OrpcError (Option Extension) := do
  match ← follow graph slot with
  | none => return none
  | some extent =>
    let members ← expect .extent extent.members?
    some <$> Extension.ofMembers members

/-- The extensions in the array that a header points at. -/
def ofArray (graph : Graph) (count : Nat) (pointer : Value) :
    Except OrpcError (List Extension) := do
  match ← follow graph pointer with
  | none =>
    if count = 0 then return [] else .error (.extensions (.unexpectedShape .nullArrayPointer))
  | some array =>
    let slots ← expect .array array.elements?
    if slots.length < count then
      .error (.extensions (.unexpectedShape .fewerSlots))
    else
      let found ← slots.mapM (ofSlot graph)
      return found.filterMap fun extension => extension

/-- The extensions behind the header of a chain, if it counts no more than `limit`. -/
def ofHeader (graph : Graph) (limit : Nat) (members : List Value) :
    Except OrpcError (List Extension) := do
  let count ← expect .count (members.head?.bind Value.word?)
  if limit < count.toNat then
    .error (.extensions (.tooManyReceived count.toNat limit))
  else
    let pointer ← expect .arrayPointer members[2]?
    ofArray graph count.toNat pointer

/-- The chain in a graph of the shape of chains. -/
def ofGraph (limit : Nat) (graph : Graph) : Except OrpcError Chain := do
  match ← follow graph graph.root with
  | none => return none
  | some header =>
    let members ← expect .header header.members?
    some <$> ofHeader graph limit members

/-! ## on the wire -/

/-- Writes a chain behind pointers. -/
def encodeLinked (chain : Chain) (ids : IdSupply) : Except OrpcError (Layout × IdSupply) := do
  let graph ← chain.toGraph
  let encoded ← (graph.encode shape ids).mapError OrpcError.wire
  return (encoded.layout, encoded.ids)

/-- Writes a chain without pointers. -/
def encodeFlat (chain : Chain) : Except OrpcError Layout :=
  match chain with
  | none | some [] => .ok [.u32 0]
  | some extensions => do
    let count ← countWord extensions
    let layouts ← extensions.mapM (·.flatLayout)
    return .u32 count :: .u32 0 :: layouts.flatten

/-- Reads a chain behind pointers, with a header that counts no more than `limit`. -/
def read (limit : Nat) : Reader OrpcError Chain := do
  let graph ← Graph.read (some (referentLimit limit)) shape
  Reader.ofExcept (ofGraph limit graph)

end Chain

end OrpcWire
