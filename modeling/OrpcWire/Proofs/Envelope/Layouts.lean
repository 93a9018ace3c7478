import OrpcWire.Proofs.Envelope.FlatChain
import OrpcWire.Proofs.Graph.Contents
import OrpcWire.Proofs.ObjRef.InterfacePointer

/-!
# Layouts in both byte orders

What request headers and interface pointers send, as graphs do in `Graph.Sends`: the numbers among
their octets, the octets that stand as they are, and no padding. `encodings_regular` says of all
three that their octets depend on that, on the byte order, and on the position modulo eight.
-/

namespace OrpcWire

variable {layout : Layout} {ids later : IdSupply}

/-! ### Request headers -/

namespace Extension

/-- What an extension sends without padding of its data. -/
def flatContents (extension : Extension) : List Stretch :=
  extension.id.contents ++ [.word 4 extension.data.length, .raw extension.data]

theorem contents_flatFields {extension : Extension} (h : extension.data.length < UInt32.size) :
    extension.flatFields.contents = extension.flatContents := by
  rw [flatFields, Layout.contents_append, Guid.contents_layout, Layout.contents_cons,
    Field.content_ofNat h, flatContents]
  rfl

theorem octal_flatFields (extension : Extension) : extension.flatFields.Octal := by
  simp [flatFields, Field.boundary]

theorem contents_flatMap {extensions : List Extension}
    (h : ∀ extension ∈ extensions, extension.data.length < UInt32.size) :
    Layout.contents (extensions.flatMap (·.flatFields)) = extensions.flatMap (·.flatContents) := by
  induction extensions with
  | nil => rfl
  | cons extension extensions ih =>
    obtain ⟨hfirst, hothers⟩ := List.forall_mem_cons.1 h
    rw [List.flatMap_cons, Layout.contents_append, contents_flatFields hfirst, ih hothers,
      List.flatMap_cons]

theorem octal_flatMap (extensions : List Extension) :
    Layout.Octal (extensions.flatMap (·.flatFields)) := by
  induction extensions with
  | nil => exact Layout.octal_nil
  | cons extension extensions ih =>
    rw [List.flatMap_cons]
    exact Layout.octal_append.2 ⟨extension.octal_flatFields, ih⟩

end Extension

namespace Chain

variable {chain : Chain}

/-- What a chain sends without pointers. -/
def flatContents : Chain → List Stretch
  | none | some [] => [.word 4 0]
  | some extensions => .word 4 extensions.length :: .word 4 0 :: extensions.flatMap (·.flatContents)

/-- What a chain sends in one of its layouts. -/
def Sends (chain : Chain) (layout : ChainLayout) (ids : IdSupply)
    (contents : List Stretch) : Prop :=
  match layout with
  | .linked => ∃ graph encoded, chain.toGraph = .ok graph ∧ graph.encode shape ids = .ok encoded ∧
      graph.Sends shape encoded.referentIds contents
  | .flat => contents = chain.flatContents

theorem encodeLinked_sends (h : chain.encodeLinked ids = .ok (layout, later)) :
    chain.Sends .linked ids layout.contents ∧ layout.Octal := by
  obtain ⟨graph, hgraph, hrest⟩ := bind_eq_ok_iff.1 h
  obtain ⟨encoded, hencoded, heq⟩ := bind_eq_ok_iff.1 hrest
  cases heq
  have hencode := mapError_eq_ok_iff.1 hencoded
  exact ⟨⟨graph, encoded, hgraph, hencode, Graph.sends_of_encode hencode⟩,
    Graph.octal_of_encode hencode⟩

theorem encodeFlat_sends (h : chain.encodeFlat = .ok layout) :
    chain.Sends .flat ids layout.contents ∧ layout.Octal := by
  obtain ⟨hsendable, rfl⟩ := encodeFlat_eq_ok_iff.1 h
  match chain with
  | none | some [] => exact ⟨rfl, by simp [flatFields, Field.boundary]⟩
  | some (first :: others) =>
    obtain ⟨hlength, hdata⟩ := sendable_some.1 hsendable
    constructor
    · show Layout.contents (.u32 (.ofNat (first :: others).length) :: .u32 0 ::
        (first :: others).flatMap (·.flatFields)) = _
      rw [Layout.contents_cons, Layout.contents_cons, Extension.contents_flatMap hdata,
        Field.content_ofNat hlength]
      rfl
    · show Layout.Octal (.u32 (.ofNat (first :: others).length) :: .u32 0 ::
        (first :: others).flatMap (·.flatFields))
      have hextensions := Extension.octal_flatMap (first :: others)
      simp only [Layout.octal_cons, Field.boundary, hextensions, and_true]
      decide

end Chain

namespace OrpcThis

variable {header : OrpcThis} {settings : EnvelopeSettings} {causality : Causality}

/-- What a header sends in front of its chain. -/
def frontContents (header : OrpcThis) (causality : Causality) : List Stretch :=
  [.word 2 header.version.major.toNat, .word 2 header.version.minor.toNat,
    .word 4 header.flags.toNat, .word 4 0] ++ (header.sentCausalityId causality).contents

theorem octal_front : (header.front causality).Octal := by
  simp [front, ComVersion.layout, Field.boundary]

theorem encode_sends (h : header.encode settings causality ids = .ok (layout, later)) :
    ∃ behind, header.extensions.Sends settings.chainLayout ids behind ∧
      layout.contents = header.frontContents causality ++ behind ∧ layout.Octal := by
  have hparts : ∃ chain, layout = header.front causality ++ chain ∧
      header.extensions.Sends settings.chainLayout ids chain.contents ∧ chain.Octal := by
    cases hlayout : settings.chainLayout with
    | linked =>
      obtain ⟨chain, hchain, rfl⟩ := (encode_linked_eq_ok_iff hlayout).1 h
      exact ⟨chain, rfl, Chain.encodeLinked_sends hchain⟩
    | flat =>
      obtain ⟨chain, hchain, rfl⟩ := encode_flat_eq_ok hlayout h
      exact ⟨chain, rfl, Chain.encodeFlat_sends hchain⟩
  obtain ⟨chain, rfl, hsends, hoctal⟩ := hparts
  exact ⟨chain.contents, hsends, Layout.contents_append _ _,
    Layout.octal_append.2 ⟨octal_front, hoctal⟩⟩

end OrpcThis

/-! ### Interface pointers -/

def StdObjRef.contents (std : StdObjRef) : List Stretch :=
  [.word 4 std.flags.toNat, .word 4 std.publicRefs.toUInt32.toNat, .raw std.oxid.octets.octets,
    .raw std.oid.octets.octets] ++ std.ipid.guid.contents

theorem Layout.contents_units (units : List UInt16) :
    Layout.contents (units.map .u16) = units.map fun unit => .word 2 unit.toNat := by
  induction units with
  | nil => rfl
  | cons unit units ih => exact congrArg (Stretch.word 2 unit.toNat :: ·) ih

@[simp] theorem Layout.octal_units (units : List UInt16) : Layout.Octal (units.map .u16) := by
  simp [Layout.Octal, Field.boundary]

namespace InterfacePointer

variable {pointer : InterfacePointer} {flags : UInt32}

/-- What the object reference sends. -/
def objRefContents (pointer : InterfacePointer) (flags : UInt32) : List Stretch :=
  [.raw objRefSignature.octets, .word 4 1] ++ (pointer.writtenIid flags).contents ++
    pointer.std.contents ++ pointer.resolver.wireUnits.map fun unit => .word 2 unit.toNat

/-- What a pointer sends under a word of flags, announced with the given id if with any. -/
def contents (pointer : InterfacePointer) (flags id : UInt32) : List Stretch :=
  if MarshalFlag.isSet flags MarshalFlag.nullForVariant then
    [.word 4 0]
  else if MarshalFlag.isSet flags MarshalFlag.bare then
    pointer.objRefContents flags
  else
    let length := (lengthWith pointer.resolver).toNat
    .word 4 id.toNat :: .word 4 length :: .word 4 length :: pointer.objRefContents flags

theorem contents_objRefLayout :
    (pointer.objRefLayout flags).contents = pointer.objRefContents flags := by
  simp [objRefLayout, objRefContents, StdObjRef.layout, StdObjRef.contents, Oxid.layout, Oid.layout,
    Ipid.layout, Layout.contents_units, Field.content, ObjRefKind.word]

theorem octal_objRefLayout : (pointer.objRefLayout flags).Octal := by
  simp [objRefLayout, StdObjRef.layout, Oxid.layout, Oid.layout, Ipid.layout, Field.boundary]

theorem encode_sends (h : pointer.encode flags ids = .ok (layout, later)) :
    layout.contents = pointer.contents flags ids.next ∧ layout.Octal := by
  rw [contents]
  by_cases hnull : MarshalFlag.isSet flags MarshalFlag.nullForVariant = true
  · rw [encode, if_pos hnull] at h
    cases h
    rw [if_pos hnull]
    exact ⟨rfl, by simp [Field.boundary]⟩
  · obtain ⟨_, hwritten⟩ := (encode_eq_ok_iff (Bool.eq_false_iff.2 hnull)).1 h
    rw [if_neg hnull]
    rw [written] at hwritten
    split at hwritten <;> cases hwritten
    · rw [if_pos ‹_›]
      exact ⟨contents_objRefLayout, octal_objRefLayout⟩
    · rw [if_neg ‹_›, Layout.contents_cons, Layout.contents_cons, Layout.contents_cons,
        contents_objRefLayout]
      exact ⟨rfl, by simp [Field.boundary, octal_objRefLayout]⟩

end InterfacePointer

/-- The layout of graphs, of request headers and of interface pointers depends on what is sent and
on the position modulo eight. In two byte orders they differ in the octets of numbers, which are
reversed, and in nothing else: not in padding, length or ids.

For a graph this is also said of the writer that puts down octets as it goes, whose referent ids are
the same in both orders. -/
theorem encodings_regular :
    (∀ (graph : Graph) (shape : Shape) (ids : IdSupply) (encoded : Encoded),
      graph.encode shape ids = .ok encoded →
        (∀ order position, graph.writeByWorklist shape order position ids =
          .ok (encoded.output order position)) ∧
        ∃ contents,
          graph.Sends shape encoded.referentIds contents ∧ encoded.layout.Regular contents) ∧
    (∀ (header : OrpcThis) (settings : EnvelopeSettings) (causality : Causality) (ids : IdSupply)
      (layout : Layout) (later : IdSupply),
      header.encode settings causality ids = .ok (layout, later) →
      ∃ behind, header.extensions.Sends settings.chainLayout ids behind ∧
        layout.Regular (header.frontContents causality ++ behind)) ∧
    ∀ (pointer : InterfacePointer) (flags : UInt32) (ids : IdSupply) (layout : Layout)
      (later : IdSupply),
      pointer.encode flags ids = .ok (layout, later) →
      layout.Regular (pointer.contents flags ids.next) := by
  refine ⟨fun graph shape ids encoded h => ⟨fun order position => ?_, ?_⟩,
    fun header settings causality ids layout later h => ?_,
    fun pointer flags ids layout later h => ?_⟩
  · rw [Graph.writeByWorklist_eq, h]
    rfl
  · exact ⟨_, Graph.sends_of_encode h, (Graph.octal_of_encode h).regular⟩
  · obtain ⟨behind, hbehind, hcontents, hoctal⟩ := OrpcThis.encode_sends h
    exact ⟨behind, hbehind, hcontents ▸ hoctal.regular⟩
  · obtain ⟨hcontents, hoctal⟩ := InterfacePointer.encode_sends h
    exact hcontents ▸ hoctal.regular

/-- A structure with a GUID behind a single octet and a referent, a header without extensions, and a
pointer without addresses, each from two odd positions. -/
theorem encodings_regular_odd :
    let shape : Shape := .struct [.u8, .guid, .pointer .u64]
    let graph : Graph :=
      .ofValues (.struct [.u8 1, .guid Guid.iDispatch, .pointer (some 0)]) [.u64 7]
    let encoded : Encoded :=
      ⟨.align 4 :: .u8 1 :: (Guid.iDispatch.layout ++ [.u32 firstId, .u64 7]), [firstId], ⟨0x20004⟩⟩
    let header : OrpcThis := .ofCausality Guid.iUnknown
    let sent : Layout := header.front {} ++ [.u32 0]
    let pointer : InterfacePointer := .make Guid.iUnknown (.pinged ⟨.zero 8⟩ ⟨.zero 8⟩ .nil 1) {}
    graph.encode shape .fresh = .ok encoded ∧
      header.encode { chainLayout := .flat } {} .fresh = .ok (sent, .fresh) ∧
      pointer.encode MarshalFlag.bare .fresh = .ok (pointer.objRefLayout MarshalFlag.bare, .fresh) ∧
      encoded.layout.render .big 3 = encoded.layout.render .big 11 ∧
      sent.render .big 3 = sent.render .big 11 ∧
      (pointer.objRefLayout MarshalFlag.bare).Regular
        (pointer.objRefContents MarshalFlag.bare) := by
  intro shape graph encoded header sent pointer
  have hgraph : graph.encode shape .fresh = .ok encoded := by
    unfold shape graph encoded
    cbv
  have hheader : header.encode { chainLayout := .flat } {} .fresh = .ok (sent, .fresh) := rfl
  have hpointer : pointer.encode MarshalFlag.bare .fresh =
      .ok (pointer.objRefLayout MarshalFlag.bare, .fresh) := rfl
  obtain ⟨hgraphs, hheaders, hpointers⟩ := encodings_regular
  obtain ⟨_, _, _, hencoded⟩ := hgraphs graph shape .fresh encoded hgraph
  obtain ⟨_, _, hsent⟩ := hheaders header _ {} .fresh _ _ hheader
  exact ⟨hgraph, hheader, hpointer, hencoded.periodic .big 3 11 rfl, hsent.periodic .big 3 11 rfl,
    hpointers pointer MarshalFlag.bare .fresh _ _ hpointer⟩

end OrpcWire
