import OrpcWire.Proofs.Envelope.Reply
import OrpcWire.Proofs.Graph.Fails
import OrpcWire.Proofs.Graph.Table
import OrpcWire.Proofs.ObjRef.Fails

/-!
# How reading headers fails

A chain that is read has been taken out of a graph of its shape, so no part of it is missing or of
the wrong kind (`Chain.read_malformed`). With that every error a peer can cause says that the octets
are no valid message, except where an object reference is of an unsupported kind or the flags of a
reply are not accepted; none says that the program is at fault (`errors_of_octets`).
-/

namespace OrpcWire

open Reader (FailsOnly Malformed)

variable {settings : EnvelopeSettings} {order : ByteOrder} {cursor : Cursor} {error : OrpcError}

theorem Chain.ofGraph_fails {bound : Option Nat} {limit : Nat} {graph : Graph} {next : Cursor}
    (hgraph : (Graph.read bound shape).run order cursor = .ok (graph, next))
    (h : ofGraph limit graph = .error error) :
    ∃ defect, error = .extensions defect ∧ ExtentArray.Defect limit defect := by
  obtain ⟨array, hreceived, _⟩ := received_of_read hgraph
  rw [hreceived limit] at h
  exact received_fails h

theorem Chain.read_malformed (limit : Nat) : (read limit).Malformed := by
  intro order cursor error heq
  rcases Reader.run_bind_eq_error_iff.1 heq with hgraph | ⟨graph, next, hgraph, htaken⟩
  · exact (Graph.read_failsOnly _ _).lift order cursor error hgraph
  · obtain ⟨defect, rfl, _⟩ :=
      ofGraph_fails (Reader.run_eq_ok_of_lift hgraph) (map_eq_error_iff.1 htaken)
    rfl

theorem ComVersion.read_failsOnly : ComVersion.read.FailsOnly WireError.OfOctets :=
  Reader.u16_failsOnly.bind fun _ => Reader.u16_failsOnly.bind fun _ => .pure _

theorem OrpcThis.read_malformed (settings : EnvelopeSettings) : (read settings).Malformed := by
  refine FailsOnly.bind ComVersion.read_failsOnly.lift fun version => ?_
  refine FailsOnly.bind Reader.u32_failsOnly.lift fun flags => ?_
  refine FailsOnly.bind Reader.u32_failsOnly.lift fun reserved => ?_
  refine FailsOnly.bind Reader.guid_failsOnly.lift fun causalityId => ?_
  exact FailsOnly.bind (Chain.read_malformed _) fun chain => .pure _

namespace OrpcThat

theorem read_faultless (settings : EnvelopeSettings) : (read settings).Faultless := by
  refine FailsOnly.bind Reader.u32_failsOnly.lift.faultless fun flags => ?_
  apply FailsOnly.guard
  · exact ErrorKind.noConfusion
  · exact FailsOnly.bind (Chain.read_malformed _).faultless fun chain => .pure _

/-- A reply header is refused for its flags, or its octets are no valid message. -/
theorem read_unsupported_iff :
    ((read settings).run order cursor = .error error ∧ error.kind = .unsupported) ↔
      ∃ flags next, Layout.Between order [.u32 flags] cursor next ∧ flags ∉ OrpcFlag.accepted ∧
        error = .replyFlags flags := by
  constructor
  · rintro ⟨h, hunsupported⟩
    have hne := OrpcError.not_malformed_of_unsupported hunsupported
    obtain ⟨flags, middle, hflags, _⟩ := (Reader.u32_failsOnly.lift.run_bind_eq_error_iff hne).1 h
    have hbetween := (Reader.u32_exact _ _ _ _).1 (Reader.run_eq_ok_of_lift hflags)
    rw [run_read_flags settings hbetween] at h
    by_cases haccepted : flags ∈ OrpcFlag.accepted
    · rw [if_pos haccepted] at h
      exact absurd (Chain.read_malformed _ order middle error (map_eq_error_iff.1 h)) hne
    · rw [if_neg haccepted] at h
      cases h
      exact ⟨flags, middle, hbetween, haccepted, rfl⟩
  · rintro ⟨flags, next, hbetween, haccepted, rfl⟩
    rw [run_read_flags settings hbetween, if_neg haccepted]
    exact ⟨rfl, rfl⟩

end OrpcThat

/-- A request header cannot be sent only if its chain has more of something than a word can
count. -/
theorem OrpcThis.encode_fails {header : OrpcThis} {causality : Causality} {ids : IdSupply}
    (hlinked : settings.chainLayout = .linked)
    (h : header.encode settings causality ids = .error error) :
    (∃ defect, error = .extensions defect ∧ Chain.Unsendable defect) ∨
      ∃ count, error = .wire (.limitExceeded count (UInt32.size - 1)) := by
  rw [encode, hlinked] at h
  rcases bind_eq_error_iff.1 h with hchain | ⟨_, _, hpure⟩
  · exact Chain.encodeLinked_fails hchain
  · cases hpure

/-! ### All errors -/

/-- What can go wrong with octets, whatever they are. No error says that the program is at fault,
and unsupported are just the object references of a kind other than the standard one and the replies
with other flags than the accepted ones. Graphs are not read for want of octets or for an excess of
elements or referents, with a table of slots or without. So a chain that is taken out of a graph
that was read is refused for its count or the size of an extent, and never because a pointer leads
nowhere or a part of the header, the array or an extent is missing or of the wrong kind. The graph
that is made of a chain fits the shape of chains, so sending a header never finds a mismatch
either. -/
theorem errors_of_octets (order : ByteOrder) (cursor : Cursor) (flags : UInt32)
    (settings : EnvelopeSettings) (causality : Causality) :
    ((∀ error, (InterfacePointer.read flags).run order cursor = .error error →
        error.kind ≠ .callerFault) ∧
      ((∃ error, (InterfacePointer.read flags).run order cursor = .error error ∧
          error.kind = .unsupported) ↔
        ∃ kind, InterfacePointer.PointsAt flags order cursor kind ∧ kind ≠ 1)) ∧
    (∀ error, DualStringArray.read.run order cursor = .error error → error.kind = .malformed) ∧
    (∀ error, SecurityBinding.readChain.run order cursor = .error error → error.kind = .malformed) ∧
    (∀ error, (OrpcThis.receive settings causality order cursor).1 = .error error →
      error.kind = .malformed) ∧
    ((∀ error, (OrpcThat.read settings).run order cursor = .error error →
        error.kind ≠ .callerFault) ∧
      ((∃ error, (OrpcThat.read settings).run order cursor = .error error ∧
          error.kind = .unsupported) ↔
        ∃ word next, Layout.Between order [.u32 word] cursor next ∧
          word ∉ [0, 1, 2, 4, 8, 16])) ∧
    (∀ limit shape, ∀ reader ∈ [Graph.read limit shape, Graph.readByTable limit shape], ∀ error,
      reader.run order cursor = .error error →
        (∃ needed available, error = .underflow needed available) ∨
          ∃ requested most, error = .limitExceeded requested most) ∧
    (∀ bound limit graph next error,
      (Graph.read bound Chain.shape).run order cursor = .ok (graph, next) →
        Chain.ofGraph limit graph = .error error →
          ∃ defect, error = .extensions defect ∧ ExtentArray.Defect limit defect) ∧
    (∀ chain graph, Chain.toGraph chain = .ok graph →
      (graph.tree? Chain.shape graph.root).isSome = true) ∧
    (settings.chainLayout = .linked → ∀ header ids error,
      OrpcThis.encode header settings causality ids = .error error →
        ∀ cause, error ≠ .wire (.mismatch cause)) := by
  refine ⟨⟨?_, ?_⟩, ?_, ?_, ?_, ⟨?_, ?_⟩, ?_, ?_, ?_, ?_⟩
  · exact InterfacePointer.read_faultless flags order cursor
  · simp only [InterfacePointer.read_unsupported_iff]
    constructor
    · rintro ⟨error, kind, hpoints, hother, rfl⟩
      exact ⟨kind, hpoints, hother⟩
    · rintro ⟨kind, hpoints, hother⟩
      exact ⟨_, kind, hpoints, hother, rfl⟩
  · exact DualStringArray.read_malformed order cursor
  · exact SecurityBinding.readChain_malformed order cursor
  · intro error heq
    rw [OrpcThis.receive_fst] at heq
    exact OrpcThis.read_malformed settings order cursor error heq
  · exact OrpcThat.read_faultless settings order cursor
  · simp only [OrpcThat.read_unsupported_iff]
    constructor
    · rintro ⟨error, word, next, hbetween, hother, rfl⟩
      exact ⟨word, next, hbetween, hother⟩
    · rintro ⟨word, next, hbetween, hother⟩
      exact ⟨_, word, next, hbetween, hother, rfl⟩
  · intro limit shape reader hreader error heq
    -- With a table a slot could be found empty in the end, if the two readers were not the same.
    rw [Graph.readByTable_eq] at hreader
    obtain rfl : reader = Graph.read limit shape := by simpa using hreader
    exact WireError.ofOctets_iff.1 (Graph.read_failsOnly limit shape order cursor error heq)
  · intro bound limit graph next error hgraph heq
    exact Chain.ofGraph_fails hgraph heq
  · intro chain graph hgraph
    obtain rfl := Chain.eq_graphOf_of_toGraph hgraph
    rw [Chain.tree?_graphOf]
    rfl
  · intro hlinked header ids error heq cause hmismatch
    rcases OrpcThis.encode_fails hlinked heq with ⟨defect, rfl, _⟩ | ⟨count, rfl⟩
      <;> cases hmismatch

/-- An object reference of the kind that has a handler. -/
theorem errors_of_octets_handler :
    ∃ error, (InterfacePointer.read MarshalFlag.bare).run .little ⟨1,
      [0x4d, 0x45, 0x4f, 0x57, 0, 0, 0, 2, 0, 0, 0, 9]⟩ = .error error ∧
        error.kind = .unsupported := by
  obtain ⟨⟨_, hunsupported⟩, _⟩ :=
    errors_of_octets .little ⟨1, [0x4d, 0x45, 0x4f, 0x57, 0, 0, 0, 2, 0, 0, 0, 9]⟩
      MarshalFlag.bare {} {}
  refine hunsupported.2 ⟨ObjRefKind.handler.word, ⟨⟨12, [9]⟩, ?_⟩, by decide⟩
  exact Layout.between_render .little 1 [.raw objRefSignature.octets,
    .u32 ObjRefKind.handler.word] [9]

end OrpcWire
