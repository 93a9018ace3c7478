import OrpcWire.Envelope.Reply
import OrpcWire.ObjRef.InterfacePointer
import OrpcWire.Proofs.Envelope.Request
import OrpcWire.Proofs.Graph.SelfDelimiting

/-!
# Messages that know where they end

Bindings, resolver address lists, object references and both headers of the envelope are
self-delimiting, and so is any graph whose array elements take octets (`messages_selfDelimiting`). A
receiver that waits for more octets whenever some are missing never gives up on a message too early,
and never takes octets of the next one for its own.

A list of bindings is cut out of the stream as a whole before its sections are looked at, so what
goes wrong inside a section says nothing about octets that are still to come. A chain is taken out
of its graph only after the whole graph has been read.
-/

namespace OrpcWire

open Reader (SelfDelimiting)

/-! ### Bindings -/

theorem Reader.textToNul_selfDelimiting (error : OrpcError) :
    (textToNul error).SelfDelimiting OrpcError.IsUnderflow := by
  have hunit : unit?.SelfDelimiting WireError.IsUnderflow :=
    u16_selfDelimiting.bind fun _ => .pure _
  exact SelfDelimiting.bind (SelfDelimiting.collect _ hunit).lift fun _ => .ofExcept _

theorem SecurityBinding.read_selfDelimiting :
    SecurityBinding.read.SelfDelimiting OrpcError.IsUnderflow := by
  refine SelfDelimiting.bind Reader.u16_selfDelimiting.lift fun authnService => ?_
  split
  · exact .pure _
  · refine SelfDelimiting.bind Reader.u16_selfDelimiting.lift fun authzService => ?_
    exact SelfDelimiting.bind (Reader.textToNul_selfDelimiting _) fun _ => .pure _

theorem SecurityBinding.readChain_selfDelimiting :
    SecurityBinding.readChain.SelfDelimiting OrpcError.IsUnderflow :=
  .collect _ SecurityBinding.read_selfDelimiting

/-- The sections are read on octets of their own. -/
theorem DualStringArray.read_selfDelimiting :
    DualStringArray.read.SelfDelimiting OrpcError.IsUnderflow := by
  refine SelfDelimiting.bind Reader.u16_selfDelimiting.lift fun entries => ?_
  refine SelfDelimiting.bind Reader.u16_selfDelimiting.lift fun offset => ?_
  apply SelfDelimiting.guard
  refine SelfDelimiting.bind (Reader.octets_selfDelimiting _).lift fun array => ?_
  exact (SelfDelimiting.within _ _).bind fun _ => (SelfDelimiting.within _ _).bind fun _ => .pure _

/-! ### Object references -/

theorem StdObjRef.read_selfDelimiting : StdObjRef.read.SelfDelimiting WireError.IsUnderflow := by
  have height {α : Type} (f : Block 8 → α) :
      (Reader.block 8 >>= fun octets => pure (f octets)).SelfDelimiting WireError.IsUnderflow :=
    (Reader.block_selfDelimiting 8).bind fun _ => .pure _
  refine Reader.u32_selfDelimiting.bind fun flags =>
    Reader.i32_selfDelimiting.bind fun publicRefs => ?_
  refine (height Oxid.mk).bind fun oxid => (height Oid.mk).bind fun oid => ?_
  exact (Reader.guid_selfDelimiting.bind fun _ => .pure _).bind fun ipid => .pure _

namespace InterfacePointer

theorem readObjRef_selfDelimiting (length : Option UInt32) :
    (readObjRef length).SelfDelimiting OrpcError.IsUnderflow := by
  unfold readObjRef
  refine SelfDelimiting.bind (Reader.block_selfDelimiting 4).lift fun signature => ?_
  apply SelfDelimiting.guard
  refine SelfDelimiting.bind Reader.u32_selfDelimiting.lift fun kind => ?_
  apply SelfDelimiting.guard
  refine SelfDelimiting.bind Reader.guid_selfDelimiting.lift fun iid => ?_
  refine SelfDelimiting.bind StdObjRef.read_selfDelimiting.lift fun std => ?_
  exact DualStringArray.read_selfDelimiting.bind fun resolver => .pure _

theorem read_selfDelimiting (flags : UInt32) :
    (read flags).SelfDelimiting OrpcError.IsUnderflow := by
  unfold read
  split
  · exact (readObjRef_selfDelimiting none).map some
  · refine SelfDelimiting.bind Reader.referentId_selfDelimiting.lift fun id => ?_
    cases id with
    | none => exact .pure _
    | some id =>
      refine SelfDelimiting.bind Reader.u32_selfDelimiting.lift fun first => ?_
      refine SelfDelimiting.bind Reader.u32_selfDelimiting.lift fun second => ?_
      exact (readObjRef_selfDelimiting (some first)).map some

end InterfacePointer

/-! ### Headers -/

theorem Chain.read_selfDelimiting (limit : Nat) :
    (Chain.read limit).SelfDelimiting OrpcError.IsUnderflow :=
  SelfDelimiting.bind (Graph.read_selfDelimiting _ (by decide)).lift fun _ => .ofExcept _

theorem ComVersion.read_selfDelimiting : ComVersion.read.SelfDelimiting WireError.IsUnderflow :=
  Reader.u16_selfDelimiting.bind fun _ => Reader.u16_selfDelimiting.bind fun _ => .pure _

theorem OrpcThis.read_selfDelimiting (settings : EnvelopeSettings) :
    (OrpcThis.read settings).SelfDelimiting OrpcError.IsUnderflow := by
  refine SelfDelimiting.bind ComVersion.read_selfDelimiting.lift fun version => ?_
  refine SelfDelimiting.bind Reader.u32_selfDelimiting.lift fun flags => ?_
  refine SelfDelimiting.bind Reader.u32_selfDelimiting.lift fun reserved => ?_
  refine SelfDelimiting.bind Reader.guid_selfDelimiting.lift fun causalityId => ?_
  exact (Chain.read_selfDelimiting _).bind fun chain => .pure _

theorem OrpcThat.read_selfDelimiting (settings : EnvelopeSettings) :
    (OrpcThat.read settings).SelfDelimiting OrpcError.IsUnderflow := by
  refine SelfDelimiting.bind Reader.u32_selfDelimiting.lift fun flags => ?_
  apply SelfDelimiting.guard
  exact (Chain.read_selfDelimiting _).bind fun chain => .pure _

/-! ### All messages -/

/-- Whenever a message is accepted, the octets that were taken for it are accepted with the same
result whatever follows them, and of any part of them, cut off anywhere, it is said that octets are
missing. That says no more than that the octets are no valid message. -/
theorem messages_selfDelimiting (flags : UInt32) (settings : EnvelopeSettings)
    (causality : Causality) :
    (∀ limit shape, shape.elementsTake = true →
      (Graph.read limit shape).SelfDelimiting WireError.IsUnderflow) ∧
    SecurityBinding.readChain.SelfDelimiting OrpcError.IsUnderflow ∧
    DualStringArray.read.SelfDelimiting OrpcError.IsUnderflow ∧
    (InterfacePointer.read flags).SelfDelimiting OrpcError.IsUnderflow ∧
    (∀ order cursor header next,
      (OrpcThis.receive settings causality order cursor).1 = .ok (header, next) →
        ∃ used, Delimited OrpcError.IsUnderflow
          (fun cursor => (OrpcThis.receive settings causality order cursor).1)
          used cursor next header) ∧
    (OrpcThat.read settings).SelfDelimiting OrpcError.IsUnderflow ∧
    ∀ error : OrpcError, error.IsUnderflow → error.kind = .malformed := by
  refine ⟨fun limit shape => Graph.read_selfDelimiting limit,
    SecurityBinding.readChain_selfDelimiting, DualStringArray.read_selfDelimiting,
    InterfacePointer.read_selfDelimiting flags, ?_, OrpcThat.read_selfDelimiting settings,
    fun error => OrpcError.IsUnderflow.kind_eq⟩
  intro order cursor header next heq
  rw [OrpcThis.receive_fst] at heq
  obtain ⟨used, hused⟩ := OrpcThis.read_selfDelimiting settings order cursor header next heq
  exact ⟨used, hused.congr fun octets => OrpcThis.receive_fst settings causality order _⟩

/-- Three units behind padding and a count, and what becomes of them when the last octet is
missing. -/
theorem messages_selfDelimiting_units :
    let octets := [0xEE, 0, 0, 0, 3, 1, 2, 3, 4, 5, 6]
    let graph : Graph := ⟨.array [.u16 0x0102, .u16 0x0304, .u16 0x0506], []⟩
    (Graph.read none (.array .u16)).run .big ⟨7, octets⟩ = .ok (graph, ⟨18, []⟩) ∧
      (Graph.read none (.array .u16)).run .big ⟨7, octets ++ [9, 9]⟩ = .ok (graph, ⟨18, [9, 9]⟩) ∧
      ∃ error, (Graph.read none (.array .u16)).run .big ⟨7, octets.take 10⟩ = .error error ∧
        error.IsUnderflow := by
  intro octets graph
  have hread : (Graph.read none (.array .u16)).run .big ⟨7, octets⟩ = .ok (graph, ⟨18, []⟩) := by
    unfold octets graph
    cbv
  obtain ⟨used, hused⟩ :=
    (messages_selfDelimiting 0 {} {}).1 none (.array .u16) (by decide) .big _ _ _ hread
  have hall : octets = used := hused.rest_eq.trans (List.append_nil used)
  rw [hall]
  exact ⟨hall ▸ hread, hused.whole [9, 9], hused.cut 10 (hall ▸ by decide)⟩

end OrpcWire
