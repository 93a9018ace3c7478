import OrpcWire.Proofs.Envelope.Request
import OrpcWire.Proofs.ObjRef.InterfacePointer

/-!
# Whole messages

A message is written in parts, one behind the other in one buffer: each part starts at the position
at which the one in front of it ended, and draws its ids from the counter that that one left
(`MessagePart.writeAll`). A reader knows neither; it has to find the end of each part by reading it.

`part.ReadBy reader idReader a` is what a part has to bring along: wherever it stands it is read as
`a`, and the ids found in it are those that were drawn. Parts one behind the other have that if each
of them does (`MessagePart.ReadBy.cons`), so it is settled for headers and for pointers, and whole
messages follow (`OrpcThis.receive_message`).
-/

namespace OrpcWire

/-- A part of a message, written with ids drawn from a counter. -/
abbrev MessagePart := IdSupply → Except OrpcError (Layout × IdSupply)

namespace MessagePart

/-- Writes parts into one buffer, each where the one in front of it ended and with the ids that it
left. -/
def writeAll (order : ByteOrder) : List MessagePart → Nat → IdSupply →
    Except OrpcError (List UInt8 × IdSupply)
  | [], _, ids => .ok ([], ids)
  | part :: parts, position, ids => do
    let (layout, ids) ← part ids
    let octets := layout.render order position
    let (behind, ids) ← writeAll order parts (position + octets.length) ids
    return (octets ++ behind, ids)

/-- Parts one behind the other as one part. -/
def joined : List MessagePart → MessagePart
  | [], ids => .ok ([], ids)
  | part :: parts, ids => do
    let (layout, ids) ← part ids
    let (behind, ids) ← joined parts ids
    return (layout ++ behind, ids)

theorem writeAll_eq (order : ByteOrder) (parts : List MessagePart) (position : Nat)
    (ids : IdSupply) :
    writeAll order parts position ids =
      (joined parts ids).map fun (layout, later) => (layout.render order position, later) := by
  induction parts generalizing position ids with
  | nil => rfl
  | cons part parts ih =>
    rw [writeAll, joined]
    cases part ids with
    | error error => rfl
    | ok first =>
      obtain ⟨layout, middle⟩ := first
      show (writeAll order parts _ middle >>= _) = Except.map _ (joined parts middle >>= _)
      rw [ih]
      cases joined parts middle with
      | error error => rfl
      | ok others =>
        show Except.ok (_, _) = Except.ok (_, _)
        rw [Layout.render_append]

/-- Wherever the part stands it is read as `a`, and the ids in it are those that were drawn for
it. -/
def ReadBy {α : Type} (part : MessagePart) (reader : Reader OrpcError α)
    (idReader : Reader OrpcError (List UInt32)) (a : α) : Prop :=
  ∀ ids layout later, ids.next ≠ nullId → part ids = .ok (layout, later) →
    reader.Finds a layout ∧ ∃ count, idReader.Finds (IdSupply.draw count ids).1 layout ∧
      later = (IdSupply.draw count ids).2

section

variable {α β γ : Type} {reader : Reader OrpcError α} {others : Reader OrpcError β}
  {idReader otherIds : Reader OrpcError (List UInt32)} {a : α} {b : β}

theorem readBy_nil (a : α) : (joined []).ReadBy (pure a) (pure []) a := by
  intro ids layout later _ h
  cases h
  exact ⟨Reader.finds_pure a, 0, Reader.finds_pure [], rfl⟩

theorem ReadBy.cons {part : MessagePart} {parts : List MessagePart}
    (h : part.ReadBy reader idReader a) (hothers : (joined parts).ReadBy others otherIds b)
    (f : α → β → γ) :
    (joined (part :: parts)).ReadBy (do return f (← reader) (← others))
      (do return (← idReader) ++ (← otherIds)) (f a b) := by
  intro ids layout last hids heq
  obtain ⟨⟨first, middle⟩, hfirst, heq⟩ := bind_eq_ok_iff.1 heq
  obtain ⟨⟨behind, later⟩, hbehind, heq⟩ := bind_eq_ok_iff.1 heq
  cases heq
  -- The others draw from the counter that the first part left, which is not at the null id either.
  obtain ⟨hread, count, hreadIds, rfl⟩ := h ids first middle hids hfirst
  obtain ⟨hreadOthers, more, hreadOtherIds, rfl⟩ :=
    hothers _ behind _ (IdSupply.draw_ne_null hids).2 hbehind
  rw [← List.append_nil behind]
  refine ⟨hread.bind (hreadOthers.bind (Reader.finds_pure _)), count + more, ?_, ?_⟩
  · rw [IdSupply.draw_add]
    exact hreadIds.bind (hreadOtherIds.bind (Reader.finds_pure _))
  · rw [IdSupply.draw_add]

end

end MessagePart

/-! ### Request headers -/

namespace OrpcThis

/-- The ids in a header that are not null, in the order of the stream. -/
def readIds (settings : EnvelopeSettings) : Reader OrpcError (List UInt32) :=
  readBehind fun _ _ _ => do
    let graph ← Graph.read (some (Chain.referentLimit settings.extensionLimit)) Chain.shape
    return graph.referents.map (·.id)

theorem readBy {header : OrpcThis} {settings receiver : EnvelopeSettings} (causality : Causality)
    (hlinked : settings.chainLayout = .linked)
    (haccepted : header.extensions.Accepted receiver.extensionLimit) :
    MessagePart.ReadBy (header.encode settings causality) (read receiver) (readIds receiver)
      (header.received causality) := by
  intro ids layout later hids hencode
  obtain ⟨chain, hchain, rfl⟩ := (encode_linked_eq_ok_iff hlinked).1 hencode
  obtain ⟨decoded, ⟨count, hdraw⟩, hread⟩ := Chain.run_read_written_iff hids hchain
  refine ⟨?_, count, ?_, ?_⟩
  · intro order cursor last hbetween
    exact (run_read_written_iff hids hlinked hencode receiver hbetween).2 ⟨haccepted, rfl⟩
  · intro order cursor last hbetween
    obtain ⟨middle, hfront, hbehind⟩ := Layout.between_append.1 hbetween
    obtain ⟨_, hgraph⟩ := hread order middle last hbehind receiver.extensionLimit
    rw [readIds, run_readBehind _ hfront, Reader.run_bind,
      Reader.run_lift (hgraph haccepted), hdraw]
    rfl
  · rw [hdraw]

end OrpcThis

/-! ### Interface pointers -/

namespace InterfacePointer

/-- The id in front of an interface pointer if there is one and it is not null. -/
def readIds (flags : UInt32) : Reader OrpcError (List UInt32) :=
  if MarshalFlag.isSet flags MarshalFlag.bare then do
    let _ ← readObjRef none
    return []
  else do
    match ← Reader.referentId with
    | none => return []
    | some id =>
      let length ← Reader.u32
      let _ ← Reader.u32
      let _ ← readObjRef (some length)
      return [id]

end InterfacePointer

/-- A pointer or none, and the flags under which it is written and read. -/
structure Argument where
  pointer : Option InterfacePointer
  flags : UInt32

namespace Argument

def part (argument : Argument) : MessagePart :=
  InterfacePointer.encodeOptional argument.pointer argument.flags

/-- The pointer that a receiver has. -/
def received (argument : Argument) : Option InterfacePointer :=
  if MarshalFlag.isSet argument.flags MarshalFlag.nullForVariant then none
  else argument.pointer.map fun pointer => { pointer with iid := pointer.writtenIid argument.flags }

variable {argument : Argument}

theorem readBy_null (hbare : MarshalFlag.isSet argument.flags MarshalFlag.bare = false)
    (h : argument.pointer = none ∨
      MarshalFlag.isSet argument.flags MarshalFlag.nullForVariant = true) :
    argument.part.ReadBy (InterfacePointer.read argument.flags)
      (InterfacePointer.readIds argument.flags) argument.received := by
  intro ids layout later _ hencode
  cases (InterfacePointer.encode_nothing h).symm.trans hencode
  have hreceived : argument.received = none := by
    unfold received
    rcases h with hnone | hnull
    · rw [hnone]
      exact ite_self _
    · exact if_pos hnull
  refine ⟨?_, 0, ?_, rfl⟩
  · rw [hreceived]
    exact InterfacePointer.read_null hbare
  · unfold InterfacePointer.readIds
    rw [if_neg (by rw [hbare]; exact Bool.false_ne_true), ← List.append_nil [Field.u32 nullId]]
    have hid : Reader.referentId.Finds none [.u32 nullId] := Reader.referentId_exact.finds (by simp)
    exact hid.lift.bind (Reader.finds_pure [])

theorem readBy_pointer {pointer : InterfacePointer} {flags : UInt32}
    (hmade : ∃ iid std resolver, pointer = .make iid std resolver)
    (hnull : MarshalFlag.isSet flags MarshalFlag.nullForVariant = false) :
    (part ⟨some pointer, flags⟩).ReadBy (InterfacePointer.read flags)
      (InterfacePointer.readIds flags) (received ⟨some pointer, flags⟩) := by
  intro ids layout later hids hencode
  obtain ⟨hencodable, hwritten⟩ := (InterfacePointer.encode_eq_ok_iff hnull).1 hencode
  have hreceived : received ⟨some pointer, flags⟩ = some (pointer.received flags) := by
    obtain ⟨iid, std, resolver, rfl⟩ := hmade
    exact if_neg (by rw [hnull]; exact Bool.false_ne_true)
  have hobjRef : ∀ {length : Option UInt32},
      length.getD (InterfacePointer.lengthWith pointer.resolver) =
        InterfacePointer.lengthWith pointer.resolver →
      (InterfacePointer.readObjRef length).Finds (pointer.received flags)
        (pointer.objRefLayout flags) :=
    InterfacePointer.readObjRef_finds hencodable
  have hread : (InterfacePointer.read flags).Finds (some (pointer.received flags))
      (pointer.written flags ids).1 :=
    InterfacePointer.read_finds hencodable hids
  rw [← hwritten, ← hreceived] at hread
  refine ⟨hread, ?_⟩
  unfold InterfacePointer.written at hwritten
  unfold InterfacePointer.readIds
  -- An object reference by itself takes no id, any other pointer takes one.
  by_cases hbare : MarshalFlag.isSet flags MarshalFlag.bare = true
  · rw [if_pos hbare] at hwritten
    cases hwritten
    refine ⟨0, ?_, rfl⟩
    rw [if_pos hbare, ← List.append_nil (pointer.objRefLayout flags)]
    exact (hobjRef rfl).bind (Reader.finds_pure [])
  · rw [if_neg hbare] at hwritten
    cases hwritten
    refine ⟨1, ?_, rfl⟩
    rw [if_neg hbare, ← List.append_nil (pointer.objRefLayout flags)]
    have hid : Reader.referentId.Finds (some ids.next) [.u32 ids.next] :=
      Reader.referentId_exact.finds (by simpa using hids)
    have hlength := (Reader.u32_exact.finds (InterfacePointer.lengthWith pointer.resolver)).lift
    exact hid.lift.bind
      (hlength.bind (hlength.bind ((hobjRef rfl).bind (Reader.finds_pure [ids.next]))))

theorem readBy
    (hmade : ∀ pointer ∈ argument.pointer, ∃ iid std resolver, pointer = .make iid std resolver)
    (hbare : MarshalFlag.isSet argument.flags MarshalFlag.bare = true → argument.pointer ≠ none ∧
      MarshalFlag.isSet argument.flags MarshalFlag.nullForVariant = false) :
    argument.part.ReadBy (InterfacePointer.read argument.flags)
      (InterfacePointer.readIds argument.flags) argument.received := by
  by_cases hnothing : argument.pointer = none ∨
    MarshalFlag.isSet argument.flags MarshalFlag.nullForVariant = true
  · refine readBy_null ?_ hnothing
    rw [← Bool.not_eq_true]
    intro hset
    obtain ⟨hsome, hnull⟩ := hbare hset
    rcases hnothing with hnone | hset'
    · exact hsome hnone
    · rw [hnull] at hset'
      cases hset'
  · obtain ⟨hsome, hnull⟩ := not_or.1 hnothing
    obtain ⟨pointer, flags⟩ := argument
    obtain ⟨pointer, rfl⟩ := Option.ne_none_iff_exists'.1 hsome
    exact readBy_pointer (hmade pointer rfl) (Bool.not_eq_true _ ▸ hnull)

theorem readBy_all {arguments : List Argument} (h : ∀ argument ∈ arguments,
      argument.part.ReadBy (InterfacePointer.read argument.flags)
        (InterfacePointer.readIds argument.flags) argument.received) :
    (MessagePart.joined (arguments.map part)).ReadBy
      ((arguments.map (·.flags)).mapM InterfacePointer.read)
      (List.flatten <$> (arguments.map (·.flags)).mapM InterfacePointer.readIds)
      (arguments.map received) := by
  induction arguments with
  | nil => exact MessagePart.readBy_nil []
  | cons argument arguments ih =>
    obtain ⟨hfirst, hothers⟩ := List.forall_mem_cons.1 h
    have hcons := hfirst.cons (ih hothers) (· :: ·)
    simp only [bind_map_left] at hcons
    simp only [List.map_cons, List.mapM_cons, map_bind, map_pure, List.flatten_cons]
    exact hcons

end Argument

/-- The ids in a message that are not null, in the order of the stream. -/
def OrpcThis.readMessageIds (settings : EnvelopeSettings) (flags : List UInt32) :
    Reader OrpcError (List UInt32) := do
  return (← OrpcThis.readIds settings) ++ (← List.flatten <$> flags.mapM InterfacePointer.readIds)

/-- A request header with a chain within the limits of the receiver, and behind it pointers each
under its own flags, written into one buffer with ids from one counter. The ids in the message that
are not null are those drawn from the counter, in order: the first is `firstId`, each of the others
is four more than the one in front of it, and none repeats. The header is received with the
causality id it went out under and the reserved word 0, and behind it the pointers are read under
their flags, each with the interface that its flags select, or none where there was none or the
flags replace it; what follows the message is left. -/
theorem OrpcThis.receive_message (header : OrpcThis) (arguments : List Argument)
    (settings receiver : EnvelopeSettings) (causality causality' : Causality) (order : ByteOrder)
    (position : Nat) (trailing octets : List UInt8) (later : IdSupply)
    (hlinked : settings.chainLayout = .linked)
    (haccepted : header.extensions = none ∨ ∃ extensions, header.extensions = some extensions ∧
      extensions.length ≤ min receiver.extensionLimit (2 ^ 20) ∧
      ∀ extension ∈ extensions, extension.data.length ≤ 2 ^ 20)
    (hmade : ∀ argument ∈ arguments, ∀ pointer ∈ argument.pointer, ∃ iid std resolver,
      pointer = .make iid std resolver)
    (hbare : ∀ argument ∈ arguments, MarshalFlag.isSet argument.flags MarshalFlag.bare = true →
      argument.pointer ≠ none ∧ MarshalFlag.isSet argument.flags MarshalFlag.nullForVariant = false)
    (hwrite : MessagePart.writeAll order
      (header.encode settings causality :: arguments.map Argument.part) position .fresh =
        .ok (octets, later)) :
    let flags := arguments.map (·.flags)
    let cursor : Cursor := ⟨position, octets ++ trailing⟩
    let last : Cursor := ⟨position + octets.length, trailing⟩
    (∃ ids, (readMessageIds receiver flags).run order cursor = .ok (ids, last) ∧
      IdSupply.draw ids.length .fresh = (ids, later) ∧
      (ids.length < 2 ^ 30 - 2 ^ 15 →
        ids = (List.range ids.length).map (fun k => .ofNat (firstId.toNat + 4 * k)) ∧ ids.Nodup)) ∧
    ∃ middle, (receive receiver causality' order cursor).1 =
        .ok (⟨header.version, header.flags, 0, causality.serving.getD header.causalityId,
          header.extensions⟩, middle) ∧
      (flags.mapM InterfacePointer.read).run order middle =
        .ok (arguments.map Argument.received, last) := by
  intro flags cursor last
  have hmessage := (OrpcThis.readBy causality hlinked (accepted_iff.2 haccepted)).cons
    (Argument.readBy_all fun argument hmem =>
      Argument.readBy (hmade argument hmem) (hbare argument hmem)) Prod.mk
  rw [MessagePart.writeAll_eq] at hwrite
  obtain ⟨⟨layout, later'⟩, hlayout, heq⟩ := map_eq_ok_iff.1 hwrite
  cases heq
  obtain ⟨hread, count, hids, rfl⟩ :=
    hmessage .fresh layout _ IdSupply.reached_fresh.next_ne_null hlayout
  have hbetween : layout.Between order cursor last :=
    Layout.between_render order position layout trailing
  constructor
  · refine ⟨_, hids order cursor last hbetween, by rw [IdSupply.length_draw], fun hcount => ?_⟩
    rw [IdSupply.length_draw] at hcount ⊢
    exact ⟨IdSupply.draw_fresh (Nat.le_of_lt hcount),
      IdSupply.nodup_draw_fresh (Nat.le_of_lt hcount)⟩
  · obtain ⟨found, middle, hheader, hrest⟩ :=
      Reader.run_bind_eq_ok.1 (hread order cursor last hbetween)
    obtain ⟨pointers, last', hpointers, hpair⟩ := Reader.run_bind_eq_ok.1 hrest
    cases hpair
    exact ⟨middle, by rw [receive_fst]; exact hheader, hpointers⟩

/-- A message from an odd position: a chain of one extension, which is as many as the receiver
takes, no pointer, a pointer that is replaced, one by itself, and one with all that stands in front
of it. Four ids are drawn for it. -/
theorem OrpcThis.receive_message_mixed :
    let outer : Guid := ⟨1, 2, 3, Block.zero 8⟩
    let extension : Extension := ⟨⟨4, 5, 6, Block.zero 8⟩, [1, 2, 3]⟩
    let header : OrpcThis := ⟨.v5_7, 1, 9, Guid.nil, some [extension]⟩
    let std : StdObjRef := .unpinged ⟨Block.zero 8⟩ ⟨Block.zero 8⟩ Ipid.nil (-1)
    let pointer : InterfacePointer := .make Guid.nil std ⟨[⟨Tower.tcp, "h"⟩], []⟩
    let arguments : List Argument :=
      [⟨none, MarshalFlag.null⟩, ⟨some pointer, MarshalFlag.nullForVariant⟩,
        ⟨some pointer, MarshalFlag.bare ||| MarshalFlag.asIUnknown⟩,
        ⟨some pointer, MarshalFlag.asIDispatch⟩]
    let flags := arguments.map (·.flags)
    let receiver : EnvelopeSettings := { extensionLimit := 1 }
    (∀ argument ∈ arguments, ∀ pointer ∈ argument.pointer, ∃ iid std resolver,
      pointer = .make iid std resolver) ∧
    (∀ argument ∈ arguments, MarshalFlag.isSet argument.flags MarshalFlag.bare = true →
      argument.pointer ≠ none ∧
      MarshalFlag.isSet argument.flags MarshalFlag.nullForVariant = false) ∧
    ∃ octets,
      MessagePart.writeAll .big (header.encode {} ⟨some outer, []⟩ ::
        arguments.map Argument.part) 3 .fresh = .ok (octets, ⟨0x20010⟩) ∧
      (∃ ids, (readMessageIds receiver flags).run .big ⟨3, octets ++ [0xFF]⟩ =
          .ok (ids, ⟨3 + octets.length, [0xFF]⟩) ∧
        IdSupply.draw ids.length .fresh = (ids, ⟨0x20010⟩)) ∧
      ∃ middle, (receive receiver {} .big ⟨3, octets ++ [0xFF]⟩).1 =
          .ok (⟨.v5_7, 1, 0, outer, some [extension]⟩, middle) ∧
        (flags.mapM InterfacePointer.read).run .big middle =
          .ok ([none, none, some { pointer with iid := Guid.iUnknown },
            some { pointer with iid := Guid.iDispatch }], ⟨3 + octets.length, [0xFF]⟩) := by
  intro outer extension header std pointer arguments flags receiver
  have hmade : ∀ argument ∈ arguments, ∀ pointer ∈ argument.pointer, ∃ iid std resolver,
      pointer = .make iid std resolver := by
    simp [arguments, pointer]
  have hbare : ∀ argument ∈ arguments, MarshalFlag.isSet argument.flags MarshalFlag.bare = true →
      argument.pointer ≠ none ∧
        MarshalFlag.isSet argument.flags MarshalFlag.nullForVariant = false := by
    decide
  obtain ⟨octets, hwrite⟩ : ∃ octets, MessagePart.writeAll .big
      (header.encode {} ⟨some outer, []⟩ :: arguments.map Argument.part) 3 .fresh =
        .ok (octets, ⟨0x20010⟩) := by
    have hlater : (MessagePart.writeAll .big
        (header.encode {} ⟨some outer, []⟩ :: arguments.map Argument.part) 3 .fresh).map
        (fun (_, later) => later) = .ok ⟨0x20010⟩ := by
      unfold header arguments pointer std extension outer
      cbv
    obtain ⟨⟨octets, later⟩, hwrite, rfl⟩ := map_eq_ok_iff.1 hlater
    exact ⟨octets, hwrite⟩
  have hpointers : arguments.map Argument.received =
      [none, none, some { pointer with iid := Guid.iUnknown },
        some { pointer with iid := Guid.iDispatch }] := by
    decide
  obtain ⟨⟨ids, hids, hdraw, _⟩, hreceived⟩ :=
    receive_message header arguments {} receiver ⟨some outer, []⟩ {} .big 3 [0xFF] octets
      ⟨0x20010⟩ rfl (.inr ⟨[extension], rfl, by decide, by simp [extension]⟩) hmade hbare hwrite
  rw [hpointers] at hreceived
  exact ⟨hmade, hbare, octets, hwrite, ⟨ids, hids, hdraw⟩, hreceived⟩

end OrpcWire
