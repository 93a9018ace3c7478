import OrpcWire.Proofs.Envelope.Reply

/-!
# Request headers that are passed on

A header that has been received can be sent on by whoever received it. What arrives is the same
header: its chain has been read off an extent array, so it is within the limits of the next
receiver, however the array was laid out (`Chain.accepted_of_read`), and the causality id of the
call being served is the one in the header.
-/

namespace OrpcWire

namespace OrpcThis

variable {settings : EnvelopeSettings} {causality causality' : Causality} {order : ByteOrder}
  {cursor next : Cursor} {header : OrpcThis}

theorem reserved_of_read (h : (read settings).run order cursor = .ok (header, next)) :
    header.reserved = 0 := by
  obtain ⟨version, _, _, h⟩ := Reader.run_bind_eq_ok.1 h
  obtain ⟨flags, _, _, h⟩ := Reader.run_bind_eq_ok.1 h
  obtain ⟨reserved, _, _, h⟩ := Reader.run_bind_eq_ok.1 h
  obtain ⟨causalityId, _, _, h⟩ := Reader.run_bind_eq_ok.1 h
  obtain ⟨chain, _, _, hpure⟩ := Reader.run_bind_eq_ok.1 h
  cases hpure
  rfl

theorem received_serve (h : (read settings).run order cursor = .ok (header, next))
    (causality : Causality) : header.received (causality.serve header.causalityId) = header := by
  have hreserved := reserved_of_read h
  obtain ⟨version, flags, reserved, causalityId, extensions⟩ := header
  cases hreserved
  rfl

/-- A header that has been received, whatever the octets, is sent on by the receiver, and wherever
and in whatever byte order that is done, it is received again as the same header, chain and
causality id included. What follows is left alone. -/
theorem receive_forwarded {octets : List UInt8} {position : Nat}
    (h : receive {} causality order ⟨position, octets⟩ = (.ok (header, next), causality')) :
    header.reserved = 0 ∧
    ∃ layout later, header.encode {} causality' .fresh = .ok (layout, later) ∧
      ∀ causality'' order' position' trailing,
        receive {} causality'' order' ⟨position', layout.render order' position' ++ trailing⟩ =
          (.ok (header, ⟨position' + (layout.render order' position').length, trailing⟩),
            causality''.serve header.causalityId) := by
  have hfst : (receive {} causality order ⟨position, octets⟩).1 = .ok (header, next) := by rw [h]
  have hserved : causality' = causality.serve header.causalityId := by rw [← receive_snd hfst, h]
  have hread := receive_fst {} causality order ⟨position, octets⟩ ▸ hfst
  obtain ⟨middle, hchain⟩ := chain_of_read hread
  have haccepted : header.extensions.Accepted 1024 := Chain.accepted_of_read hchain
  have hsmall : ∀ extensions ∈ header.extensions, extensions.length ≤ UInt32.size - 2 ∧
      ∀ extension ∈ extensions, extension.data.length ≤ UInt32.size - 8 := by
    have hlimit : elementLimit ≤ UInt32.size - 8 := by decide
    intro extensions hmem
    obtain ⟨hlength, hdata⟩ := haccepted extensions hmem
    exact ⟨by omega, fun extension hextension => Nat.le_trans (hdata extension hextension) hlimit⟩
  obtain ⟨chain, later, hlinked⟩ := Chain.exists_encodeLinked hsmall .fresh
  have hencode : header.encode {} causality' .fresh =
      .ok (header.front causality' ++ chain, later) :=
    (encode_linked_eq_ok_iff rfl).2 ⟨chain, hlinked, rfl⟩
  refine ⟨reserved_of_read hread, _, later, hencode,
    fun causality'' order' position' trailing => ?_⟩
  have hbetween :=
    Layout.between_render order' position' (header.front causality' ++ chain) trailing
  have hagain :=
    (run_read_written_iff IdSupply.reached_fresh.next_ne_null rfl hencode {} hbetween).2
      ⟨haccepted, rfl⟩
  rw [hserved, received_serve hread, ← receive_fst {} causality''] at hagain
  rw [hserved]
  exact Prod.ext hagain (receive_snd hagain)

/-- A peer's header at an odd position, with octets other than zero as padding and in the reserved
words, one id on two pointers, an odd number of slots, null slots in front of an extension and
behind it, and more data than counts. -/
theorem receive_forwarded_foreign :
    let id : Guid := ⟨1, 2, 3, Block.zero 8⟩
    let header : OrpcThis := ⟨.v5_7, 1, 0, id, some [⟨⟨4, 5, 6, Block.zero 8⟩, []⟩]⟩
    let octets :=
      [0xAA, 5, 0, 7, 0, 0xBB, 0xCC, 1, 0, 0, 0, 8, 0, 0, 0, 1, 0, 0, 0, 2, 0, 3, 0, 0, 0, 0,
        0, 0, 0, 0, 0, 9, 0, 0, 0, 1, 0, 0, 0, 7, 0, 0, 0, 9, 0, 0, 0, 3, 0, 0, 0, 0, 0, 0, 0, 1, 0,
        0, 0, 0, 0, 0, 0, 1, 0, 0, 0, 4, 0, 0, 0, 5, 0, 6, 0, 0, 0, 0, 0, 0, 0, 0, 0, 0,
        0, 0, 0, 0xDD]
    receive {} {} .little ⟨1, octets⟩ = (.ok (header, ⟨89, []⟩), ⟨some id, []⟩) ∧
      ∃ layout later, header.encode {} ⟨some id, []⟩ .fresh = .ok (layout, later) ∧
        receive {} {} .big ⟨3, layout.render .big 3 ++ [0xFF]⟩ =
          (.ok (header, ⟨3 + (layout.render .big 3).length, [0xFF]⟩), ⟨some id, []⟩) := by
  intro id header octets
  have hreceived : receive {} {} .little ⟨1, octets⟩ = (.ok (header, ⟨89, []⟩), ⟨some id, []⟩) := by
    unfold octets header id
    cbv
  obtain ⟨_, layout, later, hencode, hagain⟩ := receive_forwarded hreceived
  exact ⟨hreceived, layout, later, hencode, hagain {} .big 3 [0xFF]⟩

end OrpcThis

end OrpcWire
