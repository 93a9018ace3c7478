import OrpcWire.Envelope.Reply
import OrpcWire.Proofs.Envelope.Request

/-!
# Reply headers that are received

Behind one of the accepted words a reply header is its chain. The second half is about the headers
of requests and replies alike: neither is received with more extensions than the limit of the
receiver, rounded up to an even number, and so many may well be received
(`EnvelopeSettings.most_extensions`).

The limit itself does not hold. It is compared with the count in the header of the chain, and the
extensions are those in the slots that are not null, of which there may be more. What bounds these
is the number of referents, and that leaves room for the slot that is sent as null when the limit is
odd (`EnvelopeSettings.extensionLimit_exceeded`).
-/

namespace OrpcWire

namespace OrpcThat

variable {settings : EnvelopeSettings} {order : ByteOrder} {cursor middle : Cursor} {flags : UInt32}

theorem run_read_flags (settings : EnvelopeSettings)
    (hflags : Layout.Between order [.u32 flags] cursor middle) :
    (read settings).run order cursor =
      if flags ∈ OrpcFlag.accepted then
        ((Chain.read settings.extensionLimit).run order middle).map fun (chain, next) =>
          (⟨flags, chain⟩, next)
      else
        .error (.replyFlags flags) := by
  rw [read, Reader.u32_exact.run_lift_bind _ hflags]
  by_cases haccepted : flags ∈ OrpcFlag.accepted
  · rw [if_pos haccepted, if_neg (not_not.2 haccepted), Reader.run_bind]
    cases (Chain.read settings.extensionLimit).run order middle <;> rfl
  · rw [if_neg haccepted, if_pos haccepted]
    rfl

theorem chain_of_read {header : OrpcThat} {next : Cursor}
    (h : (read settings).run order cursor = .ok (header, next)) :
    ∃ middle, (Chain.read settings.extensionLimit).run order middle =
      .ok (header.extensions, next) := by
  obtain ⟨flags, middle, hflags, _⟩ := Reader.run_bind_eq_ok.1 h
  rw [run_read_flags settings ((Reader.u32_exact _ _ _ _).1 (Reader.run_eq_ok_of_lift hflags))] at h
  split at h
  · obtain ⟨⟨chain, last⟩, hchain, heq⟩ := map_eq_ok_iff.1 h
    cases heq
    exact ⟨middle, hchain⟩
  · cases h

end OrpcThat

theorem OrpcThis.chain_of_read {settings : EnvelopeSettings} {order : ByteOrder}
    {cursor next : Cursor} {header : OrpcThis}
    (h : (read settings).run order cursor = .ok (header, next)) :
    ∃ middle, (Chain.read settings.extensionLimit).run order middle =
      .ok (header.extensions, next) := by
  obtain ⟨version, _, _, h⟩ := Reader.run_bind_eq_ok.1 h
  obtain ⟨flags, _, _, h⟩ := Reader.run_bind_eq_ok.1 h
  obtain ⟨reserved, _, _, h⟩ := Reader.run_bind_eq_ok.1 h
  obtain ⟨causalityId, middle, _, h⟩ := Reader.run_bind_eq_ok.1 h
  obtain ⟨chain, last, hchain, hpure⟩ := Reader.run_bind_eq_ok.1 h
  cases hpure
  exact ⟨middle, hchain⟩

/-! ### How many extensions a header has -/

namespace EnvelopeSettings

theorem length_le_of_received {settings : EnvelopeSettings} {causality : Causality}
    {order : ByteOrder} {cursor : Cursor} {extensions : List Extension}
    (h : (∃ header next, (OrpcThis.receive settings causality order cursor).1 = .ok (header, next) ∧
        header.extensions = some extensions) ∨
      ∃ header next, (OrpcThat.read settings).run order cursor = .ok (header, next) ∧
        header.extensions = some extensions) :
    extensions.length ≤ settings.extensionLimit + settings.extensionLimit % 2 := by
  have hread : ∃ middle next,
      (Chain.read settings.extensionLimit).run order middle = .ok (some extensions, next) := by
    rcases h with ⟨header, next, hreceive, hextensions⟩ | ⟨header, next, hread, hextensions⟩
    · rw [OrpcThis.receive_fst] at hreceive
      obtain ⟨middle, hchain⟩ := OrpcThis.chain_of_read hreceive
      exact ⟨middle, next, hextensions ▸ hchain⟩
    · obtain ⟨middle, hchain⟩ := OrpcThat.chain_of_read hread
      exact ⟨middle, next, hextensions ▸ hchain⟩
  obtain ⟨middle, next, hchain⟩ := hread
  rw [← Chain.paddedSlots_eq]
  exact Chain.length_le_of_read hchain

theorem exists_read_most (settings : EnvelopeSettings) (order : ByteOrder) (position : Nat)
    (h : settings.extensionLimit + settings.extensionLimit % 2 ≤ elementLimit) :
    ∃ octets header next extensions,
      (OrpcThat.read settings).run order ⟨position, octets⟩ = .ok (header, next) ∧
      header.extensions = some extensions ∧ extensions.length =
        settings.extensionLimit + settings.extensionLimit % 2 := by
  let extensions : List Extension :=
    List.replicate (settings.extensionLimit + settings.extensionLimit % 2) ⟨Guid.nil, []⟩
  have hlength : extensions.length = settings.extensionLimit + settings.extensionLimit % 2 :=
    List.length_replicate
  have hcount : (UInt32.ofNat settings.extensionLimit).toNat = settings.extensionLimit := by
    have helements : elementLimit < UInt32.size := by decide
    exact UInt32.toNat_ofNat_of_lt' (by omega)
  have hslots : (UInt32.ofNat settings.extensionLimit).toNat ≤
      Chain.paddedSlots extensions.length := by
    rw [hcount, hlength, Chain.paddedSlots_eq]
    omega
  have hwithin : extensions.length ≤
      min (Chain.paddedSlots settings.extensionLimit) elementLimit := by
    rw [hlength, Chain.paddedSlots_eq]
    exact Nat.le_min.2 ⟨Nat.le_refl _, h⟩
  have hdata : ∀ extension ∈ extensions, extension.data.length ≤ elementLimit := by
    intro extension hmem
    rw [List.eq_of_mem_replicate hmem]
    exact Nat.zero_le _
  obtain ⟨layout, hchain⟩ := Chain.exists_read_counted (Nat.le_of_eq hcount) hslots hwithin hdata
  have hbetween := Layout.between_render order position ([.u32 OrpcFlag.null] ++ layout) []
  obtain ⟨middle, hflags, hbehind⟩ := Layout.between_append.1 hbetween
  have hread := OrpcThat.run_read_flags settings hflags
  rw [if_pos (by decide), hchain order middle _ hbehind] at hread
  exact ⟨_, _, _, extensions, hread, rfl, hlength⟩

/-- A header that is received, be it of a request or of a reply, has no more extensions than the
limit, or one more if the limit is odd. No smaller bound would do, as long as arrays may have that
many elements. -/
theorem most_extensions (settings : EnvelopeSettings) (order : ByteOrder) (position : Nat) :
    (∀ causality octets extensions,
      ((∃ header next, (OrpcThis.receive settings causality order ⟨position, octets⟩).1 =
          .ok (header, next) ∧ header.extensions = some extensions) ∨
        ∃ header next, (OrpcThat.read settings).run order ⟨position, octets⟩ = .ok (header, next) ∧
          header.extensions = some extensions) →
      extensions.length ≤ settings.extensionLimit + settings.extensionLimit % 2) ∧
    (settings.extensionLimit + settings.extensionLimit % 2 ≤ 2 ^ 20 →
      ∃ octets header next extensions,
        (OrpcThat.read settings).run order ⟨position, octets⟩ = .ok (header, next) ∧
        header.extensions = some extensions ∧
        extensions.length = settings.extensionLimit + settings.extensionLimit % 2) :=
  ⟨fun _ _ _ h => length_le_of_received h, exists_read_most settings order position⟩

/-- A reply whose chain counts one extension and has two slots that are not null. -/
def twoSlots : List UInt8 :=
  [0, 0, 0, 0,
    0, 0, 2, 0, 1, 0, 0, 0, 0, 0, 0, 0,
    4, 0, 2, 0, 2, 0, 0, 0, 8, 0, 2, 0, 12, 0, 2, 0] ++
  [0, 0, 0, 0, 1, 0, 0, 0, 0, 0, 0, 0, 0, 0, 0, 0, 0, 0, 0, 0, 0, 0, 0, 0] ++
  [0, 0, 0, 0, 2, 0, 0, 0, 0, 0, 0, 0, 0, 0, 0, 0, 0, 0, 0, 0, 0, 0, 0, 0]

theorem read_twoSlots : (OrpcThat.read { extensionLimit := 1 }).run .little ⟨0, twoSlots⟩ =
    .ok (⟨0, some [⟨⟨1, 0, 0, Block.zero 8⟩, []⟩, ⟨⟨2, 0, 0, Block.zero 8⟩, []⟩]⟩, ⟨80, []⟩) := by
  cbv

/-- With a limit of one there may be two extensions, where the chain counts one. -/
theorem most_extensions_odd :
    (∃ header next,
      (OrpcThat.read { extensionLimit := 1 }).run .little ⟨0, twoSlots⟩ = .ok (header, next) ∧
      header.extensions =
        some [⟨⟨1, 0, 0, Block.zero 8⟩, []⟩, ⟨⟨2, 0, 0, Block.zero 8⟩, []⟩]) ∧
    2 ≤ 1 + 1 % 2 := by
  have hread := read_twoSlots
  obtain ⟨hle, _⟩ := most_extensions { extensionLimit := 1 } .little 0
  exact ⟨⟨_, _, hread, rfl⟩, hle {} twoSlots _ (.inr ⟨_, _, hread, rfl⟩)⟩

/-- The limit of the settings is no bound on the extensions of a header. -/
theorem extensionLimit_exceeded :
    ¬ ∀ (settings : EnvelopeSettings) (order : ByteOrder) (cursor next : Cursor) (header : OrpcThat)
      (extensions : List Extension),
        (OrpcThat.read settings).run order cursor = .ok (header, next) →
        header.extensions = some extensions → extensions.length ≤ settings.extensionLimit := by
  intro h
  have hle := h { extensionLimit := 1 } .little ⟨0, twoSlots⟩ _ _ _ read_twoSlots rfl
  exact absurd hle (by decide)

end EnvelopeSettings

end OrpcWire
