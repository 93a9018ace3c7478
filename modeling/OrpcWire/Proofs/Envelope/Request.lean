import OrpcWire.Envelope.Request
import OrpcWire.Proofs.Envelope.Chain

/-!
# Request headers that are sent and received

A header in the layout with pointers is received exactly if its chain is, and then it is the header
that was sent, except that the reserved word is 0 and the causality id is the one under which the
call went out (`OrpcThis.receive_encoded`).
-/

namespace OrpcWire

theorem ComVersion.read_exact : ComVersion.read.Exact ComVersion.layout := by
  intro order cursor version next
  rw [ComVersion.read, Reader.u16_exact.run_bind_eq_ok]
  constructor
  · rintro ⟨major, middle, hmajor, hrest⟩
    obtain ⟨minor, last, hminor, hpure⟩ := Reader.u16_exact.run_bind_eq_ok.1 hrest
    cases hpure
    exact ⟨middle, Layout.between_singleton.1 hmajor, hminor⟩
  · rintro ⟨middle, hmajor, hminor⟩
    refine ⟨version.major, middle, Layout.between_singleton.2 hmajor, ?_⟩
    rw [Reader.u16_exact.run_bind _ hminor]
    rfl

namespace OrpcThis

variable {header : OrpcThis} {settings : EnvelopeSettings} {causality : Causality}
  {order : ByteOrder} {cursor middle : Cursor} {ids later : IdSupply} {layout : Layout}

/-- The fields in front of the chain. -/
def front (header : OrpcThis) (causality : Causality) : Layout :=
  header.version.layout ++ [.u32 header.flags, .u32 0] ++ (header.sentCausalityId causality).layout

/-- The header that a receiver has. -/
def received (header : OrpcThis) (causality : Causality) : OrpcThis :=
  ⟨header.version, header.flags, 0, header.sentCausalityId causality, header.extensions⟩

theorem encode_linked_eq_ok_iff (hlinked : settings.chainLayout = .linked) :
    header.encode settings causality ids = .ok (layout, later) ↔
      ∃ chain, header.extensions.encodeLinked ids = .ok (chain, later) ∧
        layout = header.front causality ++ chain := by
  rw [encode, hlinked, bind_eq_ok_iff]
  constructor
  · rintro ⟨⟨chain, ids'⟩, hchain, heq⟩
    cases heq
    exact ⟨chain, hchain, rfl⟩
  · rintro ⟨chain, hchain, rfl⟩
    exact ⟨(chain, later), hchain, rfl⟩

/-- Reads the fields in front of the chain and goes on with what they say. -/
def readBehind {α : Type} (next : ComVersion → UInt32 → Guid → Reader OrpcError α) :
    Reader OrpcError α := do
  let version ← ComVersion.read
  let flags ← Reader.u32
  let _ ← Reader.u32
  let causalityId ← Reader.guid
  next version flags causalityId

theorem run_readBehind {α : Type} (next : ComVersion → UInt32 → Guid → Reader OrpcError α)
    (hfront : (header.front causality).Between order cursor middle) :
    (readBehind next).run order cursor =
      (next header.version header.flags (header.sentCausalityId causality)).run order middle := by
  obtain ⟨behindFlags, hwords, hid⟩ := Layout.between_append.1 hfront
  obtain ⟨behindVersion, hversion, hflags⟩ := Layout.between_append.1 hwords
  obtain ⟨behindFlag, hflag, hreserved⟩ := Layout.between_cons.1 hflags
  rw [readBehind, ComVersion.read_exact.run_lift_bind _ hversion,
    Reader.u32_exact.run_lift_bind _ (Layout.between_singleton.2 hflag),
    Reader.u32_exact.run_lift_bind _ hreserved, Reader.guid_exact.run_lift_bind _ hid]

theorem run_read_front (hfront : (header.front causality).Between order cursor middle) :
    (read settings).run order cursor = ((Chain.read settings.extensionLimit).run order middle).map
      fun (chain, next) => ({ header.received causality with extensions := chain }, next) := by
  have hread : read settings = readBehind fun version flags causalityId => do
      return ⟨version, flags, 0, causalityId, ← Chain.read settings.extensionLimit⟩ := rfl
  rw [hread, run_readBehind _ hfront, Reader.run_bind]
  cases (Chain.read settings.extensionLimit).run order middle <;> rfl

/-- Where a header has been written it is received exactly if its chain is within the limits of the
receiver. -/
theorem run_read_written_iff (hids : ids.next ≠ nullId) (hlinked : settings.chainLayout = .linked)
    (h : header.encode settings causality ids = .ok (layout, later)) (receiver : EnvelopeSettings)
    {last : Cursor} (hbetween : layout.Between order cursor last) {answer : OrpcThis × Cursor} :
    (read receiver).run order cursor = .ok answer ↔
      header.extensions.Accepted receiver.extensionLimit ∧
      answer = (header.received causality, last) := by
  obtain ⟨chain, hchain, rfl⟩ := (encode_linked_eq_ok_iff hlinked).1 h
  obtain ⟨middle, hfront, hbehind⟩ := Layout.between_append.1 hbetween
  obtain ⟨_, _, hread⟩ := Chain.run_read_written_iff hids hchain
  obtain ⟨haccepted, _⟩ := hread order middle last hbehind receiver.extensionLimit
  rw [run_read_front hfront, map_eq_ok_iff]
  constructor
  · rintro ⟨found, hfound, rfl⟩
    obtain ⟨hwithin, rfl⟩ := (haccepted found).1 hfound
    exact ⟨hwithin, rfl⟩
  · rintro ⟨hwithin, rfl⟩
    exact ⟨(header.extensions, last), (haccepted _).2 ⟨hwithin, rfl⟩, rfl⟩

theorem receive_fst (receiver : EnvelopeSettings) (causality : Causality) (order : ByteOrder)
    (cursor : Cursor) :
    (receive receiver causality order cursor).1 = (read receiver).run order cursor := by
  rw [receive]
  rcases (read receiver).run order cursor with error | ⟨header, next⟩ <;> rfl

theorem receive_snd {receiver : EnvelopeSettings} {next : Cursor}
    (h : (receive receiver causality order cursor).1 = .ok (header, next)) :
    (receive receiver causality order cursor).2 = causality.serve header.causalityId := by
  rw [receive_fst] at h
  rw [receive, h]

theorem accepted_iff {limit : Nat} {chain : Chain} : chain.Accepted limit ↔ chain = none ∨
    ∃ extensions, chain = some extensions ∧ extensions.length ≤ min limit (2 ^ 20) ∧
      ∀ extension ∈ extensions, extension.data.length ≤ 2 ^ 20 := by
  cases chain with
  | none => simp [Chain.Accepted]
  | some extensions => simp [Chain.Accepted, elementLimit]

/-- A header whose padded chain can be counted is sent, and it is received exactly if it has no
chain or one within the limits of the receiver: no more extensions than the receiver allows, and
neither more extensions nor more data in one of them than any array may have. What is received is
the header that was sent, chain and all, with the causality id it went out under, which is that of
the call being served from then on; what follows is left alone. -/
theorem receive_encoded (header : OrpcThis) (settings receiver : EnvelopeSettings)
    (causality causality' : Causality) (order : ByteOrder) (position : Nat) (ids : IdSupply)
    (trailing : List UInt8) (hlinked : settings.chainLayout = .linked) (hids : ids.Reached)
    (hsmall : ∀ extensions ∈ header.extensions, extensions.length ≤ 2 ^ 32 - 2 ∧
      ∀ extension ∈ extensions, extension.data.length ≤ 2 ^ 32 - 8) :
    ∃ layout later, header.encode settings causality ids = .ok (layout, later) ∧
      let cursor : Cursor := ⟨position, layout.render order position ++ trailing⟩
      ((∃ answer, (receive receiver causality' order cursor).1 = .ok answer) ↔
        header.extensions = none ∨ ∃ extensions, header.extensions = some extensions ∧
          extensions.length ≤ min receiver.extensionLimit (2 ^ 20) ∧
          ∀ extension ∈ extensions, extension.data.length ≤ 2 ^ 20) ∧
      ∀ answer, (receive receiver causality' order cursor).1 = .ok answer →
        let id := causality.serving.getD header.causalityId
        answer = (⟨header.version, header.flags, 0, id, header.extensions⟩,
          ⟨position + (layout.render order position).length, trailing⟩) ∧
        (receive receiver causality' order cursor).2 = { causality' with serving := some id } := by
  obtain ⟨chain, later, hchain⟩ := Chain.exists_encodeLinked hsmall ids
  have hencode : header.encode settings causality ids =
      .ok (header.front causality ++ chain, later) :=
    (encode_linked_eq_ok_iff hlinked).2 ⟨chain, hchain, rfl⟩
  refine ⟨_, later, hencode, ?_⟩
  intro cursor
  have hbetween := Layout.between_render order position (header.front causality ++ chain) trailing
  have hread : ∀ answer, (receive receiver causality' order cursor).1 = .ok answer ↔
      header.extensions.Accepted receiver.extensionLimit ∧
      answer = (header.received causality,
        ⟨position + ((header.front causality ++ chain).render order position).length,
          trailing⟩) := by
    intro answer
    rw [receive_fst, run_read_written_iff hids.next_ne_null hlinked hencode receiver hbetween]
  constructor
  · rw [← accepted_iff]
    constructor
    · rintro ⟨answer, hanswer⟩
      exact ((hread answer).1 hanswer).1
    · intro haccepted
      exact ⟨_, (hread _).2 ⟨haccepted, rfl⟩⟩
  · intro answer hanswer id
    obtain ⟨_, rfl⟩ := (hread answer).1 hanswer
    exact ⟨rfl, receive_snd hanswer⟩

/-- A header sent on behalf of another call, at an odd position, to a receiver that takes one
extension. Two extensions would be too many for it. -/
theorem receive_encoded_nested :
    let outer : Guid := ⟨1, 2, 3, Block.zero 8⟩
    let extension : Extension := ⟨⟨4, 5, 6, Block.zero 8⟩, [1, 2, 3]⟩
    let header : OrpcThis := ⟨.v5_7, 1, 9, Guid.nil, some [extension]⟩
    let receiver : EnvelopeSettings := { extensionLimit := 1 }
    ({} : EnvelopeSettings).chainLayout = .linked ∧ IdSupply.fresh.Reached ∧
      (∀ extensions ∈ header.extensions, extensions.length ≤ 2 ^ 32 - 2 ∧
        ∀ extension ∈ extensions, extension.data.length ≤ 2 ^ 32 - 8) ∧
      ∃ layout later, header.encode {} ⟨some outer, []⟩ .fresh = .ok (layout, later) ∧
        receive receiver {} .big ⟨3, layout.render .big 3 ++ [0xFF]⟩ =
          (.ok (⟨.v5_7, 1, 0, outer, some [extension]⟩,
            ⟨3 + (layout.render .big 3).length, [0xFF]⟩), ⟨some outer, []⟩) := by
  intro outer extension header receiver
  have hsmall : ∀ extensions ∈ header.extensions, extensions.length ≤ 2 ^ 32 - 2 ∧
      ∀ extension ∈ extensions, extension.data.length ≤ 2 ^ 32 - 8 := by
    rintro _ ⟨⟩
    simp [extension]
  obtain ⟨layout, later, hencode, hiff, hanswer⟩ :=
    receive_encoded header {} receiver ⟨some outer, []⟩ {} .big 3 .fresh [0xFF] rfl
      IdSupply.reached_fresh hsmall
  refine ⟨rfl, IdSupply.reached_fresh, hsmall, layout, later, hencode, ?_⟩
  obtain ⟨answer, hreceived⟩ := hiff.2 (.inr ⟨[extension], rfl, by decide, by simp [extension]⟩)
  obtain ⟨rfl, hserved⟩ := hanswer answer hreceived
  exact Prod.ext hreceived hserved

end OrpcThis

end OrpcWire
