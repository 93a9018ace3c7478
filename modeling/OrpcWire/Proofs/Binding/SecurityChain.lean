import Mathlib.Algebra.GroupWithZero.Nat
import OrpcWire.Proofs.Binding.Grammar

/-!
# Chains of security bindings

At an even position a chain of security bindings has one written form and is read from no other
octets (`SecurityBinding.readChain_iff_encodeChain`). A name whose surrogates do not pair up is not
read.
-/

namespace OrpcWire.SecurityBinding

variable {order : ByteOrder}

theorem encodeChain_eq_ok_iff (bindings : List SecurityBinding) (layout : Layout) :
    encodeChain bindings = .ok layout ↔
      (∀ binding ∈ bindings, binding.Encodable) ∧ layout =
        (closedUnits wireUnits bindings).map .u16 :=
  encodeClosed_eq_ok_iff encode_eq_ok_iff

theorem two_mul_units (binding : SecurityBinding) : 2 * binding.units = binding.length := by
  rw [units, length, servicesSize]
  omega

theorem length_unitOctets_chain (order : ByteOrder) (bindings : List SecurityBinding) :
    (Layout.unitOctets order (closedUnits wireUnits bindings)).length =
      (bindings.map length).sum + 2 := by
  rw [Layout.length_unitOctets, length_closedUnits length_wireUnits]
  induction bindings with
  | nil => rfl
  | cons binding bindings ih =>
    rw [List.foldr_cons, List.map_cons, List.sum_cons, ← two_mul_units]
    omega

/-! ### Names that are no texts -/

section

variable {authn authz : UInt16} {name : List UInt16}

theorem run_read_of_unpaired (hauthn : authn ≠ 0) (hname : ∀ unit ∈ name, unit ≠ 0)
    (hunpaired : Utf16.Unpaired name) {cursor next : Cursor}
    (h : Layout.Between order ((authn :: authz :: (name ++ [0])).map .u16) cursor next) :
    read.run order cursor = .error (.securityBinding .nameNotUtf16) := by
  obtain ⟨second, hfirst, third, hsecond, hothers⟩ := h
  have hservice : ¬authn = AuthnService.none := hauthn
  unfold read
  rw [Reader.u16_exact.lift.run_bind _ (Layout.between_singleton.2 hfirst), if_neg hservice,
    Reader.u16_exact.lift.run_bind _ (Layout.between_singleton.2 hsecond), Reader.run_bind,
    Reader.run_textToNul_of_unpaired _ hname hunpaired hothers]

theorem run_readChain_of_unpaired {before : List SecurityBinding}
    (hbefore : ∀ binding ∈ before, binding.Encodable) (hauthn : authn ≠ 0)
    (hname : ∀ unit ∈ name, unit ≠ 0) (hunpaired : Utf16.Unpaired name) {cursor next : Cursor}
    (h : Layout.Between order
      ((before.flatMap wireUnits ++ authn :: authz :: (name ++ [0])).map .u16) cursor next) :
    readChain.run order cursor = .error (.securityBinding .nameNotUtf16) := by
  rw [List.map_append, List.map_flatMap] at h
  obtain ⟨middle, hfirst, hsecond⟩ := Layout.between_append.1 h
  unfold readChain
  rw [read_items.run_collect_behind hbefore hfirst, Reader.collect_eq, Reader.run_bind,
    run_read_of_unpaired hauthn hname hunpaired hsecond]
  rfl

end

/-! ### Reading and writing -/

/-- At an even position a chain is read from just the octets that it is written as. It can be
written if no authentication service is the zero unit that ends a chain and no name has a U+0000 in
it, takes the octets of its bindings and two for its end, and never holds a name whose surrogates do
not pair up. -/
theorem readChain_iff_encodeChain (order : ByteOrder) {position : Nat} (heven : position % 2 = 0) :
    (∀ bindings, (∃ layout, encodeChain bindings = .ok layout) ↔
      ∀ binding ∈ bindings, binding.authnService ≠ 0 ∧ '\x00' ∉ binding.principalName.toList) ∧
    (∀ octets bindings next, readChain.run order ⟨position, octets⟩ = .ok (bindings, next) ↔
      ∃ layout, encodeChain bindings = .ok layout ∧
        octets = layout.render order position ++ next.rest ∧
          next.position = position + (layout.render order position).length) ∧
    (∀ bindings layout, encodeChain bindings = .ok layout →
      (layout.render order position).length = (bindings.map length).sum + 2) ∧
    ∀ (before : List SecurityBinding) (authn authz : UInt16) (name : List UInt16)
      (trailing : List UInt8),
      (∀ binding ∈ before, binding.authnService ≠ 0 ∧ '\x00' ∉ binding.principalName.toList) →
      authn ≠ 0 → (∀ unit ∈ name, unit ≠ 0) → Utf16.Unpaired name →
      readChain.run order ⟨position,
          Layout.unitOctets order (before.flatMap wireUnits ++ authn :: authz :: (name ++ [0])) ++
            trailing⟩ =
        .error (.securityBinding .nameNotUtf16) := by
  have hrender : ∀ bindings,
      Layout.render order position ((closedUnits wireUnits bindings).map .u16) =
        Layout.unitOctets order (closedUnits wireUnits bindings) :=
          fun bindings => Layout.render_units order _ heven
  refine ⟨fun bindings => ?_, fun octets bindings next => ?_, fun bindings layout hencode => ?_,
    fun before authn authz name trailing hbefore hauthn hname hunpaired => ?_⟩
  · constructor
    · rintro ⟨layout, hencode⟩
      exact ((encodeChain_eq_ok_iff bindings layout).1 hencode).1
    · intro hall
      exact ⟨_, (encodeChain_eq_ok_iff bindings _).2 ⟨hall, rfl⟩⟩
  · have hread : readChain.run order ⟨position, octets⟩ = .ok (bindings, next) ↔
        (∀ binding ∈ bindings, binding.Encodable) ∧
          octets = Layout.unitOctets order (closedUnits wireUnits bindings) ++ next.rest ∧
          next.position = position + 2 * (closedUnits wireUnits bindings).length := by
      rw [readChain_exact order _ bindings next]
      exact and_congr_right fun _ => Layout.between_units_iff heven
    rw [hread, ← Layout.length_unitOctets order, ← hrender]
    constructor
    · rintro ⟨hall, hrest, hposition⟩
      exact ⟨_, (encodeChain_eq_ok_iff bindings _).2 ⟨hall, rfl⟩, hrest, hposition⟩
    · rintro ⟨layout, hencode, hrest, hposition⟩
      obtain ⟨hall, rfl⟩ := (encodeChain_eq_ok_iff bindings layout).1 hencode
      exact ⟨hall, hrest, hposition⟩
  · obtain ⟨-, rfl⟩ := (encodeChain_eq_ok_iff bindings layout).1 hencode
    rw [hrender, length_unitOctets_chain]
  · exact run_readChain_of_unpaired hbefore hauthn hname hunpaired
      (Layout.between_unitOctets order _ heven trailing)

/-- A name of one character that takes two units, and the same units the other way round, which are
no text. -/
theorem readChain_iff_encodeChain_pair :
    let bindings : List SecurityBinding := [⟨AuthnService.winNt, authzNone, "😀"⟩]
    let layout : Layout := [.u16 0x0A, .u16 0xFFFF, .u16 0xD83D, .u16 0xDE00, .u16 0, .u16 0]
    2 % 2 = 0 ∧ encodeChain bindings = .ok layout ∧
      readChain.run .big ⟨2, layout.render .big 2 ++ [0xAB]⟩ = .ok (bindings, ⟨14, [0xAB]⟩) ∧
      readChain.run .big ⟨2, Layout.unitOctets .big [0x0A, 0xFFFF, 0xDE00, 0xD83D, 0] ++ [0xAB]⟩ =
        .error (.securityBinding .nameNotUtf16) := by
  intro bindings layout
  obtain ⟨_, hread, _, hunpaired⟩ := readChain_iff_encodeChain .big (show 2 % 2 = 0 by rfl)
  have hencode : encodeChain bindings = .ok layout := by
    unfold bindings layout
    cbv
  refine ⟨rfl, hencode, (hread _ bindings ⟨14, [0xAB]⟩).2 ⟨layout, hencode, rfl, rfl⟩, ?_⟩
  exact hunpaired [] 0x0A 0xFFFF [0xDE00, 0xD83D] [0xAB] (by simp) (by simp) (by simp)
    ⟨[], 0xDE00, [0xD83D], rfl, .inr ⟨rfl, by simp⟩⟩

end OrpcWire.SecurityBinding
