import OrpcWire.Proofs.Binding.Grammar

/-!
# Resolver address lists that can be written

A resolver address list is a sequence of 16-bit units, its header included. It can be written if its
bindings can be and its units can be counted in a word (`DualStringArray.Encodable`,
`DualStringArray.encode_eq_ok_iff`). What can be written is read back (`DualStringArray.read_finds`,
`DualStringArray.read_encoded_list`): the security offset is where the string section ends, so each
section is cut out whole.
-/

namespace OrpcWire.DualStringArray

/-- The bindings can be written, and the units be counted in a word. -/
structure Encodable (list : DualStringArray) : Prop where
  strings : ∀ binding ∈ list.stringBindings, binding.Encodable
  security : ∀ binding ∈ list.securityBindings, binding.Encodable
  entries : list.numEntries ≤ 65535

/-- The units behind the header. -/
def arrayUnits (list : DualStringArray) : List UInt16 :=
  sectionUnits StringBinding.wireUnits list.stringBindings ++
    sectionUnits SecurityBinding.wireUnits list.securityBindings

/-- What the list is written as. -/
def wireUnits (list : DualStringArray) : List UInt16 :=
  .ofNat list.numEntries :: .ofNat list.securityOffset :: list.arrayUnits

theorem length_stringSection (list : DualStringArray) :
    (sectionUnits StringBinding.wireUnits list.stringBindings).length = list.securityOffset :=
  length_sectionUnits StringBinding.length_wireUnits

theorem length_arrayUnits (list : DualStringArray) : list.arrayUnits.length = list.numEntries := by
  rw [arrayUnits, List.length_append, length_stringSection,
    length_sectionUnits SecurityBinding.length_wireUnits]
  rfl

theorem length_wireUnits (list : DualStringArray) :
    list.wireUnits.length = 2 + list.numEntries := by
  rw [wireUnits, List.length_cons, List.length_cons, length_arrayUnits]
  omega

theorem Encodable.toNat_header {list : DualStringArray} (h : list.Encodable) :
    (UInt16.ofNat list.numEntries).toNat = list.numEntries ∧
      (UInt16.ofNat list.securityOffset).toNat = list.securityOffset := by
  have hentries : list.numEntries < 2 ^ 16 := Nat.lt_succ_of_le h.entries
  have hoffset : list.securityOffset ≤ list.numEntries := Nat.le_add_right _ _
  exact ⟨UInt16.toNat_ofNat_of_lt' hentries,
    UInt16.toNat_ofNat_of_lt' (Nat.lt_of_le_of_lt hoffset hentries)⟩

theorem encodeStrings_eq_ok_iff {bindings : List StringBinding} {layout : Layout} :
    encodeStrings bindings = .ok layout ↔ (∀ binding ∈ bindings, binding.Encodable) ∧
      layout = (sectionUnits StringBinding.wireUnits bindings).map .u16 :=
  encodeSection_eq_ok_iff StringBinding.encode_eq_ok_iff

theorem encodeSecurity_eq_ok_iff {bindings : List SecurityBinding} {layout : Layout} :
    encodeSecurity bindings = .ok layout ↔ (∀ binding ∈ bindings, binding.Encodable) ∧
      layout = (sectionUnits SecurityBinding.wireUnits bindings).map .u16 :=
  encodeSection_eq_ok_iff SecurityBinding.encode_eq_ok_iff

theorem encode_eq_ok_iff (list : DualStringArray) (layout : Layout) :
    list.encode = .ok layout ↔ list.Encodable ∧ layout = list.wireUnits.map .u16 := by
  rw [wireUnits, arrayUnits, List.map_cons, List.map_cons, List.map_append]
  unfold encode
  by_cases hentries : list.numEntries ≤ 65535
  · rw [if_pos hentries, bind_eq_ok_iff]
    constructor
    · rintro ⟨strings, hstrings, h⟩
      obtain ⟨security, hsecurity, h⟩ := bind_eq_ok_iff.1 h
      obtain ⟨hall, rfl⟩ := encodeStrings_eq_ok_iff.1 hstrings
      obtain ⟨hall', rfl⟩ := encodeSecurity_eq_ok_iff.1 hsecurity
      cases h
      exact ⟨⟨hall, hall', hentries⟩, rfl⟩
    · rintro ⟨h, rfl⟩
      exact ⟨_, encodeStrings_eq_ok_iff.2 ⟨h.strings, rfl⟩, bind_eq_ok_iff.2
        ⟨_, encodeSecurity_eq_ok_iff.2 ⟨h.security, rfl⟩, rfl⟩⟩
  · rw [if_neg hentries]
    constructor
    · intro h
      cases h
    · intro h
      exact absurd h.1.entries hentries

/-! ### Reading -/

theorem stringSection_written {bindings : List StringBinding}
    (h : ∀ binding ∈ bindings, binding.Encodable) :
    StringSection (sectionUnits StringBinding.wireUnits bindings) bindings := by
  obtain ⟨ignored, hunits⟩ := exists_sectionUnits StringBinding.wireUnits bindings
  exact ⟨h, 0 :: ignored, hunits, .inr ⟨ignored, rfl⟩⟩

theorem securitySection_written {bindings : List SecurityBinding}
    (h : ∀ binding ∈ bindings, binding.Encodable) :
    SecuritySection (sectionUnits SecurityBinding.wireUnits bindings) bindings :=
  .inr ⟨h, exists_sectionUnits SecurityBinding.wireUnits bindings⟩

/-- What can be written is read back, at any position. -/
theorem read_finds {list : DualStringArray} (h : list.Encodable) :
    read.Finds list (list.wireUnits.map .u16) := by
  intro order cursor next hbetween
  obtain ⟨hentries, hoffset⟩ := h.toNat_header
  have hle : list.securityOffset ≤ list.numEntries := Nat.le_add_right _ _
  refine run_read_iff_sections.2 ⟨_, _, list.arrayUnits, ?_, ?_, hbetween, ?_, ?_⟩
  · rw [UInt16.le_iff_toNat_le, hentries, hoffset]
    exact hle
  · rw [hentries, length_arrayUnits]
  · rw [hoffset, arrayUnits, List.take_left' list.length_stringSection]
    exact stringSection_written h.strings
  · rw [hoffset, arrayUnits, List.drop_left' list.length_stringSection]
    exact securitySection_written h.security

/-- A list can be written exactly if no binding begins with the zero unit that ends a section, no
text has a U+0000 in it, and its units can be counted in a word. It is then read back where it was
written, in any byte order, and what follows it is left. -/
theorem read_encoded_list (list : DualStringArray) (order : ByteOrder) (position : Nat)
    (trailing : List UInt8) :
    ((∃ layout, list.encode = .ok layout) ↔
      (∀ binding ∈ list.stringBindings, binding.towerId ≠ 0 ∧ '\x00' ∉ binding.networkAddr.toList) ∧
      (∀ binding ∈ list.securityBindings,
        binding.authnService ≠ 0 ∧ '\x00' ∉ binding.principalName.toList) ∧
      list.numEntries ≤ 65535) ∧
    ∀ layout, list.encode = .ok layout →
      read.run order ⟨position, layout.render order position ++ trailing⟩ =
        .ok (list, ⟨position + (layout.render order position).length, trailing⟩) := by
  refine ⟨⟨?_, fun ⟨hstrings, hsecurity, hentries⟩ => ?_⟩, fun layout hencode => ?_⟩
  · rintro ⟨layout, hencode⟩
    obtain ⟨hencodable, _⟩ := (encode_eq_ok_iff list layout).1 hencode
    exact ⟨hencodable.strings, hencodable.security, hencodable.entries⟩
  · exact ⟨_, (encode_eq_ok_iff list _).2 ⟨⟨hstrings, hsecurity, hentries⟩, rfl⟩⟩
  · obtain ⟨hencodable, rfl⟩ := (encode_eq_ok_iff list layout).1 hencode
    exact read_finds hencodable order _ _ (Layout.between_render order position _ trailing)

/-- An address of one character that takes two units, at an odd position, and no security
bindings. -/
theorem read_encoded_list_pair :
    let list : DualStringArray := ⟨[⟨Tower.tcp, "😀"⟩], []⟩
    let layout : Layout :=
      [.u16 7, .u16 5, .u16 7, .u16 0xD83D, .u16 0xDE00, .u16 0, .u16 0, .u16 0, .u16 0]
    list.encode = .ok layout ∧
      read.run .little ⟨3, layout.render .little 3 ++ [0xFF]⟩ = .ok (list, ⟨22, [0xFF]⟩) := by
  intro list layout
  have hencode : list.encode = .ok layout := by
    unfold list layout
    cbv
  exact ⟨hencode, (read_encoded_list list .little 3 [0xFF]).2 layout hencode⟩

end OrpcWire.DualStringArray
