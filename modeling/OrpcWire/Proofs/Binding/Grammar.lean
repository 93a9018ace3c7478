import OrpcWire.Binding.DualStringArray
import OrpcWire.Proofs.Binding.Sections

/-!
# The grammar of resolver address lists

The array behind the header of a list is cut at the security offset. What may stand in either part
differs: string bindings may run up to the end of their section (`StringSection`), while security
bindings need a zero unit behind them unless their section is empty (`SecuritySection`). Main
statement: a list is read exactly if both parts are such sections, and what follows the array is
left (`DualStringArray.read_iff_grammar`).
-/

namespace OrpcWire

/-- String bindings up to the end of their section or to a zero unit. What stands behind the zero
unit does not count. -/
def StringSection (units : List UInt16) (bindings : List StringBinding) : Prop :=
  (∀ binding ∈ bindings, binding.Encodable) ∧ ∃ rest,
    units = bindings.flatMap StringBinding.wireUnits ++ rest ∧
      (rest = [] ∨ ∃ ignored, rest = 0 :: ignored)

/-- No units at all, or security bindings up to a zero unit. What stands behind the zero unit does
not count. -/
def SecuritySection (units : List UInt16) (bindings : List SecurityBinding) : Prop :=
  units = [] ∧ bindings = [] ∨ (∀ binding ∈ bindings, binding.Encodable) ∧
    ∃ ignored, units = bindings.flatMap SecurityBinding.wireUnits ++ 0 :: ignored

theorem SecurityBinding.readChain_exact :
    readChain.ExactOn (fun bindings => ∀ binding ∈ bindings, binding.Encodable)
    fun bindings => (closedUnits wireUnits bindings).map .u16 := by
  intro order cursor bindings next
  show _ ↔ _ ∧ Layout.Between order ((closedUnits wireUnits bindings).map .u16) cursor next
  rw [closedUnits_layout]
  exact read_items.collect_exactOn (fun _ _ _ => run_read_eq_none_iff) order cursor bindings next

namespace DualStringArray

variable {order : ByteOrder} {cursor next : Cursor} {units : List UInt16}

/-! ### Sections -/

theorem run_readString_eq_ok_iff {answer : Option StringBinding} :
    readString.run order cursor = .ok (answer, next) ↔
      (cursor.rest = [] ∧ answer = none ∧ next = cursor) ∨
        StringBinding.read.run order cursor = .ok (answer, next) :=
  Reader.run_unless_atEnd_iff StringBinding.read_uses (by decide)

theorem readString_items : readString.Items StringBinding.Encodable fun binding =>
    binding.wireUnits.map .u16 := by
  intro order cursor binding next
  rw [run_readString_eq_ok_iff, ← StringBinding.read_items order cursor binding next]
  simp

theorem run_readString_eq_none_iff {position : Nat} (heven : position % 2 = 0) :
    (∃ last, readString.run order ⟨position, Layout.unitOctets order units⟩ = .ok (none, last)) ↔
      units = [] ∨ ∃ ignored, units = 0 :: ignored := by
  have hzero : ∀ last, StringBinding.read.run order ⟨position, Layout.unitOctets order units⟩ =
      .ok (none, last) ↔ ∃ ignored, units = [0] ++ ignored ∧
        last = ⟨position + 2, Layout.unitOctets order ignored⟩ := by
    intro last
    rw [StringBinding.run_read_eq_none_iff]
    exact Layout.between_units_in_units_iff [0] heven
  simp only [run_readString_eq_ok_iff, hzero, Layout.unitOctets_eq_nil_iff]
  constructor
  · rintro ⟨last, ⟨hend, -⟩ | ⟨ignored, hunits, -⟩⟩
    · exact .inl hend
    · exact .inr ⟨ignored, hunits⟩
  · rintro (hend | ⟨ignored, hunits⟩)
    · exact ⟨_, .inl ⟨hend, trivial, rfl⟩⟩
    · exact ⟨_, .inr ⟨ignored, hunits, rfl⟩⟩

theorem run_readStrings_iff {bindings : List StringBinding} :
    (∃ last, readStrings.run order ⟨0, Layout.unitOctets order units⟩ = .ok (bindings, last)) ↔
      StringSection units bindings := by
  have hlayout : bindings.flatMap (fun binding => binding.wireUnits.map Field.u16) =
      (bindings.flatMap StringBinding.wireUnits).map .u16 := List.map_flatMap.symm
  have heven : (0 + 2 * (bindings.flatMap StringBinding.wireUnits).length) % 2 = 0 := by omega
  unfold readStrings StringSection
  simp only [readString_items.run_collect_eq_ok_iff, hlayout, 
    Layout.between_units_in_units_iff _ (Nat.zero_mod 2)]
  constructor
  · rintro ⟨last, hall, middle, ⟨rest, hunits, rfl⟩, hnone⟩
    exact ⟨hall, rest, hunits, (run_readString_eq_none_iff heven).1 ⟨last, hnone⟩⟩
  · rintro ⟨hall, rest, hunits, hrest⟩
    obtain ⟨last, hnone⟩ := (run_readString_eq_none_iff heven).2 hrest
    exact ⟨last, hall, _, ⟨rest, hunits, rfl⟩, hnone⟩

theorem run_readSecurity_iff {bindings : List SecurityBinding} :
    (∃ last, readSecurity.run order ⟨0, Layout.unitOctets order units⟩ = .ok (bindings, last)) ↔
      SecuritySection units bindings := by
  have hrun : ∀ last, readSecurity.run order ⟨0, Layout.unitOctets order units⟩ =
      .ok (bindings, last) ↔
        (units = [] ∧ bindings = [] ∧ last = ⟨0, Layout.unitOctets order units⟩) ∨
          SecurityBinding.readChain.run order ⟨0, Layout.unitOctets order units⟩ =
            .ok (bindings, last) := by
    intro last
    rw [← Layout.unitOctets_eq_nil_iff]
    exact Reader.run_unless_atEnd_iff (Reader.collect_uses_first SecurityBinding.read_uses)
      (by decide)
  have hclosed : ∀ ignored, closedUnits SecurityBinding.wireUnits bindings ++ ignored =
      bindings.flatMap SecurityBinding.wireUnits ++ 0 :: ignored := by
    intro ignored
    rw [closedUnits, List.append_assoc, List.singleton_append]
  simp only [hrun, SecurityBinding.readChain_exact order _ bindings _,
    Layout.between_units_in_units_iff _ (Nat.zero_mod 2), hclosed]
  constructor
  · rintro ⟨last, ⟨hunits, hbindings, -⟩ | ⟨hall, ignored, hunits, -⟩⟩
    · exact .inl ⟨hunits, hbindings⟩
    · exact .inr ⟨hall, ignored, hunits⟩
  · rintro (⟨hunits, hbindings⟩ | ⟨hall, ignored, hunits⟩)
    · exact ⟨_, .inl ⟨hunits, hbindings, rfl⟩⟩
    · exact ⟨_, .inr ⟨hall, ignored, hunits, rfl⟩⟩

/-! ### Lists -/

theorem run_sections_iff {list : DualStringArray} {offset : Nat} :
    (do
      let stringBindings ←
        Reader.within ((Layout.unitOctets order units).take (2 * offset)) readStrings
      let securityBindings ←
        Reader.within ((Layout.unitOctets order units).drop (2 * offset)) readSecurity
      return ⟨stringBindings, securityBindings⟩ :
      Reader OrpcError DualStringArray).run order cursor = .ok (list, next) ↔
        StringSection (units.take offset) list.stringBindings ∧
        SecuritySection (units.drop offset) list.securityBindings ∧ next = cursor := by
  obtain ⟨htake, hdrop⟩ := Layout.take_drop_unitOctets order units offset
  rw [htake, hdrop, Reader.run_bind_eq_ok]
  constructor
  · rintro ⟨strings, middle, hstrings, h⟩
    obtain ⟨security, last, hsecurity, h⟩ := Reader.run_bind_eq_ok.1 h
    cases h
    obtain ⟨hstrings, hmiddle⟩ := Reader.run_within_eq_ok_iff.1 hstrings
    obtain ⟨hsecurity, hnext⟩ := Reader.run_within_eq_ok_iff.1 hsecurity
    exact ⟨run_readStrings_iff.1 hstrings, run_readSecurity_iff.1 hsecurity, by rw [hnext, hmiddle]⟩
  · rintro ⟨hstrings, hsecurity, rfl⟩
    refine ⟨_, next, Reader.run_within_eq_ok_iff.2 ⟨run_readStrings_iff.2 hstrings, rfl⟩, ?_⟩
    rw [Reader.run_bind_eq_ok]
    exact ⟨_, next, Reader.run_within_eq_ok_iff.2 ⟨run_readSecurity_iff.2 hsecurity, rfl⟩, rfl⟩

theorem run_read_iff_sections {list : DualStringArray} : read.run order cursor = .ok (list, next) ↔
    ∃ (entries offset : UInt16) (units : List UInt16),
      offset ≤ entries ∧ units.length = entries.toNat ∧
      Layout.Between order ((entries :: offset :: units).map .u16) cursor next ∧
      StringSection (units.take offset.toNat) list.stringBindings ∧
      SecuritySection (units.drop offset.toNat) list.securityBindings := by
  unfold read
  rw [Reader.u16_exact.lift.run_bind_eq_ok]
  constructor
  · rintro ⟨entries, second, hentries, h⟩
    obtain ⟨offset, start, hoffset, h⟩ := Reader.u16_exact.lift.run_bind_eq_ok.1 h
    by_cases hlt : entries.toNat < offset.toNat
    · rw [if_pos hlt] at h
      cases h
    · rw [if_neg hlt] at h
      obtain ⟨array, last, harray, h⟩ := Reader.run_bind_eq_ok.1 h
      obtain ⟨hlength, hrest, hposition⟩ :=
        Reader.run_octets_eq_ok.1 (Reader.run_lift_eq_ok_iff.1 harray)
      obtain ⟨units, hunits, rfl⟩ := Layout.exists_unitOctets order hlength
      obtain ⟨hstrings, hsecurity, rfl⟩ := run_sections_iff.1 h
      have heven := Layout.even_of_between_u16 (Layout.between_singleton.1 hoffset)
      refine ⟨entries, offset, units, UInt16.le_iff_toNat_le.2 (Nat.le_of_not_lt hlt), hunits, ?_,
        hstrings, hsecurity⟩
      refine ⟨second, Layout.between_singleton.1 hentries, start,
        Layout.between_singleton.1 hoffset, ?_⟩
      exact (Layout.between_units_iff heven).2 ⟨hrest, by rw [hposition, hunits]⟩
  · rintro ⟨entries, offset, units, hle, hunits, ⟨second, hentries, start, hoffset, hbetween⟩,
      hstrings, hsecurity⟩
    refine ⟨entries, second, Layout.between_singleton.2 hentries, ?_⟩
    rw [Reader.u16_exact.lift.run_bind _ (Layout.between_singleton.2 hoffset),
      if_neg (Nat.not_lt_of_le (UInt16.le_iff_toNat_le.1 hle)), Reader.run_bind_eq_ok]
    obtain ⟨hrest, hposition⟩ :=
      (Layout.between_units_iff (Layout.even_of_between_u16 hoffset)).1 hbetween
    refine ⟨Layout.unitOctets order units, next,
      Reader.run_lift_eq_ok_iff.2 (Reader.run_octets_eq_ok.2 ⟨?_, hrest, ?_⟩), ?_⟩
    · rw [Layout.length_unitOctets, hunits]
    · rw [hposition, hunits]
    · exact run_sections_iff.2 ⟨hstrings, hsecurity, rfl⟩

/-- A list is read exactly if, behind padding to an even position, there are two words of which the
second is not the larger one and as many units as the first one says, and the units before and
behind the second one make a section of string bindings and one of security bindings. The bindings
read are those of the sections, and the octets read are those that the header counts, wherever the
bindings end. -/
theorem read_iff_grammar (order : ByteOrder) (cursor next : Cursor) (list : DualStringArray) :
    read.run order cursor = .ok (list, next) ↔
      ∃ (skipped : List UInt8) (entries offset : UInt16) (units : List UInt16),
        skipped.length = padding 2 cursor.position ∧ offset ≤ entries ∧
        units.length = entries.toNat ∧
        cursor.rest =
          skipped ++ (Layout.unitOctets order (entries :: offset :: units) ++ next.rest) ∧
        next.position = cursor.position + padding 2 cursor.position + (4 + 2 * entries.toNat) ∧
        StringSection (units.take offset.toNat) list.stringBindings ∧
        SecuritySection (units.drop offset.toNat) list.securityBindings := by
  simp only [run_read_iff_sections, Layout.between_units_behind_padding_iff]
  constructor
  · rintro ⟨entries, offset, units, hle, hunits, ⟨skipped, hskipped, hrest, hposition⟩, hsections⟩
    refine ⟨skipped, entries, offset, units, hskipped, hle, hunits, hrest, ?_, hsections⟩
    rw [hposition, List.length_cons, hunits]
    omega
  · rintro ⟨skipped, entries, offset, units, hskipped, hle, hunits, hrest, hposition, hsections⟩
    refine ⟨entries, offset, units, hle, hunits, ⟨skipped, hskipped, hrest, ?_⟩, hsections⟩
    rw [hposition, List.length_cons, hunits]
    omega

end DualStringArray

end OrpcWire
