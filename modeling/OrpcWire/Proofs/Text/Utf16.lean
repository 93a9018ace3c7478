import OrpcWire.Text.Utf16

/-!
# Units of texts

The units of a text are decoded to that text, since the characters that are no surrogates and the
pairs of surrogates are told apart by their first unit. None of the units is zero unless the text
has the character U+0000 in it.
-/

namespace OrpcWire.Utf16

theorem toNat_valid (c : Char) : c.toNat < 0xd800 ∨ 0xdfff < c.toNat ∧ c.toNat < 0x110000 := c.valid

theorem isHigh_iff (unit : UInt16) : isHigh unit = true ↔
    0xd800 ≤ unit.toNat ∧ unit.toNat < 0xdc00 := by
  simp only [isHigh, decide_eq_true_eq, UInt16.le_iff_toNat_le, UInt16.lt_iff_toNat_lt]
  rfl

theorem isLow_iff (unit : UInt16) : isLow unit = true ↔
    0xdc00 ≤ unit.toNat ∧ unit.toNat < 0xe000 := by
  simp only [isLow, decide_eq_true_eq, UInt16.le_iff_toNat_le, UInt16.lt_iff_toNat_lt]
  rfl

theorem charsOnto_charUnits (read : List Char) (c : Char) (units : List UInt16) :
    charsOnto read (charUnits c ++ units) = charsOnto (c :: read) units := by
  have hvalid := toNat_valid c
  unfold charUnits
  by_cases hplane : c.toNat < 0x10000
  · have hunit : (UInt16.ofNat c.toNat).toNat = c.toNat := UInt16.toNat_ofNat_of_lt' hplane
    have hhigh : isHigh (.ofNat c.toNat) = false := by
      rw [← Bool.not_eq_true, isHigh_iff, hunit]
      omega
    have hlow : isLow (.ofNat c.toNat) = false := by
      rw [← Bool.not_eq_true, isLow_iff, hunit]
      omega
    rw [if_pos hplane, List.singleton_append, charsOnto.eq_def]
    simp only [hhigh, hlow, hunit, Char.ofNat_toNat, Bool.false_eq_true, if_false]
  · obtain ⟨n, hn⟩ : ∃ n, n = c.toNat - 0x10000 := ⟨_, rfl⟩
    have hunit_high : (UInt16.ofNat (0xd800 + n / 0x400)).toNat = 0xd800 + n / 0x400 :=
      UInt16.toNat_ofNat_of_lt' (show 0xd800 + n / 0x400 < 0x10000 by omega)
    have hunit_low : (UInt16.ofNat (0xdc00 + n % 0x400)).toNat = 0xdc00 + n % 0x400 :=
      UInt16.toNat_ofNat_of_lt' (show 0xdc00 + n % 0x400 < 0x10000 by omega)
    have hhigh : isHigh (.ofNat (0xd800 + n / 0x400)) = true := by
      rw [isHigh_iff, hunit_high]
      omega
    have hlow : isLow (.ofNat (0xdc00 + n % 0x400)) = true := by
      rw [isLow_iff, hunit_low]
      omega
    have hpair : pairChar (.ofNat (0xd800 + n / 0x400)) (.ofNat (0xdc00 + n % 0x400)) = c := by
      rw [pairChar, hunit_high, hunit_low]
      have : 0x10000 + (0xd800 + n / 0x400 - 0xd800) * 0x400 + (0xdc00 + n % 0x400 - 0xdc00) =
          c.toNat := by omega
      rw [this, Char.ofNat_toNat]
    rw [if_neg hplane, ← hn]
    simp only [List.cons_append, List.nil_append, charsOnto, hhigh, hlow, if_true, hpair]

theorem text?_units (text : String) : text? (units text) = some text := by
  have hchars : ∀ (chars read : List Char),
      charsOnto read (chars.flatMap charUnits) = some (read.reverse ++ chars) := by
    intro chars
    induction chars with
    | nil => intro read; simp [charsOnto]
    | cons c chars ih =>
      intro read
      rw [List.flatMap_cons, charsOnto_charUnits, ih, List.reverse_cons, List.append_assoc,
        List.singleton_append]
  rw [text?, units, hchars]
  simp

theorem ne_zero_of_mem_charUnits {c : Char} (hc : c ≠ '\x00') : ∀ unit ∈ charUnits c, unit ≠ 0 := by
  have hpos : c.toNat ≠ 0 := by
    intro hzero
    apply hc
    rw [← Char.ofNat_toNat c, hzero]
  have hvalid := toNat_valid c
  -- A unit is zero only if its number is.
  have hunit : ∀ n, 0 < n → n < 0x10000 → UInt16.ofNat n ≠ 0 := by
    intro n hlow hhigh hzero
    have hnat : (UInt16.ofNat n).toNat = n := UInt16.toNat_ofNat_of_lt' hhigh
    rw [hzero] at hnat
    change 0 = n at hnat
    omega
  unfold charUnits
  by_cases hplane : c.toNat < 0x10000
  · rw [if_pos hplane]
    intro unit hmem
    rw [List.mem_singleton.1 hmem]
    exact hunit _ (by omega) hplane
  · rw [if_neg hplane]
    intro unit hmem
    rcases List.mem_cons.1 hmem with rfl | hmem
    · exact hunit _ (by omega) (by omega)
    · rw [List.mem_singleton.1 hmem]
      exact hunit _ (by omega) (by omega)

theorem ne_zero_of_mem_units {text : String} (htext : '\x00' ∉ text.toList) :
    ∀ unit ∈ units text, unit ≠ 0 := by
  intro unit hunit
  obtain ⟨c, hc, hunit⟩ := List.mem_flatMap.1 hunit
  refine ne_zero_of_mem_charUnits ?_ unit hunit
  rintro rfl
  exact htext hc

end OrpcWire.Utf16
