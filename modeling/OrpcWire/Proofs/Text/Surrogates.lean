import OrpcWire.Proofs.Text.Utf16

/-!
# Units and surrogates

A text and its units determine each other (`Utf16.text?_eq_some_iff`). Units are those of no text
exactly if one of them is a surrogate without its partner: a high one that no low one follows, or a
low one that no high one precedes (`Utf16.text?_eq_none_iff`).
-/

namespace OrpcWire.Utf16

variable {unit high low first second : UInt16} {units before after : List UInt16} {text : String}

theorem isLow_of_isHigh (h : isHigh unit = true) : isLow unit = false := by
  rw [isHigh_iff] at h
  rw [← Bool.not_eq_true, isLow_iff]
  omega

/-! ### The text of units -/

theorem toNat_ofNat {n : Nat} (h : n.isValidChar) : (Char.ofNat n).toNat = n := by
  rw [Char.ofNat, dif_pos h]
  rfl

theorem charUnits_ofNat (hhigh : isHigh unit = false) (hlow : isLow unit = false) :
    charUnits (.ofNat unit.toNat) = [unit] := by
  have hlt := unit.toNat_lt
  rw [← Bool.not_eq_true, isHigh_iff] at hhigh
  rw [← Bool.not_eq_true, isLow_iff] at hlow
  have hvalid : unit.toNat.isValidChar := by
    unfold Nat.isValidChar
    omega
  rw [charUnits, toNat_ofNat hvalid, if_pos hlt, UInt16.ofNat_toNat]

theorem charUnits_pairChar (hhigh : isHigh high = true) (hlow : isLow low = true) :
    charUnits (pairChar high low) = [high, low] := by
  rw [isHigh_iff] at hhigh
  rw [isLow_iff] at hlow
  obtain ⟨n, hn⟩ : ∃ n, n = 0x10000 + (high.toNat - 0xd800) * 0x400 + (low.toNat - 0xdc00) :=
    ⟨_, rfl⟩
  have hvalid : n.isValidChar := by
    unfold Nat.isValidChar
    omega
  have hfirst : 0xd800 + (n - 0x10000) / 0x400 = high.toNat := by omega
  have hsecond : 0xdc00 + (n - 0x10000) % 0x400 = low.toNat := by omega
  rw [charUnits, pairChar, ← hn, toNat_ofNat hvalid, if_neg (by omega), hfirst, hsecond,
    UInt16.ofNat_toNat, UInt16.ofNat_toNat]

theorem exists_of_charsOnto {read chars : List Char} (h : charsOnto read units = some chars) :
    ∃ more, chars = read.reverse ++ more ∧ units = more.flatMap charUnits := by
  induction read, units using charsOnto.induct with
  | case1 read =>
    cases h
    exact ⟨[], by simp⟩
  | case2 read high hhigh low units hlow ih =>
    simp only [charsOnto, hhigh, hlow, if_true] at h
    obtain ⟨more, rfl, rfl⟩ := ih h
    refine ⟨pairChar high low :: more, by simp, ?_⟩
    rw [List.flatMap_cons, charUnits_pairChar hhigh hlow]
    rfl
  | case3 read high hhigh low units hlow => simp [charsOnto, hhigh, hlow] at h
  | case4 read high hhigh => simp [charsOnto, hhigh] at h
  | case5 read unit units hhigh hlow =>
    rw [charsOnto.eq_def] at h
    simp [hhigh, hlow] at h
  | case6 read unit units hhigh hlow ih =>
    rw [Bool.not_eq_true] at hhigh hlow
    rw [charsOnto.eq_def] at h
    simp only [hhigh, hlow, Bool.false_eq_true, if_false] at h
    obtain ⟨more, rfl, rfl⟩ := ih h
    refine ⟨.ofNat unit.toNat :: more, by simp, ?_⟩
    rw [List.flatMap_cons, charUnits_ofNat hhigh hlow]
    rfl

/-- A text and its units determine each other. -/
theorem text?_eq_some_iff : text? units = some text ↔ units = Utf16.units text := by
  constructor
  · intro h
    obtain ⟨chars, hchars, rfl⟩ := Option.map_eq_some_iff.1 h
    obtain ⟨more, rfl, hunits⟩ := exists_of_charsOnto hchars
    rw [hunits, Utf16.units, String.toList_ofList]
  · rintro rfl
    exact text?_units text

theorem forall_ne_zero_iff : (∀ unit ∈ Utf16.units text, unit ≠ 0) ↔ '\x00' ∉ text.toList := by
  refine ⟨fun h hnul => ?_, ne_zero_of_mem_units⟩
  exact h 0 (List.mem_flatMap.2 ⟨'\x00', hnul, List.mem_singleton_self 0⟩) rfl

/-! ### Units of no text -/

/-- Between the units before and after it, a surrogate has no partner. -/
def Alone (before : List UInt16) (unit : UInt16) (after : List UInt16) : Prop :=
  isHigh unit = true ∧ (∀ low ∈ after.head?, isLow low = false) ∨
    isLow unit = true ∧ ∀ high ∈ before.getLast?, isHigh high = false

/-- Some unit is a surrogate without its partner. -/
def Unpaired (units : List UInt16) : Prop :=
  ∃ before unit after, units = before ++ unit :: after ∧ Alone before unit after

theorem alone_cons_iff (h : isHigh first = false) :
    Alone (first :: before) unit after ↔ Alone before unit after := by
  unfold Alone
  rw [List.getLast?_cons]
  cases before.getLast? with
  | none => simp [h]
  | some last => simp

theorem alone_cons_cons_iff : Alone (first :: second :: before) unit after ↔
    Alone (second :: before) unit after := by
  rw [Alone, List.getLast?_cons_cons]
  rfl

theorem unpaired_cons_iff (hhigh : isHigh unit = false) (hlow : isLow unit = false) :
    Unpaired (unit :: units) ↔ Unpaired units := by
  constructor
  · rintro ⟨before, other, after, h, halone⟩
    cases before with
    | nil =>
      cases h
      simp [Alone, hhigh, hlow] at halone
    | cons first before =>
      cases h
      exact ⟨before, other, after, rfl, (alone_cons_iff hhigh).1 halone⟩
  · rintro ⟨before, other, after, rfl, halone⟩
    exact ⟨unit :: before, other, after, rfl, (alone_cons_iff hhigh).2 halone⟩

theorem unpaired_pair_iff (hhigh : isHigh high = true) (hlow : isLow low = true) :
    Unpaired (high :: low :: units) ↔ Unpaired units := by
  have hlow_high : isHigh low = false := by
    rw [← Bool.not_eq_true]
    intro h
    rw [isLow_of_isHigh h] at hlow
    cases hlow
  constructor
  · rintro ⟨before, other, after, h, halone⟩
    match before, h with
    | [], h =>
      cases h
      simp [Alone, hhigh, hlow, isLow_of_isHigh hhigh] at halone
    | [_], h =>
      cases h
      simp [Alone, hhigh, hlow_high] at halone
    | _ :: _ :: before, h =>
      cases h
      exact ⟨before, other, after, rfl, (alone_cons_iff hlow_high).1 (alone_cons_cons_iff.1 halone)⟩
  · rintro ⟨before, other, after, rfl, halone⟩
    exact ⟨high :: low :: before, other, after, rfl,
      alone_cons_cons_iff.2 ((alone_cons_iff hlow_high).2 halone)⟩

theorem charsOnto_eq_none_iff {read : List Char} :
    charsOnto read units = none ↔ Unpaired units := by
  induction read, units using charsOnto.induct with
  | case1 read => simp [charsOnto, Unpaired]
  | case2 read high hhigh low units hlow ih =>
    rw [unpaired_pair_iff hhigh hlow, ← ih]
    simp only [charsOnto, hhigh, hlow, if_true]
  | case3 read high hhigh low units hlow =>
    rw [Bool.not_eq_true] at hlow
    refine iff_of_true (by simp [charsOnto, hhigh, hlow]) ⟨[], high, low :: units, rfl,
      .inl ⟨hhigh, ?_⟩⟩
    simpa using hlow
  | case4 read high hhigh =>
    exact iff_of_true (by simp [charsOnto, hhigh]) ⟨[], high, [], rfl, .inl ⟨hhigh, by simp⟩⟩
  | case5 read unit units hhigh hlow =>
    refine iff_of_true ?_ ⟨[], unit, units, rfl, .inr ⟨hlow, by simp⟩⟩
    rw [charsOnto.eq_def]
    simp [hhigh, hlow]
  | case6 read unit units hhigh hlow ih =>
    rw [Bool.not_eq_true] at hhigh hlow
    rw [unpaired_cons_iff hhigh hlow, ← ih, charsOnto.eq_def]
    simp only [hhigh, hlow, Bool.false_eq_true, if_false]

/-- Units are those of no text exactly if a surrogate among them lacks its partner. -/
theorem text?_eq_none_iff : text? units = none ↔ Unpaired units := by
  rw [text?, Option.map_eq_none_iff, charsOnto_eq_none_iff]

end OrpcWire.Utf16
