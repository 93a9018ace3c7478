import OrpcWire.Proofs.Binding.DualStringArray

/-!
# Resolver address lists that are passed on

A list that has been received holds bindings that can be written, but it may need more units to be
written than it had: a section without bindings is always written as two units, and string bindings
may have arrived without a zero unit behind them. Main statement: it can be sent on exactly if its
units can still be counted in a word, as they always can if it arrived with no more than 65532, and
it is then the same list again (`DualStringArray.encode_received`). The largest lists may not fit
(`DualStringArray.encode_received_tooLong`).
-/

namespace OrpcWire.DualStringArray

variable {order : ByteOrder} {cursor next : Cursor} {list : DualStringArray}

/-! ### Sizes -/

theorem length_flatMap_wireUnits {α : Type} {units : α → List UInt16} {count : α → Nat}
    (hcount : ∀ a, (units a).length = count a) (bindings : List α) :
    (bindings.flatMap units).length = bindings.foldr (count · + ·) 0 := by
  have h : (closedUnits units bindings).length = _ := length_closedUnits hcount
  rw [closedUnits, List.length_append, List.length_singleton] at h
  omega

theorem stringUnits_le {units : List UInt16} (h : StringSection units list.stringBindings) :
    list.stringUnits ≤ max 2 (units.length + 1) := by
  obtain ⟨-, rest, hunits, -⟩ := h
  have hlength := congrArg List.length hunits
  rw [List.length_append, length_flatMap_wireUnits StringBinding.length_wireUnits] at hlength
  rw [stringUnits]
  split <;> omega

theorem securityUnits_le {units : List UInt16} (h : SecuritySection units list.securityBindings) :
    list.securityUnits ≤ max 2 units.length := by
  rw [securityUnits]
  rcases h with ⟨-, hbindings⟩ | ⟨-, ignored, hunits⟩
  · rw [hbindings, List.isEmpty_nil, if_pos rfl]
    exact Nat.le_max_left _ _
  · have hlength := congrArg List.length hunits
    rw [List.length_append, length_flatMap_wireUnits SecurityBinding.length_wireUnits,
      List.length_cons] at hlength
    split <;> omega

theorem numEntries_le {units : List UInt16} {offset : Nat} (hoffset : offset ≤ units.length)
    (hstrings : StringSection (units.take offset) list.stringBindings)
    (hsecurity : SecuritySection (units.drop offset) list.securityBindings) :
    list.numEntries ≤ max 4 (units.length + 3) := by
  have h1 := stringUnits_le hstrings
  have h2 := securityUnits_le hsecurity
  rw [List.length_take_of_le hoffset] at h1
  rw [List.length_drop] at h2
  rw [numEntries]
  omega

theorem numEntries_le_of_read (h : read.run order cursor = .ok (list, next)) :
    list.numEntries ≤ 65538 := by
  obtain ⟨entries, offset, units, hle, hunits, -, hstrings, hsecurity⟩ := run_read_iff_sections.1 h
  have hnumber :=
    numEntries_le (by rw [hunits]; exact UInt16.le_iff_toNat_le.1 hle) hstrings hsecurity
  have hentries := entries.toNat_lt
  omega

/-! ### Sending on -/

theorem encodable_of_read (h : read.run order cursor = .ok (list, next))
    (hentries : list.numEntries ≤ 65535) : list.Encodable := by
  obtain ⟨_, _, _, _, _, _, ⟨hstrings, -⟩, hsecurity⟩ := run_read_iff_sections.1 h
  refine ⟨hstrings, ?_, hentries⟩
  rcases hsecurity with ⟨-, hbindings⟩ | ⟨hall, -⟩
  · simp [hbindings]
  · exact hall

theorem encode_of_tooLong (h : 65535 < list.numEntries) :
    list.encode = .error (.stringBinding .listTooLong) := by
  rw [encode, if_neg (Nat.not_le_of_lt h)]

/-- A list that has been received can be sent on exactly if its units, as it is written, can be
counted in a word, and is refused as too long otherwise. They can if it arrived with no more than
65532 units, and are never more than three more than it arrived with, or four if it arrived with
none. Wherever and in whatever byte order it is sent on, it is received again as the same list, and
what follows it is left. -/
theorem encode_received (h : read.run order cursor = .ok (list, next)) :
    ((∃ layout, list.encode = .ok layout) ↔ list.numEntries ≤ 65535) ∧
    (65535 < list.numEntries → list.encode = .error (.stringBinding .listTooLong)) ∧
    (∃ entries : UInt16,
      next.position = cursor.position + padding 2 cursor.position + (4 + 2 * entries.toNat) ∧
      list.numEntries ≤ max 4 (entries.toNat + 3) ∧
      (entries.toNat ≤ 65532 → ∃ layout, list.encode = .ok layout)) ∧
    ∀ layout, list.encode = .ok layout → ∀ order' position trailing,
      read.run order' ⟨position, layout.render order' position ++ trailing⟩ =
        .ok (list, ⟨position + (layout.render order' position).length, trailing⟩) := by
  have hencode : list.numEntries ≤ 65535 → ∃ layout, list.encode = .ok layout := fun hentries =>
    ⟨_, (encode_eq_ok_iff list _).2 ⟨encodable_of_read h hentries, rfl⟩⟩
  refine ⟨⟨?_, hencode⟩, encode_of_tooLong, ?_, fun layout hlayout order' position trailing => ?_⟩
  · rintro ⟨layout, hlayout⟩
    exact ((encode_eq_ok_iff list layout).1 hlayout).1.entries
  · obtain ⟨entries, offset, units, hle, hunits, hbetween, hstrings, hsecurity⟩ :=
      run_read_iff_sections.1 h
    obtain ⟨_, -, -, hposition⟩ := Layout.between_units_behind_padding_iff.1 hbetween
    have hnumber :=
      numEntries_le (by rw [hunits]; exact UInt16.le_iff_toNat_le.1 hle) hstrings hsecurity
    rw [hunits] at hnumber
    rw [List.length_cons, hunits] at hposition
    exact ⟨entries, by omega, hnumber, fun hfew => hencode (by omega)⟩
  · obtain ⟨hencodable, rfl⟩ := (encode_eq_ok_iff list layout).1 hlayout
    exact read_finds hencodable order' _ _ (Layout.between_render order' position _ trailing)

/-- A string binding up to the end of its section and no security units at all, which takes three
units more to write. -/
theorem encode_received_unclosed :
    let list : DualStringArray := ⟨[⟨Tower.tcp, "a"⟩], []⟩
    read.run .big ⟨5, 0xEE :: Layout.unitOctets .big [3, 3, 7, 0x61, 0]⟩ = .ok (list, ⟨16, []⟩) ∧
      ∃ layout, list.encode = .ok layout ∧
        read.run .little ⟨0, layout.render .little 0 ++ [0xFF]⟩ =
          .ok (list, ⟨0 + (layout.render .little 0).length, [0xFF]⟩) := by
  intro list
  have hread : read.run .big ⟨5, 0xEE :: Layout.unitOctets .big [3, 3, 7, 0x61, 0]⟩ =
      .ok (list, ⟨16, []⟩) := by
    refine run_read_iff_sections.2 ⟨3, 3, [7, 0x61, 0], by decide, rfl, ?_, ?_, .inl ⟨rfl, rfl⟩⟩
    · exact Layout.between_units_behind_padding_iff.2 ⟨[0xEE], rfl, rfl, rfl⟩
    · exact ⟨by simp [list, StringBinding.Encodable, Tower.tcp], [], rfl, .inl rfl⟩
  obtain ⟨hiff, -, -, hagain⟩ := encode_received hread
  obtain ⟨layout, hlayout⟩ := hiff.2 (by decide)
  exact ⟨hread, layout, hlayout, hagain layout hlayout .little 0 [0xFF]⟩

/-! ### Lists that are too long to be sent on -/

theorem run_read_unclosed (order : ByteOrder) {binding : StringBinding} (h : binding.Encodable)
    {entries : UInt16} (hentries : entries.toNat = binding.units) :
    read.run order ⟨0, Layout.unitOctets order (entries :: entries :: binding.wireUnits)⟩ =
      .ok (⟨[binding], []⟩, ⟨4 + 2 * binding.units, []⟩) := by
  have hlength := binding.length_wireUnits
  refine run_read_iff_sections.2 ⟨entries, entries, binding.wireUnits, UInt16.le_refl _, ?_, ?_, ?_,
    .inl ⟨?_, rfl⟩⟩
  · rw [hentries, hlength]
  · have hbetween :=
      Layout.between_unitOctets order (entries :: entries :: binding.wireUnits) (Nat.zero_mod 2) []
    have hposition : 0 + 2 * (entries :: entries :: binding.wireUnits).length =
        4 + 2 * binding.units := by
      rw [List.length_cons, List.length_cons, hlength]
      omega
    rwa [List.append_nil, hposition] at hbetween
  · rw [hentries, List.take_of_length_le (Nat.le_of_eq hlength)]
    exact ⟨by simpa using h, [], by simp, .inl rfl⟩
  · rw [hentries, List.drop_of_length_le (Nat.le_of_eq hlength)]

/-- A binding whose address is one letter over and over. -/
def repeated (n : Nat) : StringBinding := ⟨Tower.tcp, String.ofList (List.replicate n 'a')⟩

theorem encodable_repeated (n : Nat) : (repeated n).Encodable := by
  refine ⟨show Tower.tcp ≠ 0 by decide, ?_⟩
  rw [repeated, String.toList_ofList, List.mem_replicate]
  simp

theorem wireUnits_repeated (n : Nat) :
    (repeated n).wireUnits = 7 :: (List.replicate n 0x61 ++ [0]) := by
  have hunit : Utf16.charUnits 'a' = [0x61] := by decide
  rw [repeated, StringBinding.wireUnits, Reader.terminated, Utf16.units, String.toList_ofList,
    List.flatMap_replicate, hunit, List.flatten_replicate_singleton]
  rfl

theorem units_repeated (n : Nat) : (repeated n).units = n + 2 := by
  rw [← StringBinding.length_wireUnits, wireUnits_repeated, List.length_cons, List.length_append,
    List.length_replicate, List.length_singleton]

theorem numEntries_repeated (n : Nat) : numEntries ⟨[repeated n], []⟩ = n + 5 := by
  rw [numEntries, stringUnits, securityUnits, List.isEmpty_cons, List.isEmpty_nil,
    if_neg Bool.false_ne_true, if_pos rfl, List.foldr_cons, List.foldr_nil, units_repeated]

/-- A list of one binding that fills 65533 units is received but has no written form, since its
65536 units cannot be counted in a word. -/
theorem encode_received_tooLong :
    let list : DualStringArray := ⟨[⟨Tower.tcp, String.ofList (List.replicate 65531 'a')⟩], []⟩
    let units : List UInt16 := 65533 :: 65533 :: 7 :: (List.replicate 65531 0x61 ++ [0])
    read.run .little ⟨0, Layout.unitOctets .little units⟩ = .ok (list, ⟨131070, []⟩) ∧
      list.encode = .error (.stringBinding .listTooLong) := by
  have hunits : (repeated 65531).units = 65533 := units_repeated 65531
  have hword : (65533 : UInt16).toNat = (repeated 65531).units := hunits.symm
  have hread := run_read_unclosed .little (encodable_repeated 65531) hword
  rw [wireUnits_repeated, hunits] at hread
  have hentries : 65535 < numEntries ⟨[repeated 65531], []⟩ := by
    rw [numEntries_repeated]
    decide
  exact ⟨hread, encode_of_tooLong hentries⟩

end OrpcWire.DualStringArray
