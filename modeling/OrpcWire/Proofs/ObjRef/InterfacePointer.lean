import OrpcWire.ObjRef.InterfacePointer
import OrpcWire.Proofs.Binding.DualStringArray
import OrpcWire.Proofs.Wire.IdSupply

/-!
# Interface pointers under marshal flags

A pointer can be written if its resolver addresses can be, or if the flags have the null word
written in its place (`InterfacePointer.encode_eq_ok_iff`). Under the same flags it is read back
with the interface that the flags select (`InterfacePointer.read_finds`). A null word is found to be
one unless the flags say that an object reference starts right there; then its octets are no
signature (`InterfacePointer.run_read_null_bare`).
-/

namespace OrpcWire

/-! ### Standard references -/

theorem Oxid.read_exact : Oxid.read.Exact Oxid.layout :=
  (Reader.block_exact 8).map Oxid.mk Oxid.octets (fun _ => rfl) (fun _ => rfl)

theorem Oid.read_exact : Oid.read.Exact Oid.layout :=
  (Reader.block_exact 8).map Oid.mk Oid.octets (fun _ => rfl) (fun _ => rfl)

theorem Ipid.read_exact : Ipid.read.Exact Ipid.layout :=
  Reader.guid_exact.map Ipid.mk Ipid.guid (fun _ => rfl) (fun _ => rfl)

theorem StdObjRef.read_exact : StdObjRef.read.Exact StdObjRef.layout := by
  intro order cursor std next
  have hlayout : std.layout = [.u32 std.flags] ++ ([.u32 std.publicRefs.toUInt32] ++
      (std.oxid.layout ++ (std.oid.layout ++ std.ipid.layout))) := by
    rw [layout, List.append_assoc]
    rfl
  unfold read
  simp only [hlayout, Layout.between_append, Reader.u32_exact.run_bind_eq_ok,
    Reader.i32_exact.run_bind_eq_ok, Oxid.read_exact.run_bind_eq_ok, Oid.read_exact.run_bind_eq_ok,
    Ipid.read_exact.run_bind_eq_ok]
  constructor
  · rintro ⟨flags, first, h1, publicRefs, second, h2, oxid, third, h3, oid, fourth, h4, ipid,
      last, h5, hpure⟩
    cases hpure
    exact ⟨first, h1, second, h2, third, h3, fourth, h4, h5⟩
  · rintro ⟨first, h1, second, h2, third, h3, fourth, h4, h5⟩
    exact ⟨_, first, h1, _, second, h2, _, third, h3, _, fourth, h4, _, next, h5, rfl⟩

namespace InterfacePointer

variable {pointer : InterfacePointer} {flags : UInt32} {ids later : IdSupply} {layout : Layout}

/-! ### Object references -/

/-- The object reference as it is written. -/
def objRefLayout (pointer : InterfacePointer) (flags : UInt32) : Layout :=
  .raw objRefSignature.octets :: .u32 ObjRefKind.standard.word ::
    ((pointer.writtenIid flags).layout ++ pointer.std.layout ++ pointer.resolver.wireUnits.map .u16)

/-- The pointer that a receiver has. -/
def received (pointer : InterfacePointer) (flags : UInt32) : InterfacePointer :=
  make (pointer.writtenIid flags) pointer.std pointer.resolver

theorem encodeObjRef_eq_ok_iff : pointer.encodeObjRef flags = .ok layout ↔
    pointer.resolver.Encodable ∧ layout = pointer.objRefLayout flags := by
  unfold encodeObjRef objRefLayout
  rw [bind_eq_ok_iff]
  constructor
  · rintro ⟨resolver, hresolver, h⟩
    obtain ⟨hencodable, rfl⟩ := (DualStringArray.encode_eq_ok_iff _ _).1 hresolver
    cases h
    exact ⟨hencodable, rfl⟩
  · rintro ⟨hencodable, rfl⟩
    exact ⟨_, (DualStringArray.encode_eq_ok_iff _ _).2 ⟨hencodable, rfl⟩, rfl⟩

theorem readObjRef_finds (h : pointer.resolver.Encodable) {length : Option UInt32}
    (hlength : length.getD (lengthWith pointer.resolver) = lengthWith pointer.resolver) :
    (readObjRef length).Finds (pointer.received flags) (pointer.objRefLayout flags) := by
  have hlayout : pointer.objRefLayout flags = [.raw objRefSignature.octets] ++
      ([.u32 ObjRefKind.standard.word] ++ ((pointer.writtenIid flags).layout ++
        (pointer.std.layout ++ (pointer.resolver.wireUnits.map .u16 ++ [])))) := by
    rw [objRefLayout, List.append_nil, List.append_assoc]
    rfl
  rw [hlayout]
  unfold readObjRef
  refine ((Reader.block_exact 4).finds objRefSignature).lift.bind ?_
  rw [if_neg (by simp)]
  refine (Reader.u32_exact.finds ObjRefKind.standard.word).lift.bind ?_
  rw [if_neg (by decide)]
  refine (Reader.guid_exact.finds (pointer.writtenIid flags)).lift.bind ?_
  refine (StdObjRef.read_exact.finds pointer.std).lift.bind ?_
  refine (DualStringArray.read_finds h).bind ?_
  rw [hlength]
  exact Reader.finds_pure _

/-! ### Pointers -/

/-- The pointer as it is written where the flags do not have it replaced by a null word, and the ids
left. -/
def written (pointer : InterfacePointer) (flags : UInt32) (ids : IdSupply) : Layout × IdSupply :=
  if MarshalFlag.isSet flags MarshalFlag.bare then
    (pointer.objRefLayout flags, ids)
  else
    (.u32 ids.next :: .u32 (lengthWith pointer.resolver) ::
      .u32 (lengthWith pointer.resolver) :: pointer.objRefLayout flags, ids.advance)

theorem encode_eq_ok_iff (hnull : MarshalFlag.isSet flags MarshalFlag.nullForVariant = false)
    {sent : Layout × IdSupply} :
    pointer.encode flags ids = .ok sent ↔
      pointer.resolver.Encodable ∧ sent = pointer.written flags ids := by
  unfold encode written
  rw [if_neg (by rw [hnull]; exact Bool.false_ne_true), bind_eq_ok_iff]
  constructor
  · rintro ⟨objRef, hobjRef, h⟩
    obtain ⟨hencodable, rfl⟩ := encodeObjRef_eq_ok_iff.1 hobjRef
    refine ⟨hencodable, ?_⟩
    split at h <;> cases h
    · rw [if_pos ‹_›]
    · rw [if_neg ‹_›]
  · rintro ⟨hencodable, rfl⟩
    refine ⟨_, encodeObjRef_eq_ok_iff.2 ⟨hencodable, rfl⟩, ?_⟩
    split <;> rfl

/-- Under the flags it was written under, a pointer is read back with the interface that they
select. -/
theorem read_finds (h : pointer.resolver.Encodable) (hids : ids.next ≠ nullId) :
    (read flags).Finds (some (pointer.received flags)) (pointer.written flags ids).1 := by
  unfold read written
  by_cases hbare : MarshalFlag.isSet flags MarshalFlag.bare = true
  · rw [if_pos hbare, if_pos hbare]
    exact (readObjRef_finds h rfl).map some
  · rw [if_neg hbare, if_neg hbare]
    have hid : Reader.referentId.Finds (some ids.next) [.u32 ids.next] :=
      Reader.referentId_exact.finds (by simpa using hids)
    have hlength := (Reader.u32_exact.finds (lengthWith pointer.resolver)).lift
    exact hid.lift.bind (hlength.bind (hlength.bind ((readObjRef_finds h rfl).map some)))

/-! ### Null words -/

theorem read_null (hbare : MarshalFlag.isSet flags MarshalFlag.bare = false) :
    (read flags).Finds none [.u32 nullId] := by
  unfold read
  rw [if_neg (by rw [hbare]; exact Bool.false_ne_true), ← List.append_nil [Field.u32 nullId]]
  have hid : Reader.referentId.Finds none [.u32 nullId] := Reader.referentId_exact.finds (by simp)
  exact hid.lift.bind (Reader.finds_pure none)

theorem render_null (order : ByteOrder) (position : Nat) :
    Layout.render order position [.u32 nullId] = List.replicate (padding 4 position + 4) 0 := by
  have hword : order.octets 4 nullId.toNat = List.replicate 4 0 := by
    cases order <;> rfl
  rw [Layout.render_word_cons, Layout.render_nil, List.append_nil, hword]
  exact List.replicate_append_replicate

/-- Flags that announce an object reference make a null word unreadable. -/
theorem run_read_null_bare (hbare : MarshalFlag.isSet flags MarshalFlag.bare = true)
    (order : ByteOrder) (position : Nat) (trailing : List UInt8) :
    (read flags).run order ⟨position, Layout.render order position [.u32 nullId] ++ trailing⟩ =
      .error (.objRef (.signature objRefSignature (Block.zero 4))) := by
  have hrest : Layout.render order position [.u32 nullId] ++ trailing =
      List.replicate 4 0 ++ (List.replicate (padding 4 position) 0 ++ trailing) := by
    rw [render_null, Nat.add_comm, ← List.replicate_append_replicate, List.append_assoc]
  have hzeros : (Reader.block 4).run order ⟨position,
      List.replicate 4 0 ++ (List.replicate (padding 4 position) 0 ++ trailing)⟩ =
      .ok (Block.zero 4, ⟨position + 4, List.replicate (padding 4 position) 0 ++ trailing⟩) := rfl
  have hsignature : Block.zero 4 ≠ objRefSignature := by decide
  unfold read
  rw [if_pos hbare, hrest, ← bind_pure_comp, Reader.run_bind]
  unfold readObjRef
  rw [Reader.run_bind, Reader.run_lift hzeros]
  simp only
  rw [if_pos hsignature]
  rfl

/-! ### Every word of flags -/

theorem toNat_lengthWith_of_le {resolver : DualStringArray} (h : resolver.numEntries ≤ 65538) :
    (lengthWith resolver).toNat = 64 + resolver.length := by
  have hlength : resolver.length = 4 + 2 * resolver.numEntries := rfl
  exact UInt32.toNat_ofNat_of_lt' (show 64 + resolver.length < 2 ^ 32 by omega)

theorem toNat_lengthWith {resolver : DualStringArray} (h : resolver.Encodable) :
    (lengthWith resolver).toNat = 64 + resolver.length :=
  toNat_lengthWith_of_le (Nat.le_trans h.entries (by decide))

theorem encode_nothing {sent : Option InterfacePointer}
    (h : sent = none ∨ MarshalFlag.isSet flags MarshalFlag.nullForVariant = true) :
    encodeOptional sent flags ids = .ok ([.u32 nullId], ids) := by
  cases sent with
  | none => rfl
  | some pointer =>
    have hnull : MarshalFlag.isSet flags MarshalFlag.nullForVariant = true := by simpa using h
    exact if_pos hnull

/-- What becomes of a pointer under any word of flags. It can be written if the flags replace it by
a null word or its resolver addresses can be written. If it is written itself, it is read back to
its last octet as a pointer to the same object with the same resolver addresses, with the interface
that the flags select and the length of the parts, whatever length it had. A null word in its place
is read as none, or, where the flags announce an object reference, found not to be one. -/
theorem read_encoded (pointer : InterfacePointer) (flags : UInt32) (order : ByteOrder)
    (position : Nat) (ids : IdSupply) (trailing : List UInt8) (hids : ids.Reached) :
    ((∃ sent, pointer.encode flags ids = .ok sent) ↔
      MarshalFlag.isSet flags MarshalFlag.nullForVariant = true ∨ pointer.resolver.Encodable) ∧
    (∀ layout later, pointer.encode flags ids = .ok (layout, later) →
      MarshalFlag.isSet flags MarshalFlag.nullForVariant = false →
      ∃ length : UInt32, length.toNat = 64 + pointer.resolver.length ∧
        (read flags).run order ⟨position, layout.render order position ++ trailing⟩ =
          .ok (some ⟨if MarshalFlag.isSet flags MarshalFlag.asIUnknown then Guid.iUnknown
              else if MarshalFlag.isSet flags MarshalFlag.asIDispatch then Guid.iDispatch
              else pointer.iid, pointer.std, pointer.resolver, length⟩,
            ⟨position + (layout.render order position).length, trailing⟩)) ∧
    (∀ sent, sent = none ∨ sent = some pointer ∧
      MarshalFlag.isSet flags MarshalFlag.nullForVariant = true →
        ∃ layout, encodeOptional sent flags ids = .ok (layout, ids) ∧
          (MarshalFlag.isSet flags MarshalFlag.bare = false →
            (read flags).run order ⟨position, layout.render order position ++ trailing⟩ =
              .ok (none, ⟨position + (layout.render order position).length, trailing⟩)) ∧
          (MarshalFlag.isSet flags MarshalFlag.bare = true →
            (read flags).run order ⟨position, layout.render order position ++ trailing⟩ =
              .error (.objRef (.signature objRefSignature (Block.zero 4))))) := by
  refine ⟨?_, ?_, ?_⟩
  · by_cases hnull : MarshalFlag.isSet flags MarshalFlag.nullForVariant = true
    · exact ⟨fun _ => .inl hnull, fun _ => ⟨_, if_pos hnull⟩⟩
    · rw [Bool.not_eq_true] at hnull
      constructor
      · rintro ⟨sent, hsent⟩
        exact .inr ((encode_eq_ok_iff hnull).1 hsent).1
      · intro h
        have hencodable : pointer.resolver.Encodable := h.resolve_left (by simp [hnull])
        exact ⟨_, (encode_eq_ok_iff hnull).2 ⟨hencodable, rfl⟩⟩
  · intro layout later hencode hnull
    obtain ⟨hencodable, hwritten⟩ := (encode_eq_ok_iff hnull).1 hencode
    refine ⟨lengthWith pointer.resolver, toNat_lengthWith hencodable, ?_⟩
    have hread : (read flags).Finds (some (pointer.received flags)) (pointer.written flags ids).1 :=
      read_finds hencodable hids.next_ne_null
    rw [← hwritten] at hread
    exact hread order _ _ (Layout.between_render order position layout trailing)
  · intro sent hsent
    refine ⟨_, encode_nothing (hsent.imp_right And.right), ?_, ?_⟩
    · intro hbare
      exact read_null hbare order _ _ (Layout.between_render order position _ trailing)
    · intro hbare
      exact run_read_null_bare hbare order position trailing

/-- An object reference by itself at an odd position, with `IDispatch` for the interface of the
pointer and a length that is not the one it had. -/
theorem read_encoded_dispatch :
    let std : StdObjRef := .unpinged ⟨Block.zero 8⟩ ⟨Block.zero 8⟩ Ipid.nil (-1)
    let resolver : DualStringArray := ⟨[⟨Tower.tcp, "h"⟩], []⟩
    let pointer : InterfacePointer := ⟨Guid.nil, std, resolver, 1⟩
    let flags : UInt32 := MarshalFlag.bare ||| MarshalFlag.asIDispatch
    IdSupply.fresh.Reached ∧ ∃ layout later, pointer.encode flags .fresh = .ok (layout, later) ∧
      (read flags).run .big ⟨3, layout.render .big 3 ++ [0xFF]⟩ =
        .ok (some ⟨Guid.iDispatch, std, resolver, 80⟩,
          ⟨3 + (layout.render .big 3).length, [0xFF]⟩) := by
  intro std resolver pointer flags
  have hencodable : resolver.Encodable := by
    refine ⟨?_, ?_, ?_⟩
    · simp [resolver, StringBinding.Encodable, Tower.tcp]
    · simp [resolver]
    · unfold resolver
      decide
  have hflags : MarshalFlag.isSet flags MarshalFlag.nullForVariant = false ∧
      MarshalFlag.isSet flags MarshalFlag.asIUnknown = false ∧
        MarshalFlag.isSet flags MarshalFlag.asIDispatch = true := by
    unfold flags
    decide
  obtain ⟨hnull, hunknown, hdispatch⟩ := hflags
  obtain ⟨hwritten, hread, _⟩ :=
    read_encoded pointer flags .big 3 .fresh [0xFF] IdSupply.reached_fresh
  obtain ⟨⟨layout, later⟩, hencode⟩ := hwritten.2 (.inr hencodable)
  obtain ⟨length, hlength, hrun⟩ := hread layout later hencode hnull
  have h80 : length = 80 := UInt32.toNat_inj.1 hlength
  rw [h80, hunknown, if_neg Bool.false_ne_true, if_pos hdispatch] at hrun
  exact ⟨IdSupply.reached_fresh, layout, later, hencode, hrun⟩

end InterfacePointer

end OrpcWire
