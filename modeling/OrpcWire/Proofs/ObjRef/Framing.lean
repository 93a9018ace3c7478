import OrpcWire.Proofs.ObjRef.InterfacePointer

/-!
# Lengths on the wire

Receivers skip and cut by the numbers that a sender puts in front of things. The numbers come from
formulas and the octets from the writers, and the two agree (`InterfacePointer.encode_framed`). The
formulas need not know where they are applied, because there is padding only in front: units at an
even position and the parts of an object reference at a multiple of four stand close together.
-/

namespace OrpcWire

/-! ### Resolver address lists -/

namespace DualStringArray

/-- The octets are as many as the list says, and the words of their header say how many units there
are and at which of them the security section starts. -/
structure Framed (list : DualStringArray) (order : ByteOrder) (position : Nat)
    (octets : List UInt8) : Prop where
  octets_length : octets.length = list.length
  list_length : list.length = 4 + 2 * list.numEntries
  entries : order.value (octets.take 2) = list.numEntries
  offset : order.value ((octets.drop 2).take 2) = list.securityOffset
  security : ∃ first others, encodeSecurity list.securityBindings = .ok (.u16 first :: others) ∧
    order.value ((octets.drop (4 + 2 * list.securityOffset)).take 2) = first.toNat ∧
    octets.drop (4 + 2 * list.securityOffset) =
      Layout.render order (position + 4 + 2 * list.securityOffset) (.u16 first :: others)

variable {list : DualStringArray} {position : Nat}

theorem exists_securityUnits (list : DualStringArray) :
    ∃ first others, sectionUnits SecurityBinding.wireUnits list.securityBindings =
      first :: others := by
  cases hbindings : list.securityBindings with
  | nil => exact ⟨0, [0], rfl⟩
  | cons binding bindings => exact ⟨binding.authnService, _, rfl⟩

theorem drop_wireUnits (list : DualStringArray) : list.wireUnits.drop (2 + list.securityOffset) =
    sectionUnits SecurityBinding.wireUnits list.securityBindings := by
  rw [Nat.add_comm, wireUnits, List.drop_succ_cons, List.drop_succ_cons, arrayUnits,
    List.drop_left' list.length_stringSection]

theorem framed_render (h : list.Encodable) (order : ByteOrder) (heven : position % 2 = 0) :
    list.Framed order position (Layout.render order position (list.wireUnits.map .u16)) := by
  obtain ⟨hentries, hoffset⟩ := h.toNat_header
  obtain ⟨first, others, hsecurity⟩ := exists_securityUnits list
  have hdrop : (Layout.unitOctets order list.wireUnits).drop (4 + 2 * list.securityOffset) =
      Layout.unitOctets order (first :: others) := by
    rw [show 4 + 2 * list.securityOffset = 2 * (2 + list.securityOffset) by omega,
      (Layout.take_drop_unitOctets order _ _).2, drop_wireUnits, hsecurity]
  rw [Layout.render_units order _ heven]
  refine ⟨?_, rfl, ?_, ?_, first, others.map .u16, ?_, ?_, ?_⟩
  · rw [Layout.length_unitOctets, length_wireUnits, Nat.mul_add]
    rfl
  · rw [wireUnits, Layout.value_take_unitOctets, hentries]
  · rw [wireUnits, (Layout.take_drop_unitOctets order _ 1).2]
    rw [List.drop_one, List.tail_cons, Layout.value_take_unitOctets, hoffset]
  · rw [← List.map_cons, ← hsecurity]
    exact encodeSecurity_eq_ok_iff.2 ⟨h.security, rfl⟩
  · rw [hdrop, Layout.value_take_unitOctets]
  · rw [hdrop, ← List.map_cons, Layout.render_units order _ (by omega)]

end DualStringArray

/-! ### Parts at a multiple of four -/

theorem Guid.endFrom_layout (guid : Guid) {position : Nat} (h : position % 4 = 0) :
    Layout.endFrom position guid.layout = position + 16 := by
  have hword : padding 4 position = 0 := padding_eq_zero h
  have hsecond : padding 2 (position + 4) = 0 := padding_eq_zero (by omega)
  have hthird : padding 2 (position + 4 + 2) = 0 := padding_eq_zero (by omega)
  simp only [layout, Layout.endFrom, Field.boundary, Field.size, hword, hsecond, hthird,
    padding_one, Nat.add_zero, Block.length_eq]

theorem StdObjRef.endFrom_layout (std : StdObjRef) {position : Nat} (h : position % 4 = 0) :
    Layout.endFrom position std.layout = position + size := by
  have hword : padding 4 position = 0 := padding_eq_zero h
  have hsecond : padding 4 (position + 4) = 0 := padding_eq_zero (by omega)
  have hlayout : std.layout = [.u32 std.flags, .u32 std.publicRefs.toUInt32,
      .raw std.oxid.octets.octets, .raw std.oid.octets.octets] ++ std.ipid.guid.layout := rfl
  rw [hlayout, Layout.endFrom_append]
  simp only [Layout.endFrom, Field.boundary, Field.size, hword, hsecond, padding_one, Nat.add_zero,
    Block.length_eq]
  rw [Guid.endFrom_layout _ (by omega), size]

/-! ### Interface pointers -/

namespace InterfacePointer

variable {pointer : InterfacePointer} {flags : UInt32} {position : Nat}

theorem endFrom_objRefLayout (pointer : InterfacePointer) (flags : UInt32) (h : position % 4 = 0) :
    Layout.endFrom position (pointer.objRefLayout flags) =
      position + (64 + pointer.resolver.length) := by
  have hlayout : pointer.objRefLayout flags = [.raw objRefSignature.octets,
      .u32 ObjRefKind.standard.word] ++ ((pointer.writtenIid flags).layout ++
      (pointer.std.layout ++ pointer.resolver.wireUnits.map .u16)) := by
    rw [objRefLayout, List.append_assoc]
    rfl
  have hkind : padding 4 (position + 4) = 0 := padding_eq_zero (by omega)
  have hlead : Layout.endFrom position [.raw objRefSignature.octets,
      .u32 ObjRefKind.standard.word] = position + 8 := by
    simp only [Layout.endFrom, Field.boundary, Field.size, padding_one, Nat.add_zero,
      Block.length_eq, hkind]
  have hlength : pointer.resolver.length = 4 + 2 * pointer.resolver.numEntries := rfl
  -- 64 are the 8 octets in front, 16 of the interface and 40 of the standard reference.
  rw [hlayout, Layout.endFrom_append, Layout.endFrom_append, Layout.endFrom_append, hlead,
    Guid.endFrom_layout _ (by omega), StdObjRef.endFrom_layout _ (by omega), StdObjRef.size,
    Layout.endFrom_units _ (by omega), DualStringArray.length_wireUnits]
  omega

/-- The ways to make a pointer instead of receiving one. -/
inductive Built : InterfacePointer → Prop
  | make (iid : Guid) (std : StdObjRef) (resolver : DualStringArray) : Built (make iid std resolver)
  | exportedBy (iid : Guid) (hosts : List String) (port : UInt16) (std : StdObjRef) :
      Built (exportedBy iid hosts port std)
  | viewedAs (iid : Guid) (other : InterfacePointer) : Built (viewedAs iid other)

theorem Built.objRefLength_eq (h : pointer.Built) :
    pointer.objRefLength = lengthWith pointer.resolver := by
  cases h <;> rfl

theorem render_written (pointer : InterfacePointer) (ids : IdSupply) (order : ByteOrder)
    (position : Nat) (hbare : MarshalFlag.isSet flags MarshalFlag.bare = false) :
    ∃ objRef, objRef.length = 64 + pointer.resolver.length ∧
      Layout.render order position (pointer.written flags ids).1 =
        List.replicate (padding 4 position) 0 ++ (order.octets 4 ids.next.toNat ++
          (order.octets 4 (lengthWith pointer.resolver).toNat ++
            (order.octets 4 (lengthWith pointer.resolver).toNat ++ objRef))) := by
  -- The id starts at a multiple of four, so nothing behind it has padding in front.
  have haligned : (position + padding 4 position) % 4 = 0 := add_padding_mod 4 position (by decide)
  have hend :=
    Layout.add_length_render order (position + padding 4 position + 4 + 4 + 4)
      (pointer.objRefLayout flags)
  rw [endFrom_objRefLayout _ _ (by omega)] at hend
  refine ⟨_, Nat.add_left_cancel hend, ?_⟩
  rw [written, if_neg (by rw [hbare]; exact Bool.false_ne_true)]
  dsimp only
  rw [Layout.render_word_cons, Layout.render_aligned_word_cons order (by omega),
    Layout.render_aligned_word_cons order (by omega)]

/-- The numbers that are sent in front of things are the lengths of these things, whatever can be
sent at all. A resolver address list has as many octets as it says and is cut where its security
section begins. An interface pointer may have padding in front of its id; then follow its length,
twice, and an object reference of just that length. A pointer that was not received says that length
itself. -/
theorem encode_framed (order : ByteOrder) (position : Nat) :
    (∀ (list : DualStringArray) (layout : Layout), list.encode = .ok layout → position % 2 = 0 →
      list.Framed order position (layout.render order position)) ∧
    ∀ (pointer : InterfacePointer) (flags : UInt32) (ids later : IdSupply) (layout : Layout),
      MarshalFlag.isSet flags MarshalFlag.bare = false →
      MarshalFlag.isSet flags MarshalFlag.nullForVariant = false →
      pointer.encode flags ids = .ok (layout, later) →
      (∃ id first second objRef : List UInt8,
        layout.render order position =
          List.replicate (padding 4 position) 0 ++ (id ++ (first ++ (second ++ objRef))) ∧
        id.length = 4 ∧ first.length = 4 ∧ second.length = 4 ∧
        order.value first = 64 + pointer.resolver.length ∧
        order.value second = 64 + pointer.resolver.length ∧
        objRef.length = 64 + pointer.resolver.length) ∧
      (pointer.Built → pointer.objRefLength.toNat = 64 + pointer.resolver.length) := by
  refine ⟨?_, ?_⟩
  · intro list layout hencode heven
    obtain ⟨hencodable, rfl⟩ := (DualStringArray.encode_eq_ok_iff list layout).1 hencode
    exact DualStringArray.framed_render hencodable order heven
  · intro pointer flags ids later layout hbare hnull hencode
    obtain ⟨hencodable, hwritten⟩ := (encode_eq_ok_iff hnull).1 hencode
    obtain rfl : layout = (pointer.written flags ids).1 := congrArg Prod.fst hwritten
    obtain ⟨objRef, hlength, hrender⟩ := render_written pointer ids order position hbare
    have hvalue : order.value (order.octets 4 (lengthWith pointer.resolver).toNat) =
        64 + pointer.resolver.length := by
      rw [order.value_octets_of_lt (lengthWith pointer.resolver).toNat_lt,
        toNat_lengthWith hencodable]
    refine ⟨⟨_, _, _, objRef, hrender, ?_, ?_, ?_, hvalue, hvalue, hlength⟩, ?_⟩
    · exact order.length_octets 4 _
    · exact order.length_octets 4 _
    · exact order.length_octets 4 _
    · intro hbuilt
      rw [hbuilt.objRefLength_eq, toNat_lengthWith hencodable]

/-- A pointer with one host behind an odd number of octets: three octets of padding, three words,
and the 94 octets that the pointer says. -/
theorem encode_framed_odd :
    let pointer :=
      exportedBy Guid.nil ["h"] 135 (.unpinged ⟨Block.zero 8⟩ ⟨Block.zero 8⟩ Ipid.nil 5)
    (∃ layout, pointer.resolver.encode = .ok layout ∧
      pointer.resolver.Framed .big 6 (layout.render .big 6)) ∧
    ∃ layout later, pointer.encode MarshalFlag.null .fresh = .ok (layout, later) ∧
      (layout.render .big 1).length = 3 + 12 + 94 ∧ pointer.objRefLength.toNat = 94 := by
  intro pointer
  have hencodable : pointer.resolver.Encodable := by
    refine ⟨List.forall_mem_singleton.2 ⟨by decide, by decide⟩,
      List.forall_mem_singleton.2 ⟨by decide, by decide⟩, ?_⟩
    unfold pointer
    decide
  have hlist : pointer.resolver.encode = .ok (pointer.resolver.wireUnits.map .u16) :=
    (DualStringArray.encode_eq_ok_iff _ _).2 ⟨hencodable, rfl⟩
  have hencode : pointer.encode MarshalFlag.null .fresh =
      .ok (pointer.written MarshalFlag.null .fresh) :=
    (encode_eq_ok_iff rfl).2 ⟨hencodable, rfl⟩
  have h94 : 64 + pointer.resolver.length = 94 := by
    unfold pointer
    decide
  obtain ⟨⟨id, first, second, objRef, hrender, hid, hfirst, hsecond, -, -, hobjRef⟩, hlength⟩ :=
    (encode_framed .big 1).2 pointer MarshalFlag.null .fresh _ _ rfl rfl hencode
  refine ⟨⟨_, hlist, (encode_framed .big 6).1 _ _ hlist rfl⟩, _, _, hencode, ?_, ?_⟩
  · rw [hrender]
    simp only [List.length_append, List.length_replicate, hid, hfirst, hsecond, hobjRef, h94]
    rfl
  · rw [hlength (.exportedBy _ _ _ _), h94]

end InterfacePointer

end OrpcWire
