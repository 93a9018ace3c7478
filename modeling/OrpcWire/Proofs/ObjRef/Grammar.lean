import OrpcWire.Proofs.Binding.Forward
import OrpcWire.Proofs.ObjRef.Fails

/-!
# Which octets are interface pointers

A pointer is read just where the parts of one stand: what is in front of it under the flags,
signature, standard kind, interface, standard reference, and a list of bindings that is accepted
(`InterfacePointer.run_read_eq_some_iff`). Nothing is asked of the lengths received, and the first
is kept. Elsewhere there is a null word, or the reader fails, and `InterfacePointer.read_iff_objRef`
says in which way.
-/

namespace OrpcWire.InterfacePointer

variable {flags : UInt32} {order : ByteOrder} {cursor next middle : Cursor} {length : Option UInt32}
  {pointer : InterfacePointer}

theorem run_readBody_eq_ok_iff : (readBody length).run order cursor = .ok (pointer, next) ↔
    ∃ list, Layout.Between order (pointer.iid.layout ++ pointer.std.layout) cursor list ∧
      DualStringArray.read.run order list = .ok (pointer.resolver, next) ∧
      pointer.objRefLength = length.getD (lengthWith pointer.resolver) := by
  unfold readBody
  simp only [Reader.guid_exact.lift.run_bind_eq_ok, StdObjRef.read_exact.lift.run_bind_eq_ok,
    Layout.between_append]
  constructor
  · rintro ⟨iid, behind, hiid, std, list, hstd, h⟩
    obtain ⟨resolver, last, hresolver, hpure⟩ := Reader.run_bind_eq_ok.1 h
    cases hpure
    exact ⟨list, ⟨behind, hiid, hstd⟩, hresolver, rfl⟩
  · rintro ⟨list, ⟨behind, hiid, hstd⟩, hresolver, hlength⟩
    refine ⟨_, behind, hiid, _, list, hstd, Reader.run_bind_eq_ok.2 ⟨_, next, hresolver, ?_⟩⟩
    rw [← hlength]
    rfl

theorem run_readObjRef_eq_ok_iff : (readObjRef length).run order cursor = .ok (pointer, next) ↔
    ∃ list, Layout.Between order (.raw objRefSignature.octets :: .u32 ObjRefKind.standard.word ::
        (pointer.iid.layout ++ pointer.std.layout)) cursor list ∧
      DualStringArray.read.run order list = .ok (pointer.resolver, next) ∧
      pointer.objRefLength = length.getD (lengthWith pointer.resolver) := by
  have hsplit : ∀ list,
      Layout.Between order (.raw objRefSignature.octets :: .u32 ObjRefKind.standard.word ::
      (pointer.iid.layout ++ pointer.std.layout)) cursor list ↔
      ∃ middle, Layout.Between order [.raw objRefSignature.octets,
        .u32 ObjRefKind.standard.word] cursor middle ∧
        Layout.Between order (pointer.iid.layout ++ pointer.std.layout) middle list := by
    intro list
    rw [← Layout.between_append]
    rfl
  simp only [hsplit]
  constructor
  · intro h
    rcases run_readObjRef_cases length order cursor
      with ⟨error, -, hrun⟩ | ⟨error, hrefused⟩ | ⟨middle, hstandard⟩
    · cases hrun.symm.trans h
    · cases (run_readObjRef_of_refused hrefused).symm.trans h
    · rw [run_readObjRef_of_standard hstandard] at h
      obtain ⟨list, hbody, hresolver⟩ := run_readBody_eq_ok_iff.1 h
      exact ⟨list, ⟨middle, hstandard, hbody⟩, hresolver⟩
  · rintro ⟨list, ⟨middle, hstandard, hbody⟩, hresolver⟩
    rw [run_readObjRef_of_standard hstandard]
    exact run_readBody_eq_ok_iff.2 ⟨list, hbody, hresolver⟩

theorem run_read_eq_some_iff : (read flags).run order cursor = .ok (some pointer, next) ↔
    ∃ length middle, LeadAt flags order cursor length middle ∧
      (readObjRef length).run order middle = .ok (pointer, next) := by
  constructor
  · intro h
    rcases run_read_cases flags order cursor
      with ⟨error, -, hrun⟩ | ⟨hbare, last, hnull⟩ | ⟨length, middle, hlead⟩
    · cases hrun.symm.trans h
    · cases (run_read_of_null hbare hnull).symm.trans h
    · rw [run_read_of_lead hlead] at h
      obtain ⟨found, hfound, hsome⟩ := Reader.run_map_eq_ok_iff.1 h
      cases hsome
      exact ⟨length, middle, hlead, hfound⟩
  · rintro ⟨length, middle, hlead, h⟩
    rw [run_read_of_lead hlead]
    exact Reader.run_map_eq_ok_iff.2 ⟨pointer, h, rfl⟩

theorem run_read_eq_none_iff : (read flags).run order cursor = .ok (none, next) ↔
    MarshalFlag.isSet flags MarshalFlag.bare = false ∧
    Layout.Between order [.u32 nullId] cursor next := by
  refine ⟨fun h => ?_, fun ⟨hbare, hnull⟩ => run_read_of_null hbare hnull⟩
  rcases run_read_cases flags order cursor
    with ⟨error, -, hrun⟩ | ⟨hbare, last, hnull⟩ | ⟨length, middle, hlead⟩
  · cases hrun.symm.trans h
  · cases (run_read_of_null hbare hnull).symm.trans h
    exact ⟨hbare, hnull⟩
  · rw [run_read_of_lead hlead] at h
    obtain ⟨found, -, hsome⟩ := Reader.run_map_eq_ok_iff.1 h
    cases hsome

theorem objRefLength_eq_iff
    (h : DualStringArray.read.run order middle = .ok (pointer.resolver, next)) :
    pointer.objRefLength = length.getD (lengthWith pointer.resolver) ↔
      pointer.objRefLength.toNat = length.elim (64 + pointer.resolver.length) (·.toNat) := by
  rw [← UInt32.toNat_inj]
  cases length with
  | none =>
    rw [Option.getD_none, Option.elim_none,
      toNat_lengthWith_of_le (DualStringArray.numEntries_le_of_read h)]
  | some first => rw [Option.getD_some, Option.elim_some]

/-- What comes of octets that are read as an interface pointer. A null word, unless the flags
announce an object reference, is none. A pointer is read just where its parts stand one behind the
other and its list of bindings is accepted. It has what stands on the wire, and the first of the
lengths received, or, where there are none, that of its parts. What is wrong is found in the order
of the octets: a signature that is not the right one is refused whatever follows it, and behind the
right one a kind that is not the standard one, whatever follows that. All other errors are those of
bindings, octets that are missing included. -/
theorem read_iff_objRef (flags : UInt32) (order : ByteOrder) (cursor : Cursor) :
    (∀ next, (read flags).run order cursor = .ok (none, next) ↔
      MarshalFlag.isSet flags MarshalFlag.bare = false ∧
        Layout.Between order [.u32 0] cursor next) ∧
    (∀ pointer next, (read flags).run order cursor = .ok (some pointer, next) ↔
      ∃ length middle list, LeadAt flags order cursor length middle ∧
        Layout.Between order
          (.raw objRefSignature.octets :: .u32 1 :: (pointer.iid.layout ++ pointer.std.layout))
          middle list ∧
        DualStringArray.read.run order list = .ok (pointer.resolver, next) ∧
        pointer.objRefLength.toNat = length.elim (64 + pointer.resolver.length) (·.toNat)) ∧
    (∀ found : Block 4,
      (read flags).run order cursor = .error (.objRef (.signature objRefSignature found)) ↔
        ∃ length middle next, LeadAt flags order cursor length middle ∧
          Layout.Between order [.raw found.octets] middle next ∧ found ≠ objRefSignature) ∧
    (∀ kind, (read flags).run order cursor = .error (.objRefKind kind) ↔
      ∃ length middle next, LeadAt flags order cursor length middle ∧
        Layout.Between order [.raw objRefSignature.octets, .u32 kind] middle next ∧ kind ≠ 1) ∧
    ∀ error, (read flags).run order cursor = .error error →
      error.OfBindings ∨ (∃ found, error = .objRef (.signature objRefSignature found)) ∨
        ∃ kind, error = .objRefKind kind := by
  refine ⟨fun next => run_read_eq_none_iff, fun pointer next => ?_, fun found => ?_, fun kind => ?_,
    fun error heq => ?_⟩
  · rw [run_read_eq_some_iff]
    constructor
    · rintro ⟨length, middle, hlead, h⟩
      obtain ⟨list, hparts, hresolver, hlength⟩ := run_readObjRef_eq_ok_iff.1 h
      exact ⟨length, middle, list, hlead, hparts, hresolver,
        (objRefLength_eq_iff hresolver).1 hlength⟩
    · rintro ⟨length, middle, list, hlead, hparts, hresolver, hlength⟩
      exact ⟨length, middle, hlead,
        run_readObjRef_eq_ok_iff.2 ⟨list, hparts, hresolver,
          (objRefLength_eq_iff hresolver).2 hlength⟩⟩
  · rw [run_read_eq_error_iff (by rintro ⟨⟩)]
    constructor
    · rintro ⟨length, middle, hlead, hrefused⟩
      cases hrefused with
      | signature hfound hwrong => exact ⟨length, middle, _, hlead, hfound, hwrong⟩
    · rintro ⟨length, middle, next, hlead, hfound, hwrong⟩
      exact ⟨length, middle, hlead, .signature hfound hwrong⟩
  · rw [run_read_eq_error_iff (by rintro ⟨⟩)]
    constructor
    · rintro ⟨length, middle, hlead, hrefused⟩
      cases hrefused with
      | kind hkind hother =>
        obtain ⟨next, hbetween⟩ := hkind
        exact ⟨length, middle, next, hlead, hbetween, hother⟩
    · rintro ⟨length, middle, next, hlead, hbetween, hother⟩
      exact ⟨length, middle, hlead, .kind ⟨next, hbetween⟩ hother⟩
  · by_cases h : error.OfBindings
    · exact .inl h
    · obtain ⟨length, middle, -, hrefused⟩ := (run_read_eq_error_iff h).1 heq
      cases hrefused with
      | signature => exact .inr (.inl ⟨_, rfl⟩)
      | kind => exact .inr (.inr ⟨_, rfl⟩)

/-- A pointer received with two lengths that do not agree, and an object reference by itself at an
odd position that ends with its kind. -/
theorem read_iff_objRef_lengths :
    let std : StdObjRef := .pinged ⟨Block.zero 8⟩ ⟨Block.zero 8⟩ Ipid.nil 5
    let parts : Layout :=
      .raw objRefSignature.octets :: .u32 1 :: (Guid.iUnknown.layout ++ std.layout)
    (∃ next, (read MarshalFlag.null).run .little
        ⟨0, Layout.render .little 0 ([.u32 8, .u32 7, .u32 9] ++ (parts ++ [.u16 0, .u16 0])) ++
          [0xFF]⟩ =
      .ok (some ⟨Guid.iUnknown, std, ⟨[], []⟩, 7⟩, ⟨next, [0xFF]⟩)) ∧
    (read MarshalFlag.bare).run .big ⟨1, [0x4d, 0x45, 0x4f, 0x57, 0xAA, 0xBB, 0xCC, 0, 0, 0, 4]⟩ =
      .error (.objRefKind 4) := by
  intro std parts
  constructor
  · have hbetween :=
      Layout.between_render .little 0
        ([.u32 8, .u32 7, .u32 9] ++ (parts ++ [.u16 0, .u16 0])) [0xFF]
    obtain ⟨middle, hlead, hrest⟩ := Layout.between_append.1 hbetween
    obtain ⟨list, hparts, hlist⟩ := Layout.between_append.1 hrest
    have hresolver : DualStringArray.read.run .little list = .ok (⟨[], []⟩, _) :=
      DualStringArray.run_read_iff_sections.2
        ⟨0, 0, [], UInt16.le_refl 0, rfl, hlist, ⟨by simp, [], rfl, .inl rfl⟩, .inl ⟨rfl, rfl⟩⟩
    exact ⟨_, ((read_iff_objRef MarshalFlag.null .little _).2.1 _ _).2
      ⟨some 7, middle, list, ⟨8, 7, 9, by decide, rfl, hlead⟩, hparts, hresolver, rfl⟩⟩
  · refine ((read_iff_objRef MarshalFlag.bare .big _).2.2.2.1 4).2
      ⟨none, _, ⟨12, []⟩, ⟨rfl, rfl⟩, ?_, by decide⟩
    exact ⟨⟨5, [0xAA, 0xBB, 0xCC, 0, 0, 0, 4]⟩, ⟨[], rfl, rfl, rfl⟩, _,
      ⟨[0xAA, 0xBB, 0xCC], rfl, rfl, rfl⟩, rfl⟩

end OrpcWire.InterfacePointer
