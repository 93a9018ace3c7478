import OrpcWire.Proofs.ObjRef.InterfacePointer
import OrpcWire.Proofs.Wire.Fails

/-!
# How reading bindings and object references fails

Octets that are to be bindings have one of a few things wrong with them, or they are bindings
(`OrpcError.OfBindings`, `DualStringArray.read_failsOnly`). An object reference may besides be
refused for its first octets: they are not the signature, or the kind word behind the signature is
not that of the standard kind (`InterfacePointer.Refused`). Each of the two is found before anything
behind it is looked at, so octets that are missing further on do not matter
(`InterfacePointer.run_read_of_refused`).

A reader that checks what it has read before it goes on runs in one of a few ways, and
`InterfacePointer.run_readObjRef_cases` and `InterfacePointer.run_read_cases` list them. What is
said about errors and answers is taken from these lists.
-/

namespace OrpcWire

open Reader (FailsOnly Malformed)

theorem Reader.ExactOn.run_lift_bind_cases {α β : Type} {reader : Reader WireError α}
    {valid : α → Prop} {layout : α → Layout} (h : reader.ExactOn valid layout)
    (hfails : reader.FailsOnly WireError.OfOctets) (next : α → Reader OrpcError β)
    (order : ByteOrder) (cursor : Cursor) :
    (∃ error, WireError.OfOctets error ∧
      ((liftM reader : Reader OrpcError α) >>= next).run order cursor = .error (.wire error)) ∨
    ∃ a middle, valid a ∧ (layout a).Between order cursor middle ∧
      ((liftM reader : Reader OrpcError α) >>= next).run order cursor =
        (next a).run order middle := by
  cases hrun : reader.run order cursor with
  | error error =>
    refine .inl ⟨error, hfails order cursor error hrun, ?_⟩
    rw [Reader.run_bind, Reader.run_lift_error hrun]
  | ok result =>
    obtain ⟨a, middle⟩ := result
    obtain ⟨hvalid, hbetween⟩ := (h order cursor a middle).1 hrun
    refine .inr ⟨a, middle, hvalid, hbetween, ?_⟩
    rw [Reader.run_bind, Reader.run_lift hrun]

/-! ### Bindings -/

/-- What can be wrong with octets as bindings. -/
inductive OrpcError.OfBindings : OrpcError → Prop
  | wire {error : WireError} : error.OfOctets → OfBindings (.wire error)
  | securityBinding (defect : SecurityBindingDefect) : OfBindings (.securityBinding defect)
  | stringBinding (defect : StringBindingDefect) : OfBindings (.stringBinding defect)

theorem OrpcError.OfBindings.malformed {error : OrpcError} (h : error.OfBindings) :
    error.kind = .malformed := by
  cases h with
  | wire h => exact OrpcError.kind_wire h
  | securityBinding defect => rfl
  | stringBinding defect => rfl

theorem Reader.FailsOnly.liftBindings {α : Type} {reader : Reader WireError α}
    (h : reader.FailsOnly WireError.OfOctets) :
    (liftM reader : Reader OrpcError α).FailsOnly OrpcError.OfBindings :=
  FailsOnly.mapError (h.mono fun _ => .wire)

theorem Reader.textToNul_failsOnly {error : OrpcError} (h : error.OfBindings) :
    (textToNul error).FailsOnly OrpcError.OfBindings := by
  have hunit : unit?.FailsOnly WireError.OfOctets := u16_failsOnly.bind fun _ => .pure _
  refine FailsOnly.bind (FailsOnly.collect _ hunit).liftBindings fun units =>
    .ofExcept fun error' heq => ?_
  cases htext : Utf16.text? units with
  | none =>
    rw [htext] at heq
    cases heq
    exact h
  | some text =>
    rw [htext] at heq
    cases heq

theorem Reader.atEnd_failsOnly : Reader.atEnd.FailsOnly OrpcError.OfBindings := by
  intro order cursor error heq
  cases heq

theorem SecurityBinding.read_failsOnly : SecurityBinding.read.FailsOnly OrpcError.OfBindings := by
  refine FailsOnly.bind Reader.u16_failsOnly.liftBindings fun authnService => ?_
  split
  · exact .pure _
  · refine FailsOnly.bind Reader.u16_failsOnly.liftBindings fun authzService => ?_
    exact FailsOnly.bind (Reader.textToNul_failsOnly (.securityBinding _)) fun _ => .pure _

theorem SecurityBinding.readChain_failsOnly :
    SecurityBinding.readChain.FailsOnly OrpcError.OfBindings :=
  FailsOnly.collect _ SecurityBinding.read_failsOnly

theorem SecurityBinding.readChain_malformed : SecurityBinding.readChain.Malformed :=
  SecurityBinding.readChain_failsOnly.mono fun _ => OrpcError.OfBindings.malformed

theorem StringBinding.read_failsOnly : StringBinding.read.FailsOnly OrpcError.OfBindings := by
  refine FailsOnly.bind Reader.u16_failsOnly.liftBindings fun towerId => ?_
  split
  · exact .pure _
  · exact FailsOnly.bind (Reader.textToNul_failsOnly (.stringBinding _)) fun _ => .pure _

namespace DualStringArray

theorem readStrings_failsOnly : readStrings.FailsOnly OrpcError.OfBindings := by
  refine FailsOnly.collect _ (FailsOnly.bind Reader.atEnd_failsOnly fun done => ?_)
  split
  · exact .pure _
  · exact StringBinding.read_failsOnly

theorem readSecurity_failsOnly : readSecurity.FailsOnly OrpcError.OfBindings := by
  refine FailsOnly.bind Reader.atEnd_failsOnly fun done => ?_
  split
  · exact .pure _
  · exact SecurityBinding.readChain_failsOnly

theorem read_failsOnly : read.FailsOnly OrpcError.OfBindings := by
  refine FailsOnly.bind Reader.u16_failsOnly.liftBindings fun entries => ?_
  refine FailsOnly.bind Reader.u16_failsOnly.liftBindings fun offset => ?_
  apply FailsOnly.guard
  · exact .stringBinding _
  · refine FailsOnly.bind (Reader.octets_failsOnly _).liftBindings fun array => ?_
    refine FailsOnly.bind (readStrings_failsOnly.within _) fun _ => ?_
    exact FailsOnly.bind (readSecurity_failsOnly.within _) fun _ => .pure _

theorem read_malformed : read.Malformed :=
  read_failsOnly.mono fun _ => OrpcError.OfBindings.malformed

end DualStringArray

/-! ### Object references -/

theorem StdObjRef.read_failsOnly : StdObjRef.read.FailsOnly WireError.OfOctets := by
  have hblock : ∀ {α : Type} (f : Block 8 → α),
      (Reader.block 8 >>= fun octets => pure (f octets)).FailsOnly WireError.OfOctets :=
    fun f => (Reader.block_failsOnly 8).bind fun _ => .pure _
  refine Reader.u32_failsOnly.bind fun _ => Reader.i32_failsOnly.bind fun _ => ?_
  refine (hblock Oxid.mk).bind fun _ => (hblock Oid.mk).bind fun _ => ?_
  exact FailsOnly.bind (Reader.guid_failsOnly.bind fun _ => .pure _) fun _ => .pure _

theorem ObjRefKind.ofWord?_eq_standard_iff {kind : UInt32} :
    ofWord? kind = some .standard ↔ kind = standard.word := by
  unfold ofWord?
  by_cases hstandard : kind = 1
  · rw [if_pos hstandard]
    exact iff_of_true rfl hstandard
  · rw [if_neg hstandard]
    refine iff_of_false ?_ hstandard
    split
    · decide
    · split <;> decide

namespace InterfacePointer

variable {order : ByteOrder} {cursor : Cursor} {error : OrpcError} {kind : UInt32}

/-- An object reference of the given kind stands at the cursor, as far as its signature and its kind
go. -/
def KindAt (order : ByteOrder) (cursor : Cursor) (kind : UInt32) : Prop :=
  ∃ next, Layout.Between order [.raw objRefSignature.octets, .u32 kind] cursor next

/-- An interface pointer written under the flags stands at the cursor, its object reference of the
given kind. -/
def PointsAt (flags : UInt32) (order : ByteOrder) (cursor : Cursor) (kind : UInt32) : Prop :=
  if MarshalFlag.isSet flags MarshalFlag.bare then
    KindAt order cursor kind
  else
    ∃ id first second middle, id ≠ nullId ∧
      Layout.Between order [.u32 id, .u32 first, .u32 second] cursor middle ∧
        KindAt order middle kind

/-! #### Signature and kind -/

/-- An object reference is refused for its first octets: they are not its signature, or behind it
the kind is not the standard one. -/
inductive Refused (order : ByteOrder) (cursor : Cursor) : OrpcError → Prop
  | signature {found : Block 4} {next : Cursor} :
      Layout.Between order [.raw found.octets] cursor next →
      found ≠ objRefSignature → Refused order cursor (.objRef (.signature objRefSignature found))
  | kind {kind : UInt32} : KindAt order cursor kind → kind ≠ ObjRefKind.standard.word →
      Refused order cursor (.objRefKind kind)

/-- What is read behind signature and kind. -/
def readBody (length : Option UInt32) : Reader OrpcError InterfacePointer := do
  let iid ← Reader.guid
  let std ← StdObjRef.read
  let resolver ← DualStringArray.read
  return ⟨iid, std, resolver, length.getD (lengthWith resolver)⟩

theorem readBody_failsOnly (length : Option UInt32) :
    (readBody length).FailsOnly OrpcError.OfBindings := by
  refine FailsOnly.bind Reader.guid_failsOnly.liftBindings fun iid => ?_
  refine FailsOnly.bind StdObjRef.read_failsOnly.liftBindings fun std => ?_
  exact FailsOnly.bind DualStringArray.read_failsOnly fun resolver => .pure _

variable {length : Option UInt32} {middle : Cursor}

theorem run_readObjRef_of_standard
    (h : Layout.Between order [.raw objRefSignature.octets,
      .u32 ObjRefKind.standard.word] cursor middle) :
    (readObjRef length).run order cursor = (readBody length).run order middle := by
  obtain ⟨behind, hsignature, hkind⟩ := Layout.between_cons.1 h
  unfold readObjRef
  rw [(Reader.block_exact 4).run_lift_bind _ (Layout.between_singleton.2 hsignature),
    if_neg (fun hwrong => hwrong rfl), Reader.u32_exact.run_lift_bind _ hkind,
    if_neg (fun hwrong => hwrong (ObjRefKind.ofWord?_eq_standard_iff.2 rfl))]
  rfl

theorem run_readObjRef_of_refused (h : Refused order cursor error) :
    (readObjRef length).run order cursor = .error error := by
  unfold readObjRef
  cases h with
  | signature hfound hwrong =>
    rw [(Reader.block_exact 4).run_lift_bind _ hfound, if_pos hwrong]
    rfl
  | kind hkind hother =>
    obtain ⟨last, hbetween⟩ := hkind
    obtain ⟨behind, hsignature, hword⟩ := Layout.between_cons.1 hbetween
    rw [(Reader.block_exact 4).run_lift_bind _ (Layout.between_singleton.2 hsignature),
      if_neg (fun hwrong => hwrong rfl), Reader.u32_exact.run_lift_bind _ hword,
      if_pos (mt ObjRefKind.ofWord?_eq_standard_iff.1 hother)]
    rfl

/-- Signature or kind are missing, or the object reference is refused for them, or they are the
right ones. -/
theorem run_readObjRef_cases (length : Option UInt32) (order : ByteOrder) (cursor : Cursor) :
    (∃ error, WireError.OfOctets error ∧
      (readObjRef length).run order cursor = .error (.wire error)) ∨
    (∃ error, Refused order cursor error) ∨
    ∃ middle, Layout.Between order [.raw objRefSignature.octets,
      .u32 ObjRefKind.standard.word] cursor middle := by
  unfold readObjRef
  rcases (Reader.block_exact 4).exactOn.run_lift_bind_cases
    (Reader.block_failsOnly 4) _ order cursor with
    hmissing | ⟨signature, behind, -, hfound, hrun⟩
  · exact .inl hmissing
  · by_cases hright : signature = objRefSignature
    · subst hright
      rw [if_neg (fun hwrong => hwrong rfl)] at hrun
      rcases Reader.u32_exact.exactOn.run_lift_bind_cases Reader.u32_failsOnly _ order behind with
        ⟨error, hoctets, hmissing⟩ | ⟨kind, middle, -, hword, -⟩
      · exact .inl ⟨error, hoctets, hrun.trans hmissing⟩
      · have hboth := Layout.between_append.2 ⟨behind, hfound, hword⟩
        by_cases hstandard : kind = ObjRefKind.standard.word
        · subst hstandard
          exact .inr (.inr ⟨middle, hboth⟩)
        · exact .inr (.inl ⟨_, .kind ⟨middle, hboth⟩ hstandard⟩)
    · exact .inr (.inl ⟨_, .signature hfound hright⟩)

theorem run_readObjRef_eq_error_iff (h : ¬ error.OfBindings) :
    (readObjRef length).run order cursor = .error error ↔ Refused order cursor error := by
  refine ⟨fun heq => ?_, run_readObjRef_of_refused⟩
  rcases run_readObjRef_cases length order cursor
    with ⟨error', hmissing, hrun⟩ | ⟨error', hrefused⟩ | ⟨middle, hstandard⟩
  · cases hrun.symm.trans heq
    exact absurd (.wire hmissing) h
  · cases (run_readObjRef_of_refused hrefused).symm.trans heq
    exact hrefused
  · rw [run_readObjRef_of_standard hstandard] at heq
    exact absurd (readBody_failsOnly length order middle error heq) h

/-! #### In front of the object reference -/

/-- What stands in front of the object reference under the flags: nothing, or an id that is not null
and two words, the first of which is the length received. -/
def LeadAt (flags : UInt32) (order : ByteOrder) (cursor : Cursor) (length : Option UInt32)
    (middle : Cursor) : Prop :=
  if MarshalFlag.isSet flags MarshalFlag.bare then
    length = none ∧ middle = cursor
  else
    ∃ id first second, id ≠ nullId ∧ length = some first ∧
      Layout.Between order [.u32 id, .u32 first, .u32 second] cursor middle

variable {flags : UInt32}

theorem pointsAt_iff : PointsAt flags order cursor kind ↔
    ∃ length middle, LeadAt flags order cursor length middle ∧ KindAt order middle kind := by
  unfold PointsAt LeadAt
  split
  · constructor
    · exact fun h => ⟨none, cursor, ⟨rfl, rfl⟩, h⟩
    · rintro ⟨length, middle, ⟨-, rfl⟩, h⟩
      exact h
  · constructor
    · rintro ⟨id, first, second, middle, hid, hlead, h⟩
      exact ⟨some first, middle, ⟨id, first, second, hid, rfl, hlead⟩, h⟩
    · rintro ⟨length, middle, ⟨id, first, second, hid, -, hlead⟩, h⟩
      exact ⟨id, first, second, middle, hid, hlead, h⟩

theorem run_read_of_lead (h : LeadAt flags order cursor length middle) :
    (read flags).run order cursor = (some <$> readObjRef length).run order middle := by
  unfold read
  unfold LeadAt at h
  split at h
  · rename_i hbare
    obtain ⟨rfl, rfl⟩ := h
    rw [if_pos hbare]
  · rename_i hbare
    obtain ⟨id, first, second, hid, rfl, hlead⟩ := h
    obtain ⟨behindId, hidword, hlengths⟩ := Layout.between_cons.1 hlead
    obtain ⟨behindFirst, hfirst, hsecond⟩ := Layout.between_cons.1 hlengths
    have hrun : Reader.referentId.run order cursor = .ok (some id, behindId) :=
      (Reader.referentId_exact _ _ _ _).2 ⟨by simpa using hid, Layout.between_singleton.2 hidword⟩
    rw [if_neg hbare, Reader.run_bind, Reader.run_lift hrun]
    show (_ >>= _ : Reader OrpcError (Option InterfacePointer)).run order behindId = _
    rw [Reader.u32_exact.run_lift_bind _ (Layout.between_singleton.2 hfirst),
      Reader.u32_exact.run_lift_bind _ hsecond]

theorem run_read_of_null (hbare : MarshalFlag.isSet flags MarshalFlag.bare = false)
    (h : Layout.Between order [.u32 nullId] cursor middle) :
    (read flags).run order cursor = .ok (none, middle) :=
  read_null hbare order cursor middle h

/-- Words are missing in front of the object reference, or a null word stands for it, or it is read
behind them. -/
theorem run_read_cases (flags : UInt32) (order : ByteOrder) (cursor : Cursor) :
    (∃ error, WireError.OfOctets error ∧ (read flags).run order cursor = .error (.wire error)) ∨
    (MarshalFlag.isSet flags MarshalFlag.bare = false ∧ ∃ next,
      Layout.Between order [.u32 nullId] cursor next) ∨
    ∃ length middle, LeadAt flags order cursor length middle := by
  by_cases hbare : MarshalFlag.isSet flags MarshalFlag.bare = true
  · exact .inr (.inr ⟨none, cursor, by rw [LeadAt, if_pos hbare]; exact ⟨rfl, rfl⟩⟩)
  · unfold read LeadAt
    simp only [if_neg hbare]
    rcases Reader.referentId_exact.run_lift_bind_cases Reader.referentId_failsOnly _ order cursor
      with hmissing | ⟨id, behindId, hid, hidword, hrun⟩
    · exact .inl hmissing
    · cases id with
      | none => exact .inr (.inl ⟨by simpa using hbare, behindId, hidword⟩)
      | some id =>
        rcases Reader.u32_exact.exactOn.run_lift_bind_cases Reader.u32_failsOnly _ order behindId
          with ⟨error, hoctets, hmissing⟩ | ⟨first, behindFirst, -, hfirst, hrunFirst⟩
        · exact .inl ⟨error, hoctets, hrun.trans hmissing⟩
        · rcases Reader.u32_exact.exactOn.run_lift_bind_cases Reader.u32_failsOnly _ order
            behindFirst with
            ⟨error, hoctets, hmissing⟩ | ⟨second, middle, -, hsecond, -⟩
          · exact .inl ⟨error, hoctets, (hrun.trans hrunFirst).trans hmissing⟩
          · refine .inr (.inr ⟨some first, middle, id, first, second, by simpa using hid, rfl, ?_⟩)
            exact Layout.between_append.2 ⟨behindId, hidword,
              Layout.between_append.2 ⟨behindFirst, hfirst, hsecond⟩⟩

theorem run_read_eq_error_iff (h : ¬ error.OfBindings) :
    (read flags).run order cursor = .error error ↔
      ∃ length middle, LeadAt flags order cursor length middle ∧ Refused order middle error := by
  constructor
  · intro heq
    rcases run_read_cases flags order cursor
      with ⟨error', hmissing, hrun⟩ | ⟨hbare, next, hnull⟩ | ⟨length, middle, hlead⟩
    · cases hrun.symm.trans heq
      exact absurd (.wire hmissing) h
    · cases (run_read_of_null hbare hnull).symm.trans heq
    · rw [run_read_of_lead hlead, Reader.run_map_eq_error_iff, run_readObjRef_eq_error_iff h] at heq
      exact ⟨length, middle, hlead, heq⟩
  · rintro ⟨length, middle, hlead, hrefused⟩
    rw [run_read_of_lead hlead, Reader.run_map_eq_error_iff]
    exact run_readObjRef_of_refused hrefused

theorem read_faultless (flags : UInt32) : (read flags).Faultless := by
  intro order cursor error heq
  by_cases h : error.OfBindings
  · rw [h.malformed]
    exact ErrorKind.noConfusion
  · obtain ⟨length, middle, -, hrefused⟩ := (run_read_eq_error_iff h).1 heq
    cases hrefused <;> exact ErrorKind.noConfusion

/-- A pointer is not read because its object reference is of a kind other than the standard one, or
because its octets are no valid message. -/
theorem read_unsupported_iff :
    ((read flags).run order cursor = .error error ∧ error.kind = .unsupported) ↔
      ∃ kind, PointsAt flags order cursor kind ∧ kind ≠ ObjRefKind.standard.word ∧
        error = .objRefKind kind := by
  have hbindings : error.kind = .unsupported → ¬ error.OfBindings := fun hunsupported h =>
    OrpcError.not_malformed_of_unsupported hunsupported h.malformed
  constructor
  · rintro ⟨heq, hunsupported⟩
    obtain ⟨length, middle, hlead, hrefused⟩ :=
      (run_read_eq_error_iff (hbindings hunsupported)).1 heq
    cases hrefused with
    | signature => cases hunsupported
    | kind hkind hother => exact ⟨_, pointsAt_iff.2 ⟨length, middle, hlead, hkind⟩, hother, rfl⟩
  · rintro ⟨kind, hpoints, hother, rfl⟩
    obtain ⟨length, middle, hlead, hkind⟩ := pointsAt_iff.1 hpoints
    exact ⟨(run_read_eq_error_iff (hbindings rfl)).2 ⟨length, middle, hlead, .kind hkind hother⟩,
      rfl⟩

end InterfacePointer

end OrpcWire
