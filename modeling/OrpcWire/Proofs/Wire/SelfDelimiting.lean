import OrpcWire.Proofs.Wire.Fails

/-!
# Readers that know where they end

A self-delimiting reader takes a stretch of octets off the stream and leaves the rest alone: it
answers the same whatever follows the stretch, and of a stretch that is cut short it says that
octets are missing, and nothing else (`Reader.SelfDelimiting`).

The second half is more than that the reader fails. A sequence whose first reader answers on less
than it was given, or finds some other fault with it, would not have it. So the lemmas follow the
runs: `Delimited` says both halves of one run, and `Delimited.bind` puts two runs together, with the
cut in the first stretch or in the second.
-/

namespace OrpcWire

/-- Octets are missing. -/
def WireError.IsUnderflow (error : WireError) : Prop :=
  ∃ needed available, error = .underflow needed available

/-- Octets are missing. -/
def OrpcError.IsUnderflow (error : OrpcError) : Prop :=
  ∃ cause : WireError, cause.IsUnderflow ∧ error = .wire cause

theorem OrpcError.IsUnderflow.kind_eq {error : OrpcError} (h : error.IsUnderflow) :
    error.kind = .malformed := by
  obtain ⟨_, ⟨_, _, rfl⟩, rfl⟩ := h
  rfl

variable {ε ε' α β : Type} {short : ε → Prop}

/-- Between the cursors the run takes `used` off the stream and answers `a`. It does so whatever
follows, and if `used` is cut short it ends with an error that `short` holds of. -/
structure Delimited (short : ε → Prop) (run : Cursor → Except ε (α × Cursor)) (used : List UInt8)
    (cursor next : Cursor) (a : α) : Prop where
  rest_eq : cursor.rest = used ++ next.rest
  position_eq : next.position = cursor.position + used.length
  whole : ∀ rest, run ⟨cursor.position, used ++ rest⟩ = .ok (a, ⟨next.position, rest⟩)
  cut : ∀ k < used.length, ∃ error, run ⟨cursor.position, used.take k⟩ = .error error ∧ short error

namespace Delimited

variable {run : Cursor → Except ε (α × Cursor)} {used : List UInt8} {cursor middle next : Cursor}
  {a : α} {b : β}

theorem nothing (h : ∀ rest, run ⟨cursor.position, rest⟩ = .ok (a, ⟨cursor.position, rest⟩)) :
    Delimited short run [] cursor cursor a where
  rest_eq := rfl
  position_eq := rfl
  whole := h
  cut k hk := absurd hk (Nat.not_lt_zero k)

theorem congr {run' : Cursor → Except ε (α × Cursor)} (h : Delimited short run used cursor next a)
    (hrun : ∀ octets, run' ⟨cursor.position, octets⟩ = run ⟨cursor.position, octets⟩) :
    Delimited short run' used cursor next a where
  rest_eq := h.rest_eq
  position_eq := h.position_eq
  whole rest := by rw [hrun, h.whole]
  cut k hk := by
    rw [hrun]
    exact h.cut k hk

theorem bind {used' : List UInt8} (h : Delimited short run used cursor middle a)
    (later : α → Cursor → Except ε (β × Cursor))
    (hlater : Delimited short (later a) used' middle next b) :
    Delimited short (fun cursor => run cursor >>= fun result => later result.1 result.2)
      (used ++ used') cursor next b where
  rest_eq := by rw [h.rest_eq, hlater.rest_eq, List.append_assoc]
  position_eq := by rw [hlater.position_eq, h.position_eq, List.length_append, Nat.add_assoc]
  whole rest := by
    rw [List.append_assoc, h.whole]
    exact hlater.whole rest
  cut k hk := by
    by_cases hfirst : k < used.length
    · obtain ⟨error, herror, hshort⟩ := h.cut k hfirst
      refine ⟨error, ?_, hshort⟩
      rw [List.take_append_of_le_length (Nat.le_of_lt hfirst), herror]
      rfl
    · rw [List.length_append] at hk
      obtain ⟨error, herror, hshort⟩ := hlater.cut (k - used.length) (by omega)
      refine ⟨error, ?_, hshort⟩
      rw [List.take_append, List.take_of_length_le (Nat.le_of_not_lt hfirst), h.whole]
      exact herror

theorem map (h : Delimited short run used cursor next a) (f : α → β) :
    Delimited short (fun cursor => (run cursor).map fun (a, next) =>
      (f a, next)) used cursor next (f a) where
  rest_eq := h.rest_eq
  position_eq := h.position_eq
  whole rest := by
    rw [h.whole]
    rfl
  cut k hk := by
    obtain ⟨error, herror, hshort⟩ := h.cut k hk
    refine ⟨error, ?_, hshort⟩
    rw [herror]
    rfl

theorem mapError {short : ε' → Prop} {f : ε → ε'}
    (h : Delimited (fun error => short (f error)) run used cursor next a) :
    Delimited short (fun cursor => (run cursor).mapError f) used cursor next a where
  rest_eq := h.rest_eq
  position_eq := h.position_eq
  whole rest := by
    rw [h.whole]
    rfl
  cut k hk := by
    obtain ⟨error, herror, hshort⟩ := h.cut k hk
    refine ⟨f error, ?_, hshort⟩
    rw [herror]
    rfl

end Delimited

namespace Reader

/-- The reader knows where it ends: whenever it answers, it does so whatever follows the octets it
took, and on less than these it ends with an error that `short` holds of. -/
def SelfDelimiting (short : ε → Prop) (reader : Reader ε α) : Prop :=
  ∀ order cursor a next, reader.run order cursor = .ok (a, next) →
    ∃ used, Delimited short (reader.run order) used cursor next a

theorem run_bind_eq_bind (reader : Reader ε α) (next : α → Reader ε β) (order : ByteOrder)
    (cursor : Cursor) :
    (reader >>= next).run order cursor =
      (reader.run order cursor >>= fun result => (next result.1).run order result.2) := by
  rw [run_bind]
  cases reader.run order cursor <;> rfl

theorem delimited_bind {reader : Reader ε α} {next : α → Reader ε β} {order : ByteOrder}
    {used used' : List UInt8} {cursor middle last : Cursor} {a : α} {b : β}
    (h : Delimited short (reader.run order) used cursor middle a)
    (hnext : Delimited short ((next a).run order) used' middle last b) :
    Delimited short ((reader >>= next).run order) (used ++ used') cursor last b :=
  (h.bind (fun a => (next a).run order) hnext).congr fun _ => run_bind_eq_bind reader next order _

namespace SelfDelimiting

variable {reader : Reader ε α}

theorem ofExcept (result : Except ε α) : (ofExcept result).SelfDelimiting short := by
  intro order cursor a next heq
  cases result with
  | error error => cases heq
  | ok b =>
    cases heq
    exact ⟨[], .nothing fun rest => rfl⟩

theorem pure (a : α) : (pure a : Reader ε α).SelfDelimiting short := ofExcept (.ok a)

theorem fail (error : ε) : (fail error : Reader ε α).SelfDelimiting short := ofExcept (.error error)

theorem within (octets : List UInt8) (reader : Reader ε α) :
    (within octets reader).SelfDelimiting short := by
  intro order cursor a next heq
  obtain ⟨⟨b, last⟩, hinner, heq⟩ := map_eq_ok_iff.1 heq
  cases heq
  refine ⟨[], .nothing fun rest => ?_⟩
  show (reader.run order ⟨0, octets⟩).map _ = _
  rw [hinner]
  rfl

theorem bind {next : α → Reader ε β} (h : reader.SelfDelimiting short)
    (hnext : ∀ a, (next a).SelfDelimiting short) : (reader >>= next).SelfDelimiting short := by
  intro order cursor b last heq
  obtain ⟨a, middle, hfirst, hsecond⟩ := run_bind_eq_ok.1 heq
  obtain ⟨used, hused⟩ := h order cursor a middle hfirst
  obtain ⟨used', hused'⟩ := hnext a order middle b last hsecond
  exact ⟨used ++ used', delimited_bind hused hused'⟩

theorem map (h : reader.SelfDelimiting short) (f : α → β) :
    (f <$> reader).SelfDelimiting short := by
  rw [← bind_pure_comp]
  exact h.bind fun a => pure (f a)

theorem guard {c : Prop} {_ : Decidable c} {error : ε} {next : Unit → Reader ε α}
    (hnext : (next ()).SelfDelimiting short) :
    (if c then Reader.fail error >>= next else next ()).SelfDelimiting short := by
  split
  · intro order cursor a last heq
    cases heq
  · exact hnext

theorem mapError {short : ε' → Prop} {f : ε → ε'}
    (h : reader.SelfDelimiting fun error => short (f error)) :
    (reader.mapError f).SelfDelimiting short := by
  intro order cursor a next heq
  obtain ⟨used, hused⟩ := h order cursor a next (mapError_eq_ok_iff.1 heq)
  exact ⟨used, hused.mapError⟩

theorem lift {reader : Reader WireError α} (h : reader.SelfDelimiting WireError.IsUnderflow) :
    (liftM reader : Reader OrpcError α).SelfDelimiting OrpcError.IsUnderflow := by
  apply mapError
  intro order cursor a next heq
  obtain ⟨used, hused⟩ := h order cursor a next heq
  refine ⟨used, hused.rest_eq, hused.position_eq, hused.whole, fun k hk => ?_⟩
  obtain ⟨error, herror, hshort⟩ := hused.cut k hk
  exact ⟨error, herror, error, hshort, rfl⟩

theorem collect {reader : Reader ε (Option α)} (hreader : reader.Progresses)
    (h : reader.SelfDelimiting short) : (collect reader hreader).SelfDelimiting short := by
  intro order cursor items last heq
  induction hlength : cursor.rest.length using Nat.strongRecOn generalizing cursor items with
  | _ n ih =>
    rw [collect_eq] at heq
    obtain ⟨answer, middle, hfirst, heq⟩ := run_bind_eq_ok.1 heq
    obtain ⟨used, hused⟩ := h order cursor answer middle hfirst
    rw [collect_eq]
    cases answer with
    | none =>
      cases heq
      exact ⟨used ++ [], delimited_bind hused (.nothing fun rest => rfl)⟩
    | some a =>
      obtain ⟨more, last', hmore, hpure⟩ := run_bind_eq_ok.1 heq
      cases hpure
      have hless : middle.rest.length < n := hlength ▸ hreader order cursor a middle hfirst
      obtain ⟨used', hused'⟩ := ih _ hless middle more hmore rfl
      exact ⟨used ++ (used' ++ []),
        delimited_bind hused (delimited_bind hused' (.nothing fun rest => rfl))⟩

end SelfDelimiting

/-! ### Octets and words -/

theorem block_selfDelimiting (n : Nat) : (block n).SelfDelimiting WireError.IsUnderflow := by
  intro order cursor taken next heq
  rw [run_block] at heq
  split at heq
  · rename_i hroom
    cases heq
    have hlength : (cursor.rest.take n).length = n := List.length_take_of_le hroom
    refine ⟨cursor.rest.take n, (List.take_append_drop n cursor.rest).symm, by
      rw [hlength], fun rest => ?_, fun k hk => ?_⟩
    · rw [run_block, dif_pos (by rw [List.length_append, hlength]; omega)]
      simp only [List.take_left' hlength, List.drop_left' hlength]
    · rw [hlength] at hk
      refine ⟨_, ?_, n, k, rfl⟩
      rw [run_block]
      have hcut : ((cursor.rest.take n).take k).length = k := by
        rw [List.length_take, hlength]
        omega
      rw [dif_neg (by rw [hcut]; omega), hcut]
  · cases heq

theorem octets_selfDelimiting (n : Nat) : (octets n).SelfDelimiting WireError.IsUnderflow :=
  (block_selfDelimiting n).bind fun _ => .pure _

theorem aligned_selfDelimiting (boundary size : Nat) :
    (aligned boundary size).SelfDelimiting WireError.IsUnderflow := by
  intro order cursor taken next heq
  obtain ⟨⟨both, middle⟩, hboth, heq⟩ := map_eq_ok_iff.1 heq
  cases heq
  obtain ⟨used, hused⟩ := octets_selfDelimiting _ order cursor both _ hboth
  exact ⟨used, (hused.map (·.drop (padding boundary cursor.position))).congr fun _ => rfl⟩

theorem align_selfDelimiting (boundary : Nat) :
    (align boundary).SelfDelimiting WireError.IsUnderflow :=
  (aligned_selfDelimiting boundary 0).bind fun _ => .pure _

theorem word_selfDelimiting (size : Nat) : (word size).SelfDelimiting WireError.IsUnderflow := by
  intro order cursor n next heq
  obtain ⟨⟨taken, middle⟩, htaken, heq⟩ := map_eq_ok_iff.1 heq
  cases heq
  obtain ⟨used, hused⟩ := aligned_selfDelimiting size size order cursor taken _ htaken
  exact ⟨used, hused.map order.value⟩

theorem u8_selfDelimiting : u8.SelfDelimiting WireError.IsUnderflow :=
  (word_selfDelimiting 1).bind fun _ => .pure _

theorem u16_selfDelimiting : u16.SelfDelimiting WireError.IsUnderflow :=
  (word_selfDelimiting 2).bind fun _ => .pure _

theorem u32_selfDelimiting : u32.SelfDelimiting WireError.IsUnderflow :=
  (word_selfDelimiting 4).bind fun _ => .pure _

theorem u64_selfDelimiting : u64.SelfDelimiting WireError.IsUnderflow :=
  (word_selfDelimiting 8).bind fun _ => .pure _

theorem i32_selfDelimiting : i32.SelfDelimiting WireError.IsUnderflow :=
  u32_selfDelimiting.bind fun _ => .pure _

theorem guid_selfDelimiting : guid.SelfDelimiting WireError.IsUnderflow :=
  u32_selfDelimiting.bind fun _ => u16_selfDelimiting.bind fun _ => u16_selfDelimiting.bind fun _ =>
    (block_selfDelimiting 8).bind fun _ => .pure _

theorem referentId_selfDelimiting : referentId.SelfDelimiting WireError.IsUnderflow :=
  u32_selfDelimiting.bind fun _ => .pure _

end Reader

end OrpcWire
