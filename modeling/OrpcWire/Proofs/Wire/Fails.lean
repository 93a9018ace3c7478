import OrpcWire.Error
import OrpcWire.Result
import OrpcWire.Wire.IdSupply

/-!
# How readers fail

`reader.FailsOnly P`: whatever error the reader ends with, `P` holds of it. This passes through
sequences, repetition and octets of their own, so all that counts are the errors that are raised
somewhere. Readers of words raise none but the want of octets (`Reader.block_failsOnly`).

An error that the first reader of a sequence cannot end with is one of the second, behind what the
first one answered (`Reader.FailsOnly.run_bind_eq_error_iff`).
-/

namespace OrpcWire

/-- The errors that octets can cause. -/
def WireError.OfOctets (error : WireError) : Prop := error.isCallerFault = false

theorem WireError.ofOctets_iff {error : WireError} : error.OfOctets ↔
    (∃ needed available, error = .underflow needed available) ∨ ∃ requested limit,
      error = .limitExceeded requested limit := by
  cases error <;> simp [OfOctets, isCallerFault]

theorem OrpcError.kind_wire {error : WireError} (h : error.OfOctets) :
    (OrpcError.wire error).kind = .malformed := by
  show (if error.isCallerFault = true then ErrorKind.callerFault else .malformed) = .malformed
  rw [h]
  rfl

theorem OrpcError.not_malformed_of_unsupported {error : OrpcError} (h : error.kind = .unsupported) :
    ¬ error.kind = .malformed := by
  rw [h]
  decide

namespace Reader

variable {ε ε' α β : Type} {P : ε → Prop} {reader : Reader ε α}

/-- Whatever error the reader ends with, `P` holds of it. -/
def FailsOnly (P : ε → Prop) (reader : Reader ε α) : Prop :=
  ∀ order cursor error, reader.run order cursor = .error error → P error

/-- A sequence fails if its first reader does, or the second behind it. -/
theorem run_bind_eq_error_iff {next : α → Reader ε β} {order : ByteOrder} {cursor : Cursor}
    {error : ε} :
    (reader >>= next).run order cursor = .error error ↔
      reader.run order cursor = .error error ∨
      ∃ a middle, reader.run order cursor = .ok (a, middle) ∧
        (next a).run order middle = .error error := by
  rw [run_bind]
  cases reader.run order cursor with
  | error error' => simp
  | ok result =>
    constructor
    · intro h
      exact .inr ⟨result.1, result.2, rfl, h⟩
    · rintro (h | ⟨a, middle, heq, hnext⟩)
      · cases h
      · cases heq
        exact hnext

theorem run_map_eq_ok_iff {f : α → β} {order : ByteOrder} {cursor next : Cursor} {b : β} :
    (f <$> reader).run order cursor = .ok (b, next) ↔
      ∃ a, reader.run order cursor = .ok (a, next) ∧ f a = b := by
  rw [← bind_pure_comp, run_bind_eq_ok]
  constructor
  · rintro ⟨a, middle, ha, hpure⟩
    cases hpure
    exact ⟨a, ha, rfl⟩
  · rintro ⟨a, ha, rfl⟩
    exact ⟨a, next, ha, rfl⟩

theorem run_map_eq_error_iff {f : α → β} {order : ByteOrder} {cursor : Cursor} {error : ε} :
    (f <$> reader).run order cursor = .error error ↔ reader.run order cursor = .error error := by
  rw [← bind_pure_comp, run_bind_eq_error_iff, or_iff_left]
  rintro ⟨_, _, _, hpure⟩
  cases hpure

namespace FailsOnly

theorem mono {Q : ε → Prop} (h : reader.FailsOnly P) (hPQ : ∀ error, P error → Q error) :
    reader.FailsOnly Q :=
  fun order cursor error heq => hPQ error (h order cursor error heq)

theorem pure (a : α) : (pure a : Reader ε α).FailsOnly P := by
  intro order cursor error heq
  cases heq

theorem fail {error : ε} (h : P error) : (fail error : Reader ε α).FailsOnly P := by
  intro order cursor error' heq
  cases heq
  exact h

theorem ofExcept {result : Except ε α} (h : ∀ error, result = .error error → P error) :
    (ofExcept result).FailsOnly P :=
  fun _ _ error heq => h error (map_eq_error_iff.1 heq)

theorem bind {next : α → Reader ε β} (h : reader.FailsOnly P) (hnext : ∀ a, (next a).FailsOnly P) :
    (reader >>= next).FailsOnly P := by
  intro order cursor error heq
  rcases run_bind_eq_error_iff.1 heq with hfirst | ⟨a, middle, _, hsecond⟩
  · exact h order cursor error hfirst
  · exact hnext a order middle error hsecond

theorem guard {c : Prop} {_ : Decidable c} {error : ε} (h : P error) {next : Unit → Reader ε α}
    (hnext : (next ()).FailsOnly P) :
    (if c then Reader.fail error >>= next else next ()).FailsOnly P := by
  split
  · intro order cursor error' heq
    cases heq
    exact h
  · exact hnext

theorem map (h : reader.FailsOnly P) (f : α → β) : (f <$> reader).FailsOnly P :=
  fun order cursor error heq => h order cursor error (run_map_eq_error_iff.1 heq)

theorem mapError {P : ε' → Prop} {f : ε → ε'} (h : reader.FailsOnly fun error => P (f error)) :
    (reader.mapError f).FailsOnly P := by
  intro order cursor error heq
  obtain ⟨error', herror, rfl⟩ := mapError_eq_error_iff.1 heq
  exact h order cursor error' herror

theorem within (h : reader.FailsOnly P) (octets : List UInt8) :
    (within octets reader).FailsOnly P :=
  fun order _ error heq => h order _ error (map_eq_error_iff.1 heq)

theorem collect {reader : Reader ε (Option α)} (hreader : reader.Progresses)
    (h : reader.FailsOnly P) : (collect reader hreader).FailsOnly P := by
  intro order cursor error heq
  change collectOnto reader hreader order cursor [] = .error error at heq
  generalize ([] : List α) = found at heq
  induction cursor, found using collectOnto.induct reader hreader order with
  | case1 cursor found a next hsome ih =>
    rw [collectOnto_some hsome] at heq
    exact ih heq
  | case2 cursor found next hnone =>
    rw [collectOnto_none hnone] at heq
    cases heq
  | case3 cursor found error' herror =>
    rw [collectOnto_error herror] at heq
    cases heq
    exact h order cursor error herror

/-- An error that the first reader cannot end with is one of the second. -/
theorem run_bind_eq_error_iff (h : reader.FailsOnly P) {next : α → Reader ε β} {order : ByteOrder}
    {cursor : Cursor} {error : ε} (herror : ¬ P error) :
    (reader >>= next).run order cursor = .error error ↔
      ∃ a middle, reader.run order cursor = .ok (a, middle) ∧
        (next a).run order middle = .error error := by
  rw [Reader.run_bind_eq_error_iff, or_iff_right]
  intro hfirst
  exact herror (h order cursor error hfirst)

end FailsOnly

/-! ### Octets and words -/

theorem block_failsOnly (n : Nat) : (block n).FailsOnly WireError.OfOctets := by
  intro order cursor error heq
  rw [run_block] at heq
  split at heq
  · cases heq
  · cases heq
    rfl

theorem octets_failsOnly (n : Nat) : (octets n).FailsOnly WireError.OfOctets :=
  (block_failsOnly n).bind fun _ => .pure _

theorem aligned_failsOnly (boundary size : Nat) :
    (aligned boundary size).FailsOnly WireError.OfOctets :=
  fun order cursor error heq => octets_failsOnly _ order cursor error (map_eq_error_iff.1 heq)

theorem align_failsOnly (boundary : Nat) : (align boundary).FailsOnly WireError.OfOctets :=
  (aligned_failsOnly boundary 0).bind fun _ => .pure _

theorem word_failsOnly (size : Nat) : (word size).FailsOnly WireError.OfOctets :=
  fun order cursor error heq =>
    aligned_failsOnly size size order cursor error (map_eq_error_iff.1 heq)

theorem u8_failsOnly : u8.FailsOnly WireError.OfOctets := (word_failsOnly 1).bind fun _ => .pure _

theorem u16_failsOnly : u16.FailsOnly WireError.OfOctets := (word_failsOnly 2).bind fun _ => .pure _

theorem u32_failsOnly : u32.FailsOnly WireError.OfOctets := (word_failsOnly 4).bind fun _ => .pure _

theorem u64_failsOnly : u64.FailsOnly WireError.OfOctets := (word_failsOnly 8).bind fun _ => .pure _

theorem i32_failsOnly : i32.FailsOnly WireError.OfOctets := u32_failsOnly.bind fun _ => .pure _

theorem guid_failsOnly : guid.FailsOnly WireError.OfOctets :=
  u32_failsOnly.bind fun _ => u16_failsOnly.bind fun _ => u16_failsOnly.bind fun _ =>
    (block_failsOnly 8).bind fun _ => .pure _

theorem referentId_failsOnly : referentId.FailsOnly WireError.OfOctets :=
  u32_failsOnly.bind fun _ => .pure _

/-! ### Inside the object protocol -/

/-- The reader finds nothing wrong but that octets are no valid message. -/
def Malformed (reader : Reader OrpcError α) : Prop :=
  reader.FailsOnly fun error => error.kind = .malformed

theorem FailsOnly.lift {reader : Reader WireError α} (h : reader.FailsOnly WireError.OfOctets) :
    (liftM reader : Reader OrpcError α).Malformed :=
  FailsOnly.mapError fun order cursor error heq => OrpcError.kind_wire (h order cursor error heq)

/-- Nothing that the reader fails with is the fault of the program. -/
def Faultless (reader : Reader OrpcError α) : Prop :=
  reader.FailsOnly fun error => error.kind ≠ .callerFault

theorem Malformed.faultless {reader : Reader OrpcError α} (h : reader.Malformed) :
    reader.Faultless := by
  refine FailsOnly.mono h fun error hmalformed => ?_
  rw [hmalformed]
  decide

end Reader

end OrpcWire
