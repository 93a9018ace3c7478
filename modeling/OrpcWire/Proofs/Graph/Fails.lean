import OrpcWire.Proofs.Graph.Limit
import OrpcWire.Proofs.Wire.Fails

/-!
# How reading graphs fails

Whatever the shape and the limit, a graph is not read only because octets are missing or because
there is too much of something (`Graph.read_failsOnly`). So reading never finds a mismatch.
-/

namespace OrpcWire

open Reader (FailsOnly)

variable {α : Type} {limit : Option Nat}

theorem readCount_failsOnly : readCount.FailsOnly WireError.OfOctets := by
  refine Reader.u32_failsOnly.bind fun count => ?_
  split
  · exact .pure _
  · exact .fail rfl

theorem readHoistedCount_failsOnly (members : List Shape) :
    (readHoistedCount members).FailsOnly WireError.OfOctets := by
  unfold readHoistedCount
  split
  · exact readCount_failsOnly.map some
  · exact .pure _

theorem checkSlots_fails {taken : Nat} {error : WireError}
    (h : checkSlots limit taken = .error error) : error.OfOctets := by
  unfold checkSlots at h
  split at h
  · split at h
    · cases h
      rfl
    · cases h
  · cases h

theorem readElements_failsOnly {reader : Nat → Reader WireError (Found α)}
    (h : ∀ taken, (reader taken).FailsOnly WireError.OfOctets) (count taken : Nat) :
    (readElements reader count taken).FailsOnly WireError.OfOctets := by
  have hrow : ∀ taken, (readRow reader count taken).FailsOnly WireError.OfOctets := by
    induction count with
    | zero => exact fun _ => .pure _
    | succ count ih => exact fun taken => (h taken).bind fun _ => (ih _).bind fun _ => .pure _
  intro order cursor error heq
  rw [run_readElements] at heq
  split at heq
  · exact hrow taken order cursor error heq
  · cases heq
    rfl

namespace Shape

mutual

theorem read_failsOnly (limit : Option Nat) : (shape : Shape) → (taken : Nat) →
    (read limit shape taken).FailsOnly WireError.OfOctets
  | .u8, _ => by
    rw [read]
    exact Reader.u8_failsOnly.bind fun _ => .pure _
  | .u16, _ => by
    rw [read]
    exact Reader.u16_failsOnly.bind fun _ => .pure _
  | .u32, _ => by
    rw [read]
    exact Reader.u32_failsOnly.bind fun _ => .pure _
  | .u64, _ => by
    rw [read]
    exact Reader.u64_failsOnly.bind fun _ => .pure _
  | .guid, _ => by
    rw [read]
    exact Reader.guid_failsOnly.bind fun _ => .pure _
  | .pointer target, taken => by
    rw [read]
    refine Reader.referentId_failsOnly.bind fun id => ?_
    cases id with
    | none => exact .pure _
    | some id => exact FailsOnly.bind (.ofExcept fun _ => checkSlots_fails) fun _ => .pure _
  | .array element, taken => by
    rw [read]
    refine readCount_failsOnly.bind fun count => ?_
    exact (readElements_failsOnly (read_failsOnly limit element) count taken).bind fun _ => .pure _
  | .struct members, taken => by
    rw [read]
    refine (readHoistedCount_failsOnly members).bind fun count => ?_
    refine (Reader.align_failsOnly _).bind fun _ => ?_
    exact (readMembers_failsOnly limit members count taken).bind fun _ => .pure _

theorem readMembers_failsOnly (limit : Option Nat) :
    (members : List Shape) → (count : Option Nat) → (taken : Nat) →
    (readMembers limit members count taken).FailsOnly WireError.OfOctets
  | [], count, taken => by
    rw [readMembers]
    exact .pure _
  | member :: members, count, taken => by
    rw [readMembers.eq_def]
    split
    · exact .pure _
    · rename_i element count hmembers
      cases hmembers
      exact (readElements_failsOnly (read_failsOnly limit element) _ _).bind fun _ => .pure _
    · rename_i hmembers _
      cases hmembers
      refine (read_failsOnly limit member _).bind fun first => ?_
      exact (readMembers_failsOnly limit members _ _).bind fun _ => .pure _

end

end Shape

theorem readReferents_fails {order : ByteOrder} {queue : List Announcement} {taken : Nat}
    {cursor : Cursor} {error : WireError}
    (h : readReferents limit order queue taken cursor = .error error) : error.OfOctets := by
  induction queue, taken, cursor using queue_induction limit order with
  | nil taken cursor =>
    rw [readReferents] at h
    cases h
  | cons announcement queue taken cursor ih =>
    rw [readReferents_cons_bind] at h
    rcases bind_eq_error_iff.1 h with hfirst | ⟨⟨found, next⟩, hfound, hothers⟩
    · exact Shape.read_failsOnly limit announcement.target taken order cursor error hfirst
    · rcases bind_eq_error_iff.1 hothers with hlater | ⟨_, _, hpure⟩
      · exact ih found next hfound hlater
      · cases hpure

namespace Graph

/-- Reading a graph fails for want of octets or for an excess of elements or referents. -/
theorem read_failsOnly (limit : Option Nat) (shape : Shape) :
    (read limit shape).FailsOnly WireError.OfOctets := by
  intro order cursor error h
  rcases bind_eq_error_iff.1 h with hroot | ⟨⟨found, next⟩, _, h⟩
  · exact Shape.read_failsOnly limit shape 0 order cursor error hroot
  · rcases bind_eq_error_iff.1 h with hreferents | ⟨_, _, hpure⟩
    · exact readReferents_fails hreferents
    · cases hpure

end Graph

end OrpcWire
