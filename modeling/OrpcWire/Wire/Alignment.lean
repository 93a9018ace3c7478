/-!
# Alignment

A field with boundary `b` starts at a stream position that `b` divides. The octets skipped in front
of it are its padding, counted from the start of the stream and not of the buffer at hand.
Boundaries 0 and 1 ask for nothing.
-/

namespace OrpcWire

/-- How many octets separate `position` from the next multiple of `boundary`. -/
def padding (boundary position : Nat) : Nat :=
  if boundary ≤ 1 then 0 else (boundary - position % boundary) % boundary

@[simp] theorem padding_zero (position : Nat) : padding 0 position = 0 := rfl

@[simp] theorem padding_one (position : Nat) : padding 1 position = 0 := rfl

theorem padding_lt {boundary : Nat} (hboundary : 0 < boundary) (position : Nat) :
    padding boundary position < boundary := by
  unfold padding
  split
  · exact hboundary
  · exact Nat.mod_lt _ hboundary

theorem add_padding_mod (boundary position : Nat) (hboundary : 0 < boundary) :
    (position + padding boundary position) % boundary = 0 := by
  unfold padding
  split
  · have : boundary = 1 := by omega
    subst this
    exact Nat.mod_one _
  · have hlt := Nat.mod_lt position hboundary
    rw [Nat.add_mod, Nat.mod_mod]
    by_cases h : position % boundary = 0
    · simp [h]
    · rw [Nat.mod_eq_of_lt (by omega : boundary - position % boundary < boundary)]
      rw [show position % boundary + (boundary - position % boundary) = boundary by omega]
      exact Nat.mod_self boundary

theorem padding_eq_zero {boundary position : Nat} (h : position % boundary = 0) :
    padding boundary position = 0 := by
  unfold padding
  split
  · rfl
  · rw [h, Nat.sub_zero, Nat.mod_self]

end OrpcWire
