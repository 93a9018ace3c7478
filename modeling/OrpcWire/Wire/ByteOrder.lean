/-!
# Byte order and words as octets

A word of `size` octets stands on the wire least significant octet first (`little`) or last (`big`).
The number behind the octets is a `Nat`, so one pair of functions serves every width. The two
directions undo each other: `ByteOrder.value_octets` and `ByteOrder.octets_value`.
-/

namespace OrpcWire

/-- The order in which the octets of a word are sent. -/
inductive ByteOrder where
  | little
  | big
  deriving DecidableEq, Repr, Inhabited

/-- The `size` low octets of `n`, least significant first. -/
def lowOctets : Nat → Nat → List UInt8
  | 0, _ => []
  | size + 1, n => UInt8.ofNat n :: lowOctets size (n / 256)

/-- The number with the given octets, least significant first. -/
def ofLowOctets : List UInt8 → Nat
  | [] => 0
  | octet :: octets => octet.toNat + 256 * ofLowOctets octets

/-- How many numbers a word of `size` octets stands for. -/
def wordValues : Nat → Nat
  | 0 => 1
  | size + 1 => 256 * wordValues size

@[simp] theorem length_lowOctets (size n : Nat) : (lowOctets size n).length = size := by
  induction size generalizing n with
  | zero => rfl
  | succ size ih => simp [lowOctets, ih]

theorem ofLowOctets_lowOctets (size n : Nat) :
    ofLowOctets (lowOctets size n) = n % wordValues size := by
  induction size generalizing n with
  | zero => simp [lowOctets, ofLowOctets, wordValues, Nat.mod_one]
  | succ size ih =>
    rw [lowOctets, ofLowOctets, ih, wordValues, Nat.mod_mul]
    simp

theorem ofLowOctets_lt (octets : List UInt8) : ofLowOctets octets < wordValues octets.length := by
  induction octets with
  | nil => simp [ofLowOctets, wordValues]
  | cons octet octets ih =>
    have hoctet := octet.toNat_lt
    rw [ofLowOctets, List.length_cons, wordValues]
    omega

theorem lowOctets_ofLowOctets (octets : List UInt8) :
    lowOctets octets.length (ofLowOctets octets) = octets := by
  induction octets with
  | nil => rfl
  | cons octet octets ih =>
    have hoctet := octet.toNat_lt
    have hlow : UInt8.ofNat (octet.toNat + 256 * ofLowOctets octets) = octet := by
      apply UInt8.toNat_inj.1
      rw [UInt8.toNat_ofNat']
      omega
    have hhigh : (octet.toNat + 256 * ofLowOctets octets) / 256 = ofLowOctets octets := by omega
    rw [ofLowOctets, List.length_cons, lowOctets, hlow, hhigh, ih]

namespace ByteOrder

/-- Puts octets given least significant first into this order, and back. -/
def arrange (order : ByteOrder) (octets : List UInt8) : List UInt8 :=
  match order with
  | .little => octets
  | .big => octets.reverse

@[simp] theorem length_arrange (order : ByteOrder) (octets : List UInt8) :
    (order.arrange octets).length = octets.length := by
  cases order <;> simp [arrange]

@[simp] theorem arrange_arrange (order : ByteOrder) (octets : List UInt8) :
    order.arrange (order.arrange octets) = octets := by
  cases order <;> simp [arrange]

/-- The word `n` of `size` octets as it is sent. -/
def octets (order : ByteOrder) (size n : Nat) : List UInt8 :=
  order.arrange (lowOctets size n)

def value (order : ByteOrder) (octets : List UInt8) : Nat :=
  ofLowOctets (order.arrange octets)

@[simp] theorem length_octets (order : ByteOrder) (size n : Nat) :
    (order.octets size n).length = size := by
  simp [octets]

theorem value_octets (order : ByteOrder) (size n : Nat) :
    order.value (order.octets size n) = n % wordValues size := by
  simp [value, octets, ofLowOctets_lowOctets]

theorem value_octets_of_lt (order : ByteOrder) {size n : Nat} (h : n < wordValues size) :
    order.value (order.octets size n) = n := by
  rw [value_octets, Nat.mod_eq_of_lt h]

theorem value_lt (order : ByteOrder) (octets : List UInt8) :
    order.value octets < wordValues octets.length := by
  have h := ofLowOctets_lt (order.arrange octets)
  rwa [length_arrange] at h

theorem octets_value (order : ByteOrder) (octets : List UInt8) :
    order.octets octets.length (order.value octets) = octets := by
  have h := lowOctets_ofLowOctets (order.arrange octets)
  rw [length_arrange] at h
  rw [ByteOrder.octets, value, h, arrange_arrange]

end ByteOrder

end OrpcWire
