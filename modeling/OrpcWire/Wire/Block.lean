/-!
# Blocks

A block is an octet string of a length known in advance. It is copied to and from the wire as it
stands, in either byte order.
-/

namespace OrpcWire

structure Block (n : Nat) where
  octets : List UInt8
  length_eq : octets.length = n
  deriving DecidableEq, Repr

namespace Block

@[ext] theorem ext {n : Nat} {a b : Block n} (h : a.octets = b.octets) : a = b := by
  cases a
  cases b
  simp_all

def zero (n : Nat) : Block n := ⟨List.replicate n 0, List.length_replicate⟩

instance (n : Nat) : Inhabited (Block n) := ⟨zero n⟩

attribute [simp] length_eq

/-- The first `m` octets of a block that has more. -/
def first {n : Nat} (block : Block n) (m : Nat) (h : m ≤ n) : Block m :=
  ⟨block.octets.take m, by simp [block.length_eq, h]⟩

end Block

end OrpcWire
