import OrpcWire.Wire.Reader

/-!
# Protocol versions
-/

namespace OrpcWire

/-- The version of the protocol that the sender of a request speaks. -/
structure ComVersion where
  major : UInt16 := 0
  minor : UInt16 := 0
  deriving DecidableEq, Repr, Inhabited

namespace ComVersion

def size : Nat := 4

def v5_1 : ComVersion := ⟨5, 1⟩
def v5_4 : ComVersion := ⟨5, 4⟩
def v5_6 : ComVersion := ⟨5, 6⟩
def v5_7 : ComVersion := ⟨5, 7⟩

def layout (version : ComVersion) : Layout := [.u16 version.major, .u16 version.minor]

def read : Reader WireError ComVersion := return ⟨← Reader.u16, ← Reader.u16⟩

end ComVersion

end OrpcWire
