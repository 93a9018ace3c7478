import OrpcWire.Wire.Reader

/-!
# Referent ids

A pointer is a word in place: zero for the null pointer, any other word announces a referent that
follows later. Writers draw the words from a counter that is shared by all parts of a message, so
that no id is used twice in it.
-/

namespace OrpcWire

def nullId : UInt32 := 0

def firstId : UInt32 := 0x00020000

/-- The ids not yet given out. -/
structure IdSupply where
  next : UInt32 := firstId
  deriving DecidableEq, Repr, Inhabited

namespace IdSupply

def fresh : IdSupply := {}

/-- The counter after `next` is given out: four further on, or back at the start rather than at the
null id. -/
def advance (ids : IdSupply) : IdSupply :=
  if ids.next + 4 = nullId then fresh else ⟨ids.next + 4⟩

def draw : Nat → IdSupply → List UInt32 × IdSupply
  | 0, ids => ([], ids)
  | n + 1, ids =>
    let (later, last) := draw n ids.advance
    (ids.next :: later, last)

end IdSupply

/-- The id word of a pointer, none for the null pointer. -/
def Reader.referentId : Reader WireError (Option UInt32) := do
  let id ← u32
  return if id = nullId then none else some id

theorem Reader.referentId_uses : referentId.Uses 4 := u32_uses.bind fun _ => Uses.pure _

end OrpcWire
