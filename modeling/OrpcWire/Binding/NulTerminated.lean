import OrpcWire.Error
import OrpcWire.Text.Utf16

/-!
# Text up to a zero unit

Names and addresses in bindings are UTF-16 units followed by a zero unit, so a text with the
character U+0000 in it cannot be sent.
-/

namespace OrpcWire

def hasNul (text : String) : Bool := text.toList.contains '\x00'

/-- The units of a text and the zero unit behind them. -/
def nulTerminated (text : String) : Layout := (Utf16.units text).map .u16 ++ [.u16 0]

namespace Reader

/-- A unit that is not zero. -/
def unit? : Reader WireError (Option UInt16) := do
  let unit ← u16
  return if unit = 0 then none else some unit

theorem unit?_uses : unit?.Uses 2 := u16_uses.bind fun _ => Uses.pure _

/-- The units up to a zero unit, which is read but not kept. -/
def unitsToNul : Reader WireError (List UInt16) := collect unit? (unit?_uses.progresses (by omega))

/-- The text up to a zero unit. Units that are no text fail with `error`. -/
def textToNul (error : OrpcError) : Reader OrpcError String := do
  let units ← unitsToNul
  ofExcept ((Utf16.text? units).elim (.error error) .ok)

theorem textToNul_uses (error : OrpcError) : (textToNul error).Uses 0 :=
  Uses.bind (m := 0) (n := 0) (collect_uses _ _ (unit?_uses.mono (by omega))).lift fun _ =>
    Uses.ofExcept _

end Reader

end OrpcWire
