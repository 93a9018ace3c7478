import OrpcWire.Graph.Basic
import OrpcWire.Wire.IdSupply

/-!
# Announcements

A shape is read in place. Each id word that is not null announces a referent: it takes the next
slot, and the referent is read later. An id that repeats announces a referent of its own.

Counts are checked before anything is built: against `elementLimit`, against the octets that are
left, and the number of slots against a limit if there is one. Each announcement is paid for with
the four octets of its id word (`Shape.read_pays`).
-/

namespace OrpcWire

/-- The largest element count that is accepted. -/
def elementLimit : Nat := 1 <<< 20

/-- A referent that follows later. -/
structure Announcement where
  id : UInt32
  target : Shape
  deriving Repr, Inhabited

/-- What was read in place, and which referents were announced in it. -/
structure Found (α : Type) where
  value : α
  announced : List Announcement := []
  deriving Repr

def Found.map {α β : Type} (f : α → β) (found : Found α) : Found β :=
  ⟨f found.value, found.announced⟩

/-- The count word in front of array elements. -/
def readCount : Reader WireError Nat := do
  let count ← Reader.u32
  if count.toNat ≤ elementLimit then
    return count.toNat
  else
    Reader.fail (.limitExceeded count.toNat elementLimit)

/-- The count word hoisted in front of a structure, if its members call for one. -/
def readHoistedCount (members : List Shape) : Reader WireError (Option Nat) :=
  if Shape.isConformant members then some <$> readCount else pure none

/-- Refuses a further slot behind `taken` ones if that is beyond the limit. -/
def checkSlots (limit : Option Nat) (taken : Nat) : Except WireError Unit :=
  match limit with
  | some limit => if limit ≤ taken then .error (.limitExceeded (taken + 1) limit) else .ok ()
  | none => .ok ()

/-- Repeats a reader that is told how many slots are taken, behind the values and announcements
found so far, which are kept backwards. -/
def readElementsOnto {α : Type} (reader : Nat → Reader WireError (Found α)) (order : ByteOrder) :
    Nat → Nat → Cursor → List α → List Announcement → Except WireError (Found (List α) × Cursor)
  | 0, _, cursor, values, announced => .ok (⟨values.reverse, announced.reverse⟩, cursor)
  | count + 1, taken, cursor, values, announced =>
    match (reader taken).run order cursor with
    | .error error => .error error
    | .ok (found, cursor) =>
      readElementsOnto reader order count (taken + found.announced.length) cursor
        (found.value :: values) (found.announced.reverse ++ announced)

/-- `count` elements in a row. There must be as many octets as elements, as if each of them took
one. -/
def readElements {α : Type} (reader : Nat → Reader WireError (Found α)) (count taken : Nat) :
    Reader WireError (Found (List α)) where
  run order cursor :=
    -- The octets that are left are counted no further than needed.
    if (cursor.rest.take count).length = count then
      readElementsOnto reader order count taken cursor [] []
    else
      .error (.underflow count cursor.rest.length)

namespace Shape

mutual

/-- Reads a value in place, behind `taken` slots. -/
def read (limit : Option Nat) : Shape → Nat → Reader WireError (Found Value)
  | .u8, _ => return ⟨.u8 (← Reader.u8), []⟩
  | .u16, _ => return ⟨.u16 (← Reader.u16), []⟩
  | .u32, _ => return ⟨.u32 (← Reader.u32), []⟩
  | .u64, _ => return ⟨.u64 (← Reader.u64), []⟩
  | .guid, _ => return ⟨.guid (← Reader.guid), []⟩
  | .pointer target, taken => do
    match ← Reader.referentId with
    | none => return ⟨.pointer none, []⟩
    | some id =>
      Reader.ofExcept (checkSlots limit taken)
      return ⟨.pointer (some taken), [⟨id, target⟩]⟩
  | .array element, taken => do
    let count ← readCount
    let found ← readElements (read limit element) count taken
    return found.map .array
  | .struct members, taken => do
    let count ← readHoistedCount members
    Reader.align (alignment (.struct members))
    let found ← readMembers limit members count taken
    return found.map .struct

/-- Reads the members of a structure one after the other, a last array with the count given. -/
def readMembers (limit : Option Nat) :
    List Shape → Option Nat → Nat → Reader WireError (Found (List Value))
  | [], _, _ => pure ⟨[], []⟩
  | [.array element], some count, taken => do
    let found ← readElements (read limit element) count taken
    return found.map ([.array ·])
  | member :: members, count, taken => do
    let first ← read limit member taken
    let others ← readMembers limit members count (taken + first.announced.length)
    return ⟨first.value :: others.value, first.announced ++ others.announced⟩

end

end Shape

/-! ## announcements are paid for -/

/-- Every announcement costs four octets. -/
def Pays {α : Type} (reader : Reader WireError (Found α)) : Prop :=
  ∀ order cursor found next, reader.run order cursor = .ok (found, next) →
    next.rest.length + 4 * found.announced.length ≤ cursor.rest.length

namespace Pays

variable {α β : Type}

theorem pure (value : α) : Pays (pure ⟨value, []⟩) := by
  intro order cursor found next heq
  cases heq
  simp

theorem bind {reader : Reader WireError α} {n : Nat} {next : α → Reader WireError (Found β)}
    (h : reader.Uses n) (hnext : ∀ a, Pays (next a)) : Pays (reader >>= next) := by
  intro order cursor found last heq
  obtain ⟨a, middle, ha, heq⟩ := Reader.run_bind_eq_ok.1 heq
  have h1 := h order cursor a middle ha
  have h2 := hnext a order middle found last heq
  omega

theorem map {reader : Reader WireError (Found α)} (h : Pays reader) (f : α → β) :
    Pays (reader >>= fun found => Pure.pure (found.map f)) := by
  intro order cursor found last heq
  obtain ⟨found', middle, hfound, heq⟩ := Reader.run_bind_eq_ok.1 heq
  cases heq
  exact h order cursor found' _ hfound

theorem elementsOnto {reader : Nat → Reader WireError (Found α)} (h : ∀ taken, Pays (reader taken))
    {order : ByteOrder} {count taken : Nat} {cursor last : Cursor} {values : List α}
    {announced : List Announcement} {found : Found (List α)}
    (heq : readElementsOnto reader order count taken cursor values announced = .ok (found, last)) :
    last.rest.length + 4 * found.announced.length ≤ cursor.rest.length + 4 * announced.length := by
  induction count generalizing taken cursor values announced with
  | zero =>
    cases heq
    simp
  | succ count ih =>
    rw [readElementsOnto] at heq
    cases hone : (reader taken).run order cursor with
    | error error => rw [hone] at heq; cases heq
    | ok result =>
      rw [hone] at heq
      have h1 := h taken order cursor result.1 result.2 hone
      have h2 := ih heq
      simp only [List.length_append, List.length_reverse] at h2
      omega

theorem elements {reader : Nat → Reader WireError (Found α)} (h : ∀ taken, Pays (reader taken))
    (count taken : Nat) : Pays (readElements reader count taken) := by
  intro order cursor found next heq
  simp only [readElements] at heq
  split at heq
  · simpa using elementsOnto h heq
  · cases heq

end Pays

theorem readCount_uses : readCount.Uses 4 :=
  Reader.Uses.bind (n := 0) Reader.u32_uses fun _ => by
    split
    · exact Reader.Uses.pure _
    · exact Reader.Uses.fail _ _

theorem readHoistedCount_uses (members : List Shape) : (readHoistedCount members).Uses 0 := by
  unfold readHoistedCount
  split
  · rw [← bind_pure_comp]
    exact (readCount_uses.bind fun _ => Reader.Uses.pure _).mono (by omega)
  · exact Reader.Uses.pure _

namespace Shape

mutual

theorem read_pays (limit : Option Nat) : (shape : Shape) → (taken : Nat) →
    Pays (read limit shape taken)
  | .u8, taken => by rw [read]; exact Pays.bind Reader.u8_uses fun _ => Pays.pure _
  | .u16, taken => by rw [read]; exact Pays.bind Reader.u16_uses fun _ => Pays.pure _
  | .u32, taken => by rw [read]; exact Pays.bind Reader.u32_uses fun _ => Pays.pure _
  | .u64, taken => by rw [read]; exact Pays.bind Reader.u64_uses fun _ => Pays.pure _
  | .guid, taken => by rw [read]; exact Pays.bind Reader.guid_uses fun _ => Pays.pure _
  | .pointer target, taken => by
    rw [read]
    intro order cursor found next heq
    obtain ⟨id, middle, hid, heq⟩ := Reader.run_bind_eq_ok.1 heq
    have hused := Reader.referentId_uses order cursor id middle hid
    cases id with
    | none =>
      cases heq
      simp only [List.length_nil]
      omega
    | some id =>
      obtain ⟨_, last, hslots, heq⟩ := Reader.run_bind_eq_ok.1 heq
      have := Reader.Uses.ofExcept (checkSlots limit taken) order middle _ last hslots
      cases heq
      simp only [List.length_singleton]
      omega
  | .array element, taken => by
    rw [read]
    exact Pays.bind readCount_uses fun count =>
      Pays.map (Pays.elements (read_pays limit element) _ _) _
  | .struct members, taken => by
    rw [read]
    exact Pays.bind (readHoistedCount_uses members) fun count =>
      Pays.bind (Reader.align_uses _) fun _ =>
      Pays.map (readMembers_pays limit members count taken) _

theorem readMembers_pays (limit : Option Nat) : (members : List Shape) → (count : Option Nat) →
    (taken : Nat) → Pays (readMembers limit members count taken)
  | [], count, taken => by
    rw [readMembers]
    exact Pays.pure _
  | member :: members, count, taken => by
    rw [readMembers.eq_def]
    split
    · exact Pays.pure _
    · rename_i element count hmembers
      cases hmembers
      exact Pays.map (Pays.elements (read_pays limit element) _ _) _
    · rename_i hmembers _
      cases hmembers
      intro order cursor found last heq
      obtain ⟨first, middle, hfirst, heq⟩ := Reader.run_bind_eq_ok.1 heq
      obtain ⟨others, last', hothers, heq⟩ := Reader.run_bind_eq_ok.1 heq
      cases heq
      have h1 := read_pays limit member _ order cursor first middle hfirst
      have h2 := readMembers_pays limit members _ _ order middle others last hothers
      simp only [List.length_append]
      omega

end

end Shape

end OrpcWire
