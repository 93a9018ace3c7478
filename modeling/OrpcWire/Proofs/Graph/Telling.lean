import OrpcWire.Proofs.Graph.Drain
import OrpcWire.Proofs.Graph.Parts

/-!
# Readers that tell what they take

A telling reader tells the parts of the octets it takes, from left to right: the octets it skips in
front of a field, and the octets of the field. The id word of a pointer that is not null is told as
an id.

There is a telling reader for each of the readers that graphs are made of. It goes the same way, and
without what it tells it is that reader (`Graph.erase_tell`).
-/

namespace OrpcWire

variable {α β : Type}

/-- A reader that also tells the parts of the octets it takes. -/
@[ext] structure Telling (α : Type) where
  run : ByteOrder → Cursor → Except WireError ((α × List Part) × Cursor)

namespace Telling

/-- The second reader goes on where the first one stopped, and what it tells comes behind. -/
protected def bind (telling : Telling α) (next : α → Telling β) : Telling β where
  run order cursor :=
    telling.run order cursor >>= fun ((a, parts), middle) =>
      ((next a).run order middle).map fun ((b, later), last) => ((b, parts ++ later), last)

instance : Monad Telling where
  pure a := ⟨fun _ cursor => .ok ((a, []), cursor)⟩
  bind := Telling.bind

/-- Nothing is told of what other readers take. -/
instance : MonadLift (Reader WireError) Telling where
  monadLift reader :=
    ⟨fun order cursor => (reader.run order cursor).map fun (a, next) => ((a, []), next)⟩

/-- The reader that is left when nothing is told. -/
def erase (telling : Telling α) : Reader WireError α :=
  ⟨fun order cursor => (telling.run order cursor).map fun ((a, _), next) => (a, next)⟩

theorem run_bind (telling : Telling α) (next : α → Telling β) (order : ByteOrder)
    (cursor : Cursor) :
    (telling >>= next).run order cursor = (telling.run order cursor >>= fun ((a, parts), middle) =>
      ((next a).run order middle).map fun ((b, later), last) => ((b, parts ++ later), last)) := rfl

theorem run_map (f : α → β) (telling : Telling α) (order : ByteOrder) (cursor : Cursor) :
    (f <$> telling).run order cursor = (telling.run order cursor).map fun ((a, parts), next) =>
      ((f a, parts), next) := by
  show (telling.run order cursor >>= fun ((a, parts), middle) =>
    Except.map (fun ((b, later), last) =>
      ((b, parts ++ later), last)) (.ok ((f a, []), middle))) = _
  cases telling.run order cursor with
  | error error => rfl
  | ok result =>
    show Except.ok ((f result.1.1, result.1.2 ++ []), result.2) = _
    rw [List.append_nil]
    rfl

theorem run_bind_eq_ok {telling : Telling α} {next : α → Telling β} {order : ByteOrder}
    {cursor last : Cursor} {b : β} {parts : List Part} :
    (telling >>= next).run order cursor = .ok ((b, parts), last) ↔ ∃ a first middle second,
      telling.run order cursor = .ok ((a, first), middle) ∧
      (next a).run order middle = .ok ((b, second), last) ∧
        parts = first ++ second := by
  rw [run_bind, bind_eq_ok_iff]
  constructor
  · rintro ⟨⟨⟨a, first⟩, middle⟩, hfirst, h⟩
    obtain ⟨⟨⟨b', second⟩, last'⟩, hsecond, heq⟩ := map_eq_ok_iff.1 h
    cases heq
    exact ⟨a, first, middle, second, hfirst, hsecond, rfl⟩
  · rintro ⟨a, first, middle, second, hfirst, hsecond, rfl⟩
    exact ⟨_, hfirst, map_eq_ok_iff.2 ⟨_, hsecond, rfl⟩⟩

theorem run_map_eq_ok {f : α → β} {telling : Telling α} {order : ByteOrder}
    {cursor last : Cursor} {b : β} {parts : List Part} :
    (f <$> telling).run order cursor = .ok ((b, parts), last) ↔
      ∃ a, telling.run order cursor = .ok ((a, parts), last) ∧ f a = b := by
  rw [run_map, map_eq_ok_iff]
  constructor
  · rintro ⟨⟨⟨a, parts⟩, last⟩, hrun, heq⟩
    cases heq
    exact ⟨a, hrun, rfl⟩
  · rintro ⟨a, hrun, rfl⟩
    exact ⟨_, hrun, rfl⟩

theorem erase_pure (a : α) : (pure a : Telling α).erase = pure a := rfl

theorem erase_bind (telling : Telling α) (next : α → Telling β) :
    (telling >>= next).erase = telling.erase >>= fun a => (next a).erase := by
  ext order cursor : 3
  rw [Reader.run_bind]
  show Except.map _ (telling.run order cursor >>= _) = _
  simp only [erase]
  cases telling.run order cursor with
  | error error => rfl
  | ok result =>
    obtain ⟨⟨a, parts⟩, middle⟩ := result
    show Except.map _ (Except.map _ ((next a).run order middle)) =
      Except.map _ ((next a).run order middle)
    cases (next a).run order middle <;> rfl

theorem erase_map (f : α → β) (telling : Telling α) :
    (f <$> telling).erase = f <$> telling.erase := by
  rw [← bind_pure_comp f telling.erase]
  exact erase_bind telling fun a => pure (f a)

theorem erase_lift (reader : Reader WireError α) : (liftM reader : Telling α).erase = reader := by
  ext order cursor : 3
  show Except.map _ (Except.map _ (reader.run order cursor)) = _
  cases reader.run order cursor <;> rfl

variable {telling : Telling α} {order : ByteOrder} {cursor : Cursor}

theorem run_erase_of_run {a : α} {parts : List Part} {next : Cursor}
    (h : telling.run order cursor = .ok ((a, parts), next)) :
    telling.erase.run order cursor = .ok (a, next) :=
  map_eq_ok_iff.2 ⟨_, h, rfl⟩

theorem exists_run_of_erase {a : α} {next : Cursor}
    (h : telling.erase.run order cursor = .ok (a, next)) :
    ∃ parts, telling.run order cursor = .ok ((a, parts), next) := by
  obtain ⟨⟨⟨b, parts⟩, last⟩, hrun, heq⟩ := map_eq_ok_iff.1 h
  cases heq
  exact ⟨parts, hrun⟩

/-! ### Fields -/

/-- How the octets of most fields are told. -/
def content (_order : ByteOrder) (octets : List UInt8) : Part := .content octets

/-- How the octets of an id word are told. -/
def idPart (order : ByteOrder) (octets : List UInt8) : Part :=
  if order.value octets = nullId.toNat then .content octets else .id (.ofNat (order.value octets))

/-- The octets skipped in front of a boundary, and `size` octets behind them that are told by
`part`. -/
def aligned (boundary size : Nat) (part : ByteOrder → List UInt8 → Part) : Telling (List UInt8) :=
  ⟨fun order cursor =>
    let skipped := padding boundary cursor.position
    ((Reader.octets (skipped + size)).run order cursor).map fun (taken, next) =>
      ((taken.drop skipped, [.padding (taken.take skipped), part order (taken.drop skipped)]),
        next)⟩

def word (size : Nat) (part : ByteOrder → List UInt8 → Part) : Telling Nat :=
  ⟨fun order cursor =>
    ((aligned size size part).run order cursor).map fun ((taken, parts), next) =>
      ((order.value taken, parts), next)⟩

def u8 : Telling UInt8 := UInt8.ofNat <$> word 1 content

def u16 : Telling UInt16 := UInt16.ofNat <$> word 2 content

def u32 : Telling UInt32 := UInt32.ofNat <$> word 4 content

def u64 : Telling UInt64 := UInt64.ofNat <$> word 8 content

def block (n : Nat) : Telling (Block n) :=
  ⟨fun order cursor => ((Reader.block n).run order cursor).map fun (taken, next) =>
    ((taken, [.content taken.octets]), next)⟩

def guid : Telling Guid := do
  let data1 ← u32
  let data2 ← u16
  let data3 ← u16
  let data4 ← block 8
  return ⟨data1, data2, data3, data4⟩

def align (boundary : Nat) : Telling Unit := do
  let _ ← aligned boundary 0 content

def referentId : Telling (Option UInt32) :=
  (fun n => if UInt32.ofNat n = nullId then none else some (UInt32.ofNat n)) <$> word 4 idPart

theorem erase_aligned (boundary size : Nat) (part : ByteOrder → List UInt8 → Part) :
    (aligned boundary size part).erase = Reader.aligned boundary size := by
  ext order cursor : 3
  simp only [erase, aligned, Reader.aligned]
  cases (Reader.octets (padding boundary cursor.position + size)).run order cursor <;> rfl

theorem erase_word (size : Nat) (part : ByteOrder → List UInt8 → Part) :
    (word size part).erase = Reader.word size := by
  ext order cursor : 3
  simp only [word, Reader.word, ← erase_aligned size size part, erase]
  cases (aligned size size part).run order cursor <;> rfl

theorem erase_ofNat_word {size : Nat} (part : ByteOrder → List UInt8 → Part) (ofNat : Nat → α) :
    (ofNat <$> word size part).erase = Reader.word size >>= fun n => pure (ofNat n) := by
  rw [erase_map, erase_word, bind_pure_comp]

theorem erase_u8 : u8.erase = Reader.u8 := erase_ofNat_word content UInt8.ofNat

theorem erase_u16 : u16.erase = Reader.u16 := erase_ofNat_word content UInt16.ofNat

theorem erase_u32 : u32.erase = Reader.u32 := erase_ofNat_word content UInt32.ofNat

theorem erase_u64 : u64.erase = Reader.u64 := erase_ofNat_word content UInt64.ofNat

theorem erase_block (n : Nat) : (block n).erase = Reader.block n := by
  ext order cursor : 3
  simp only [erase, block]
  cases (Reader.block n).run order cursor <;> rfl

theorem erase_guid : guid.erase = Reader.guid := by
  simp only [guid, erase_bind, erase_u32, erase_u16, erase_block, erase_pure]
  rfl

theorem erase_align (boundary : Nat) : (align boundary).erase = Reader.align boundary := by
  rw [align, erase_bind, erase_aligned]
  rfl

theorem erase_referentId : referentId.erase = Reader.referentId := by
  rw [referentId, erase_map, erase_word, ← bind_pure_comp, Reader.referentId,
    Reader.u32, bind_assoc]
  rfl

/-! ### Elements in a row -/

def count : Telling Nat := do
  let count ← u32
  if count.toNat ≤ elementLimit then
    return count.toNat
  else
    (Reader.fail (.limitExceeded count.toNat elementLimit) : Reader WireError Nat)

def hoistedCount (members : List Shape) : Telling (Option Nat) :=
  if Shape.isConformant members then some <$> count else pure none

def row (telling : Nat → Telling (Found α)) : Nat → Nat → Telling (Found (List α))
  | 0, _ => pure ⟨[], []⟩
  | count + 1, taken => do
    let first ← telling taken
    let others ← row telling count (taken + first.announced.length)
    return ⟨first.value :: others.value, first.announced ++ others.announced⟩

def elements (telling : Nat → Telling (Found α)) (count taken : Nat) : Telling (Found (List α)) :=
  ⟨fun order cursor =>
    if count ≤ cursor.rest.length then (row telling count taken).run order cursor
    else .error (.underflow count cursor.rest.length)⟩

theorem erase_count : count.erase = readCount := by
  rw [count, readCount, erase_bind, erase_u32]
  congr 1
  funext count
  split
  · rfl
  · exact erase_lift _

theorem erase_hoistedCount (members : List Shape) :
    (hoistedCount members).erase = readHoistedCount members := by
  unfold hoistedCount readHoistedCount
  split
  · rw [erase_map, erase_count]
  · rfl

theorem erase_row (telling : Nat → Telling (Found α)) (count taken : Nat) :
    (row telling count taken).erase = readRow (fun taken => (telling taken).erase) count taken := by
  induction count generalizing taken with
  | zero => rfl
  | succ count ih => simp only [row, readRow, erase_bind, erase_pure, ih]

theorem erase_elements (telling : Nat → Telling (Found α)) (count taken : Nat) :
    (elements telling count taken).erase =
      readElements (fun taken => (telling taken).erase) count taken := by
  ext order cursor : 3
  rw [run_readElements, ← erase_row]
  simp only [elements, erase]
  split <;> rfl

end Telling

/-! ### Values in place -/

namespace Shape

open Telling

mutual

def tell (limit : Option Nat) : Shape → Nat → Telling (Found Value)
  | .u8, _ => return ⟨.u8 (← Telling.u8), []⟩
  | .u16, _ => return ⟨.u16 (← Telling.u16), []⟩
  | .u32, _ => return ⟨.u32 (← Telling.u32), []⟩
  | .u64, _ => return ⟨.u64 (← Telling.u64), []⟩
  | .guid, _ => return ⟨.guid (← Telling.guid), []⟩
  | .pointer target, taken => do
    match ← Telling.referentId with
    | none => return ⟨.pointer none, []⟩
    | some id =>
      Reader.ofExcept (checkSlots limit taken)
      return ⟨.pointer (some taken), [⟨id, target⟩]⟩
  | .array element, taken => do
    let count ← Telling.count
    let found ← Telling.elements (tell limit element) count taken
    return found.map .array
  | .struct members, taken => do
    let count ← Telling.hoistedCount members
    Telling.align (alignment (.struct members))
    let found ← tellMembers limit members count taken
    return found.map .struct

def tellMembers (limit : Option Nat) : List Shape → Option Nat → Nat → Telling (Found (List Value))
  | [], _, _ => pure ⟨[], []⟩
  | [.array element], some count, taken => do
    let found ← Telling.elements (tell limit element) count taken
    return found.map ([.array ·])
  | member :: members, count, taken => do
    let first ← tell limit member taken
    let others ← tellMembers limit members count (taken + first.announced.length)
    return ⟨first.value :: others.value, first.announced ++ others.announced⟩

end

mutual

theorem erase_tell (limit : Option Nat) : (shape : Shape) → (taken : Nat) →
    (tell limit shape taken).erase = read limit shape taken
  | .u8, _ => by
    rw [tell, read, erase_bind, erase_u8]
    rfl
  | .u16, _ => by
    rw [tell, read, erase_bind, erase_u16]
    rfl
  | .u32, _ => by
    rw [tell, read, erase_bind, erase_u32]
    rfl
  | .u64, _ => by
    rw [tell, read, erase_bind, erase_u64]
    rfl
  | .guid, _ => by
    rw [tell, read, erase_bind, erase_guid]
    rfl
  | .pointer target, taken => by
    rw [tell, read, erase_bind, erase_referentId]
    congr 1
    funext id
    cases id with
    | none => rfl
    | some id =>
      rw [erase_bind, erase_lift]
      rfl
  | .array element, taken => by
    rw [tell, read, erase_bind, erase_count]
    simp only [erase_bind, erase_elements, erase_tell limit element, erase_pure]
  | .struct members, taken => by
    rw [tell, read, erase_bind, erase_hoistedCount]
    simp only [erase_bind, erase_align, erase_tellMembers limit members, erase_pure]

theorem erase_tellMembers (limit : Option Nat) : (members : List Shape) → (count : Option Nat) →
    (taken : Nat) → (tellMembers limit members count taken).erase =
      readMembers limit members count taken
  | [], count, taken => by
    rw [tellMembers, readMembers]
    rfl
  | member :: members, count, taken => by
    by_cases hspecial : ∃ element n, member = .array element ∧ members = [] ∧ count = some n
    · obtain ⟨element, n, rfl, rfl, rfl⟩ := hspecial
      rw [tellMembers, readMembers]
      simp only [erase_bind, erase_elements, erase_tell limit element, erase_pure]
    · have hmember : ∀ element n, count = some n → member = .array element → members = [] → False :=
        fun element n hcount hmember hmembers => hspecial ⟨element, n, hmember, hmembers, hcount⟩
      rw [tellMembers.eq_3 _ _ _ _ _ hmember, readMembers.eq_3 _ _ _ _ _ hmember]
      simp only [erase_bind, erase_tell limit member, erase_tellMembers limit members, erase_pure]

end

theorem run_read_of_tell {limit : Option Nat} {shape : Shape} {taken : Nat} {order : ByteOrder}
    {cursor next : Cursor} {found : Found Value} {parts : List Part}
    (h : (tell limit shape taken).run order cursor = .ok ((found, parts), next)) :
    (read limit shape taken).run order cursor = .ok (found, next) := by
  rw [← erase_tell]
  exact Telling.run_erase_of_run h

end Shape

/-! ### The whole graph -/

/-- The referents of a queue, with the parts of the octets they were taken from. -/
def tellReferents (limit : Option Nat) (order : ByteOrder) (queue : List Announcement) (taken : Nat)
    (cursor : Cursor) : Except WireError ((List Referent × List Part) × Cursor) :=
  match queue with
  | [] => .ok (([], []), cursor)
  | announcement :: queue =>
    match _h : (announcement.target.tell limit taken).run order cursor with
    | .error error => .error error
    | .ok ((found, parts), next) =>
      (tellReferents limit order (queue ++ found.announced)
        (taken + found.announced.length) next).map fun ((referents, later), last) =>
          ((⟨announcement.id, found.value⟩ :: referents, parts ++ later), last)
termination_by cursor.rest.length + queue.length
decreasing_by
  have := Shape.read_pays limit _ taken order cursor found next (Shape.run_read_of_tell _h)
  simp only [List.length_append, List.length_cons]
  omega

/-- The same as a reader. -/
def tellQueue (limit : Option Nat) (queue : List Announcement) (taken : Nat) :
    Telling (List Referent) :=
  ⟨fun order cursor => tellReferents limit order queue taken cursor⟩

def Graph.tell (limit : Option Nat) (shape : Shape) : Telling Graph := do
  let found ← shape.tell limit 0
  (⟨found.value, ·⟩) <$> tellQueue limit found.announced found.announced.length

theorem tellQueue_nil (limit : Option Nat) (taken : Nat) : tellQueue limit [] taken = pure [] := by
  unfold tellQueue
  simp only [tellReferents]
  rfl

theorem tellQueue_cons (limit : Option Nat) (announcement : Announcement)
    (queue : List Announcement) (taken : Nat) :
    tellQueue limit (announcement :: queue) taken = (do
      let found ← announcement.target.tell limit taken
      (⟨announcement.id, found.value⟩ :: ·) <$> tellQueue limit (queue ++ found.announced)
        (taken + found.announced.length)) := by
  ext order cursor : 3
  rw [Telling.run_bind]
  simp only [Telling.run_map]
  show tellReferents limit order (announcement :: queue) taken cursor = _
  rw [tellReferents]
  split
  · rename_i error herror
    rw [herror]
    rfl
  · rename_i found parts next hfound
    rw [hfound]
    show _ =
      Except.map _ (Except.map _ (tellReferents limit order (queue ++ found.announced) _ next))
    cases tellReferents limit order (queue ++ found.announced) (taken + found.announced.length) next
      <;> rfl

variable {limit : Option Nat} {order : ByteOrder}

theorem erase_tellQueue (queue : List Announcement) (taken : Nat) (cursor : Cursor) :
    (tellQueue limit queue taken).erase.run order cursor =
      readReferents limit order queue taken cursor := by
  induction queue, taken, cursor using queue_induction limit order with
  | nil taken cursor =>
    rw [tellQueue_nil, readReferents]
    rfl
  | cons announcement queue taken cursor ih =>
    rw [tellQueue_cons, readReferents_cons, Telling.erase_bind, Shape.erase_tell, Reader.run_bind]
    cases hfound : (announcement.target.read limit taken).run order cursor with
    | error error => rfl
    | ok result =>
      simp only [Telling.erase_map]
      rw [← ih result.1 result.2 hfound, ← bind_pure_comp, Reader.run_bind]
      cases (tellQueue limit (queue ++ result.1.announced)
        (taken + result.1.announced.length)).erase.run order result.2 <;>
        rfl

theorem Graph.erase_tell (limit : Option Nat) (shape : Shape) :
    (Graph.tell limit shape).erase = Graph.read limit shape := by
  ext order cursor : 3
  rw [tell, Telling.erase_bind, Shape.erase_tell, Reader.run_bind]
  simp only [read]
  cases (shape.read limit 0).run order cursor with
  | error error => rfl
  | ok result =>
    simp only [Telling.erase_map]
    rw [← bind_pure_comp, Reader.run_bind, erase_tellQueue]
    show _ = (readReferents limit order result.1.announced result.1.announced.length result.2 >>= _)
    cases readReferents limit order result.1.announced result.1.announced.length result.2 <;> rfl

end OrpcWire
