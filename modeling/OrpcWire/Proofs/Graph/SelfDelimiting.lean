import OrpcWire.Proofs.Graph.Limit
import OrpcWire.Proofs.Graph.Taking
import OrpcWire.Proofs.Wire.SelfDelimiting

/-!
# Graphs know where they end

Reading a graph by a shape is self-delimiting if the elements of all arrays of the shape take octets
(`Graph.read_selfDelimiting`).

The condition is needed where elements are counted against the octets that are left before the first
of them is read. That check looks ahead. It passes on the octets of the elements alone only if there
are as many as elements (`readRow_uses`), and when it fails on a part of them it says what the
reader of the first element missing would have said, that octets are missing.
-/

namespace OrpcWire

open Reader (SelfDelimiting)

variable {α : Type} {limit : Option Nat}

theorem readCount_selfDelimiting : readCount.SelfDelimiting WireError.IsUnderflow := by
  refine Reader.u32_selfDelimiting.bind fun count => ?_
  split
  · exact .pure _
  · exact .fail _

theorem readHoistedCount_selfDelimiting (members : List Shape) :
    (readHoistedCount members).SelfDelimiting WireError.IsUnderflow := by
  unfold readHoistedCount
  split
  · exact readCount_selfDelimiting.map some
  · exact .pure _

/-! ### Elements -/

section

variable {reader : Nat → Reader WireError (Found α)}

theorem readRow_uses {size : Nat} (h : ∀ taken, (reader taken).Uses size) (count taken : Nat) :
    (readRow reader count taken).Uses (size * count) := by
  induction count generalizing taken with
  | zero => exact .pure _
  | succ count ih =>
    rw [readRow, Nat.mul_succ, Nat.add_comm]
    exact (h taken).bind fun _ => (ih _).bind fun _ => .pure _

theorem readRow_selfDelimiting (h : ∀ taken, (reader taken).SelfDelimiting WireError.IsUnderflow)
    (count taken : Nat) : (readRow reader count taken).SelfDelimiting WireError.IsUnderflow := by
  induction count generalizing taken with
  | zero => exact .pure _
  | succ count ih => exact (h taken).bind fun _ => (ih _).bind fun _ => .pure _

theorem readElements_selfDelimiting
    (h : ∀ taken, (reader taken).SelfDelimiting WireError.IsUnderflow)
    (huses : ∀ taken, (reader taken).Uses 1) (count taken : Nat) :
    (readElements reader count taken).SelfDelimiting WireError.IsUnderflow := by
  intro order cursor found next heq
  rw [run_readElements] at heq
  split at heq
  · obtain ⟨used, hused⟩ := readRow_selfDelimiting h count taken order cursor found next heq
    have hroom : count ≤ used.length := by
      have huse := readRow_uses huses count taken order cursor found next heq
      rw [hused.rest_eq, List.length_append, Nat.one_mul] at huse
      omega
    refine ⟨used, hused.rest_eq, hused.position_eq, fun rest => ?_, fun k hk => ?_⟩
    · rw [run_readElements, if_pos (by rw [List.length_append]; omega)]
      exact hused.whole rest
    · rw [run_readElements]
      split
      · exact hused.cut k hk
      · exact ⟨_, rfl, _, _, rfl⟩
  · cases heq

end

/-! ### Values in place -/

namespace Shape

theorem read_uses {shape : Shape} (htakes : shape.takesNothing = false) (taken : Nat) :
    (read limit shape taken).Uses 1 := by
  intro order cursor found next heq
  obtain ⟨written, hwritten, account⟩ := read_accounts limit shape taken order cursor found next heq
  have hlength := account.between.length_eq
  have hposition : cursor.position < next.position := by
    rw [account.between.position_eq]
    exact takes_of_pieces hwritten htakes _ _
  omega

theorem elementsTake_of_read {shape : Shape} {taken : Nat} {order : ByteOrder}
    {cursor next : Cursor} {found : Found Value}
    (h : (read limit shape taken).run order cursor = .ok (found, next))
    (htake : shape.elementsTake = true) : ∀ announcement ∈ found.announced,
      announcement.target.elementsTake = true := by
  obtain ⟨written, hwritten, account⟩ := read_accounts limit shape taken order cursor found next h
  exact account.elementsTake hwritten htake

mutual

theorem read_selfDelimiting (limit : Option Nat) :
    (shape : Shape) → (taken : Nat) → shape.elementsTake = true →
    (read limit shape taken).SelfDelimiting WireError.IsUnderflow
  | .u8, _, _ => by
    rw [read]
    exact Reader.u8_selfDelimiting.bind fun _ => .pure _
  | .u16, _, _ => by
    rw [read]
    exact Reader.u16_selfDelimiting.bind fun _ => .pure _
  | .u32, _, _ => by
    rw [read]
    exact Reader.u32_selfDelimiting.bind fun _ => .pure _
  | .u64, _, _ => by
    rw [read]
    exact Reader.u64_selfDelimiting.bind fun _ => .pure _
  | .guid, _, _ => by
    rw [read]
    exact Reader.guid_selfDelimiting.bind fun _ => .pure _
  | .pointer target, taken, _ => by
    rw [read]
    refine Reader.referentId_selfDelimiting.bind fun id => ?_
    cases id with
    | none => exact .pure _
    | some id => exact SelfDelimiting.bind (.ofExcept _) fun _ => .pure _
  | .array element, taken, htake => by
    rw [elementsTake, Bool.and_eq_true, Bool.not_eq_true'] at htake
    rw [read]
    refine readCount_selfDelimiting.bind fun count => ?_
    exact (readElements_selfDelimiting (fun taken =>
      read_selfDelimiting limit element taken htake.2)
      (read_uses htake.1) count taken).bind fun _ => .pure _
  | .struct members, taken, htake => by
    rw [read]
    refine (readHoistedCount_selfDelimiting members).bind fun count => ?_
    refine (Reader.align_selfDelimiting _).bind fun _ => ?_
    exact (readMembers_selfDelimiting limit members count taken htake).bind fun _ => .pure _

theorem readMembers_selfDelimiting (limit : Option Nat) :
    (members : List Shape) → (count : Option Nat) → (taken : Nat) → allElementsTake members = true →
    (readMembers limit members count taken).SelfDelimiting WireError.IsUnderflow
  | [], count, taken, _ => by
    rw [readMembers]
    exact .pure _
  | member :: members, count, taken, htake => by
    rw [allElementsTake, Bool.and_eq_true] at htake
    rw [readMembers.eq_def]
    split
    · exact .pure _
    · rename_i element count hmembers
      cases hmembers
      have helement := htake.1
      rw [elementsTake, Bool.and_eq_true, Bool.not_eq_true'] at helement
      exact (readElements_selfDelimiting (fun taken =>
        read_selfDelimiting limit element taken helement.2)
        (read_uses helement.1) _ _).bind fun _ => .pure _
    · rename_i hmembers _
      cases hmembers
      refine (read_selfDelimiting limit member _ htake.1).bind fun first => ?_
      exact (readMembers_selfDelimiting limit members _ _ htake.2).bind fun _ => .pure _

end

end Shape

/-! ### The whole graph -/

theorem readReferents_delimited {order : ByteOrder} {queue : List Announcement} {taken : Nat}
    {cursor last : Cursor} {referents : List Referent}
    (htake : ∀ announcement ∈ queue, announcement.target.elementsTake = true)
    (h : readReferents limit order queue taken cursor = .ok (referents, last)) :
    ∃ used,
      Delimited WireError.IsUnderflow (readReferents limit order queue taken) used cursor last
        referents := by
  induction queue, taken, cursor using queue_induction limit order generalizing referents with
  | nil taken cursor =>
    rw [readReferents] at h
    cases h
    exact ⟨[], .nothing fun rest => by rw [readReferents]⟩
  | cons announcement queue taken cursor ih =>
    obtain ⟨hfirst, hqueue⟩ := List.forall_mem_cons.1 htake
    rw [readReferents_cons_bind] at h
    obtain ⟨⟨found, middle⟩, hfound, h⟩ := bind_eq_ok_iff.1 h
    obtain ⟨⟨others, last'⟩, hothers, hpure⟩ := bind_eq_ok_iff.1 h
    cases hpure
    have hnext : ∀ later ∈ queue ++ found.announced, later.target.elementsTake = true := by
      intro later hmem
      rcases List.mem_append.1 hmem with hmem | hmem
      · exact hqueue later hmem
      · exact Shape.elementsTake_of_read hfound hfirst later hmem
    obtain ⟨used, hused⟩ :=
      Shape.read_selfDelimiting limit announcement.target taken hfirst order cursor found
        middle hfound
    obtain ⟨used', hused'⟩ := ih found middle hfound hnext hothers
    have hboth := hused.bind (fun found cursor =>
      (readReferents limit order (queue ++ found.announced)
        (taken + found.announced.length) cursor).map
        fun rest => (⟨announcement.id, found.value⟩ :: rest.1, rest.2)) (hused'.map _)
    refine ⟨used ++ used', hboth.congr fun octets => ?_⟩
    rw [readReferents_cons]
    cases (announcement.target.read limit taken).run order ⟨cursor.position, octets⟩ <;> rfl

/-- Whatever the limit is. -/
theorem Graph.read_selfDelimiting (limit : Option Nat) {shape : Shape}
    (htake : shape.elementsTake = true) :
    (read limit shape).SelfDelimiting WireError.IsUnderflow := by
  intro order cursor graph last h
  obtain ⟨⟨found, middle⟩, hfound, h⟩ := bind_eq_ok_iff.1 h
  obtain ⟨⟨referents, last'⟩, hreferents, hpure⟩ := bind_eq_ok_iff.1 h
  cases hpure
  obtain ⟨used, hused⟩ :=
    Shape.read_selfDelimiting limit shape 0 htake order cursor found middle hfound
  obtain ⟨used', hused'⟩ :=
    readReferents_delimited (Shape.elementsTake_of_read hfound htake) hreferents
  have hboth := hused.bind (fun found cursor =>
    (readReferents limit order found.announced found.announced.length cursor).map
      fun rest => ((⟨found.value, rest.1⟩ : Graph), rest.2)) (hused'.map _)
  exact ⟨used ++ used', hboth.congr fun octets => rfl⟩

end OrpcWire
