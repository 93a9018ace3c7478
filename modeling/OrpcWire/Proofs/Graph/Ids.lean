import OrpcWire.Graph.Decode
import OrpcWire.Graph.Encode
import OrpcWire.Proofs.Wire.IdSupply

/-!
# Ids in stream order

Writers give ids to the references among pieces (`Piece.withIds`), readers find announcements with
ids and give slots to them (`Announcement.references`). Both go from left to right, so the k-th id
of a message belongs to its k-th reference and to slot k.
-/

namespace OrpcWire

theorem exists_append_of_length {α : Type} {as : List α} {m n : Nat} (h : as.length = m + n) :
    ∃ first second, as = first ++ second ∧ first.length = m ∧ second.length = n := by
  refine ⟨as.take m, as.drop m, (List.take_append_drop m as).symm, ?_, ?_⟩
  · rw [List.length_take]
    omega
  · rw [List.length_drop]
    omega

namespace Piece

/-- The layout of pieces in which the references have the given ids, from left to right. -/
def withIds : List UInt32 → List Piece → Layout
  | _, [] => []
  | ids, .field content :: pieces => content :: withIds ids pieces
  | ids, .reference _ :: pieces => .u32 (ids.headD nullId) :: withIds ids.tail pieces

@[simp] theorem withIds_nil (ids : List UInt32) : withIds ids [] = [] := by
  cases ids <;> rfl

@[simp] theorem withIds_fields (ids : List UInt32) (layout : Layout) :
    withIds ids (layout.map .field) = layout := by
  induction layout with
  | nil => rw [List.map_nil, withIds_nil]
  | cons field fields ih => rw [List.map_cons, withIds, ih]

@[simp] theorem references_fields (layout : Layout) : references (layout.map .field) = [] := by
  induction layout with
  | nil => rfl
  | cons field fields ih => exact ih

theorem withIds_append {firstIds : List UInt32} {first : List Piece}
    (h : firstIds.length = (references first).length) (ids : List UInt32) (second : List Piece) :
    withIds (firstIds ++ ids) (first ++ second) = withIds firstIds first ++ withIds ids second := by
  induction first generalizing firstIds with
  | nil =>
    rw [List.length_eq_zero_iff.1 h]
    simp
  | cons piece pieces ih =>
    cases piece with
    | field content => simp [withIds, ih h]
    | reference ref =>
      cases firstIds with
      | nil => cases h
      | cons id firstIds => simp [withIds, ih (Nat.succ_inj.1 h)]

theorem withIds_fields_append (ids : List UInt32) (layout : Layout) (pieces : List Piece) :
    withIds ids (layout.map .field ++ pieces) = layout ++ withIds ids pieces := by
  have hnone : ([] : List UInt32).length = (references (layout.map .field)).length := by simp
  simpa using withIds_append hnone ids pieces

theorem references_map_reference (refs : List Reference) :
    references (refs.map .reference) = refs := by
  induction refs with
  | nil => rfl
  | cons ref refs ih => exact congrArg (ref :: ·) ih

theorem withIds_references {ids : List UInt32} {refs : List Reference}
    (h : ids.length = refs.length) : withIds ids (refs.map .reference) = ids.map .u32 := by
  induction refs generalizing ids with
  | nil =>
    rw [List.length_eq_zero_iff.1 h]
    rfl
  | cons ref refs ih =>
    cases ids with
    | nil => cases h
    | cons id ids => exact congrArg (Field.u32 id :: ·) (ih (Nat.succ_inj.1 h))

theorem endFrom_withIds (ids ids' : List UInt32) (pieces : List Piece) (position : Nat) :
    Layout.endFrom position (withIds ids pieces) =
      Layout.endFrom position (withIds ids' pieces) := by
  induction pieces generalizing ids ids' position with
  | nil => simp
  | cons piece pieces ih => cases piece <;> exact ih _ _ _

theorem endFrom_withIds_append (ids ids1 ids2 : List UInt32) (first second : List Piece)
    (position : Nat) :
    Layout.endFrom position (withIds ids (first ++ second)) =
      Layout.endFrom (Layout.endFrom position (withIds ids1 first)) (withIds ids2 second) := by
  induction first generalizing ids ids1 position with
  | nil => rw [List.nil_append, withIds_nil, Layout.endFrom_nil, endFrom_withIds]
  | cons piece pieces ih => cases piece <;> exact ih _ _ _

theorem exists_between_append {order : ByteOrder} {ids : List UInt32} {m n : Nat}
    {first second : List Piece} {cursor next : Cursor} (hids : ids.length = m + n)
    (hfirst : (references first).length = m)
    (h : (withIds ids (first ++ second)).Between order cursor next) :
    ∃ ids1 ids2 middle, ids = ids1 ++ ids2 ∧ ids1.length = m ∧ ids2.length = n ∧
      (withIds ids1 first).Between order cursor middle ∧
      (withIds ids2 second).Between order middle next := by
  obtain ⟨ids1, ids2, rfl, hids1, hids2⟩ := exists_append_of_length hids
  rw [withIds_append (hids1.trans hfirst.symm), Layout.between_append] at h
  obtain ⟨middle, hbetween1, hbetween2⟩ := h
  exact ⟨ids1, ids2, middle, rfl, hids1, hids2, hbetween1, hbetween2⟩

theorem between_withIds_same {order : ByteOrder} {ids ids' : List UInt32} {pieces : List Piece}
    {cursor cursor' next next' : Cursor} (h : (withIds ids pieces).Between order cursor next)
    (h' : (withIds ids' pieces).Between order cursor' next')
    (hposition : cursor'.position = cursor.position)
    (hrest : cursor'.rest.length = cursor.rest.length) :
    next'.position = next.position ∧ next'.rest.length = next.rest.length := by
  have hnext : next'.position = next.position := by
    rw [h'.position_eq, h.position_eq, hposition]
    exact endFrom_withIds _ _ _ _
  have hlength := h.length_eq
  have hlength' := h'.length_eq
  exact ⟨hnext, by omega⟩

theorem number_eq (ids : IdSupply) (pieces : List Piece) :
    number ids pieces = ⟨withIds (ids.draw (references pieces).length).1 pieces,
      (ids.draw (references pieces).length).1, (ids.draw (references pieces).length).2⟩ := by
  induction pieces generalizing ids with
  | nil => rfl
  | cons piece pieces ih =>
    cases piece with
    | field content => rw [number_field, ih]; rfl
    | reference ref => rw [number_reference, ih]; rfl

end Piece

namespace Announcement

/-- The references that announcements stand for, if the first of them takes slot `taken`. -/
def references (taken : Nat) (announced : List Announcement) : List Reference :=
  (announced.zipIdx taken).map fun (announcement, slot) => ⟨slot, announcement.target⟩

@[simp] theorem references_nil (taken : Nat) : references taken [] = [] := rfl

@[simp] theorem references_cons (taken : Nat) (announcement : Announcement)
    (announced : List Announcement) :
    references taken (announcement :: announced) =
      ⟨taken, announcement.target⟩ :: references (taken + 1) announced := rfl

theorem references_append (taken : Nat) (first second : List Announcement) :
    references taken (first ++ second) = references taken first ++
      references (taken + first.length) second := by
  simp [references, List.zipIdx_append]

@[simp] theorem length_references (taken : Nat) (announced : List Announcement) :
    (references taken announced).length = announced.length := by
  simp [references]

theorem targets_references (taken : Nat) (announced : List Announcement) :
    (references taken announced).map (·.target) = announced.map (·.target) := by
  induction announced generalizing taken with
  | nil => rfl
  | cons announcement announced ih => rw [references_cons, List.map_cons, List.map_cons, ih]

theorem le_slot {taken : Nat} {announced : List Announcement} {ref : Reference}
    (h : ref ∈ references taken announced) : taken ≤ ref.slot := by
  obtain ⟨⟨announcement, slot⟩, hmem, rfl⟩ := List.mem_map.1 h
  exact List.le_snd_of_mem_zipIdx hmem

/-- The announcements of references under the given ids. -/
def ofReferences (ids : List UInt32) (refs : List Reference) : List Announcement :=
  List.zipWith (fun id ref => ⟨id, ref.target⟩) ids refs

/-- The same referents announced under other ids. -/
def renamed (ids : List UInt32) (announced : List Announcement) : List Announcement :=
  List.zipWith (fun id announcement => ⟨id, announcement.target⟩) ids announced

theorem ofReferences_append {firstIds : List UInt32} {first : List Reference}
    (h : firstIds.length = first.length) (ids : List UInt32) (second : List Reference) :
    ofReferences (firstIds ++ ids) (first ++ second) =
      ofReferences firstIds first ++ ofReferences ids second :=
  List.zipWith_append h

theorem renamed_append {firstIds : List UInt32} {first : List Announcement}
    (h : firstIds.length = first.length) (ids : List UInt32) (second : List Announcement) :
    renamed (firstIds ++ ids) (first ++ second) = renamed firstIds first ++ renamed ids second :=
  List.zipWith_append h

theorem length_ofReferences {ids : List UInt32} {refs : List Reference}
    (h : ids.length = refs.length) : (ofReferences ids refs).length = refs.length := by
  rw [ofReferences, List.length_zipWith, h, Nat.min_self]

theorem length_renamed {ids : List UInt32} {announced : List Announcement}
    (h : ids.length = announced.length) : (renamed ids announced).length = announced.length := by
  rw [renamed, List.length_zipWith, h, Nat.min_self]

end Announcement

end OrpcWire
