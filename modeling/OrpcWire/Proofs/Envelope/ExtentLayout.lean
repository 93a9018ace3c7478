import OrpcWire.Proofs.Envelope.ExtentGraph

/-!
# Layouts of extent arrays

The graph of an extent array is written as the pointer to the header, the header, the array with a
word for each slot, and the extents in the order of their slots
(`ExtentArray.pieces_graph_eq_ok_iff`). It can be written if slots and data can be counted. Null
slots are words like any other, and the extents leave nothing to be written behind them.
-/

namespace OrpcWire

/-! ### Extents -/

namespace Extent

/-- An extent as it stands on the wire: the length of its data, and the fields of a structure. -/
def layout (extent : Extent) : Layout :=
  [.u32 (.ofNat extent.data.length), .align 4] ++
    (extent.id.layout ++ ([.u32 extent.size] ++ extent.data.map .u8))

theorem pieces_value {extent : Extent} (h : extent.data.length < UInt32.size) :
    Extension.shape.pieces extent.value = .ok (extent.layout.map .field) := by
  have hcount : Shape.hoistedCount [.guid, .u32, .octets] [.guid extent.id, .u32 extent.size,
      .ofOctets extent.data] = .ok [.field (.u32 (.ofNat extent.data.length))] := by
    show (countField (extent.data.map Value.u8).length).map ([·]) = _
    rw [List.length_map, countField, if_pos h]
    rfl
  have hdata : Shape.memberPieces [.octets] [.ofOctets extent.data] =
      .ok ((extent.data.map Field.u8).map .field) := by
    have hoctet : ∀ octet, Shape.u8.pieces (.u8 octet) = .ok [(Piece.field ∘ Field.u8) octet] :=
      fun _ => rfl
    obtain ⟨groups, hgroups, hflatten⟩ := Shape.mapM_pieces_eq hoctet extent.data
    rw [List.map_map, ← hflatten]
    exact bind_eq_ok_iff.2 ⟨groups, hgroups, rfl⟩
  have hmembers : Shape.memberPieces [.guid, .u32, .octets] [.guid extent.id, .u32 extent.size,
      .ofOctets extent.data] = .ok (extent.id.layout.map .field ++
      ([.field (.u32 extent.size)] ++ (extent.data.map Field.u8).map .field)) :=
    Shape.memberPieces_cons_eq (by simp) rfl (Shape.memberPieces_cons_eq (by simp) rfl hdata)
  rw [layout, List.map_append, List.map_append, List.map_append]
  exact Shape.pieces_struct_eq rfl hcount hmembers

theorem pieces_value_eq_ok_iff {extent : Extent} {written : List Piece} :
    Extension.shape.pieces extent.value = .ok written ↔
      extent.data.length < UInt32.size ∧ written = extent.layout.map .field := by
  constructor
  · intro h
    obtain ⟨count, hcount, _⟩ := bind_eq_ok_iff.1 h
    obtain ⟨piece, hpiece, _⟩ := map_eq_ok_iff.1 hcount
    obtain ⟨hdata, _⟩ := Shape.countField_eq_ok_iff.1 hpiece
    rw [List.length_map] at hdata
    exact ⟨hdata, Except.ok.inj (h.symm.trans (pieces_value hdata))⟩
  · rintro ⟨hdata, rfl⟩
    exact pieces_value hdata

theorem drain_eq_ok_iff {graph : Graph} {first : Nat} {extents : List Extent} {later : List Piece}
    (h : StandFrom graph first extents) :
    graph.drain ((List.range' first extents.length).map fun slot => ⟨slot, Extension.shape⟩) =
        .ok later ↔
      (∀ extent ∈ extents, extent.data.length < UInt32.size) ∧
        later = (extents.flatMap layout).map .field := by
  -- Extents have no pointers in them, so the queue only gets shorter.
  induction extents generalizing first later with
  | nil =>
    rw [List.length_nil, List.range'_zero, List.map_nil, Graph.drain]
    simp [eq_comm]
  | cons extent extents ih =>
    have hextent : graph.referentPieces ⟨first, Extension.shape⟩ =
        Extension.shape.pieces extent.value := by
      simp only [Graph.referentPieces, h.head]
    rw [List.length_cons, List.range'_succ, List.map_cons, graph.drain_cons_bind, hextent,
      bind_eq_ok_iff, List.forall_mem_cons, List.flatMap_cons, List.map_append]
    constructor
    · rintro ⟨written, hwritten, hlater⟩
      obtain ⟨hdata, rfl⟩ := pieces_value_eq_ok_iff.1 hwritten
      rw [Piece.references_fields, List.append_nil] at hlater
      obtain ⟨others, hothers, rfl⟩ := map_eq_ok_iff.1 hlater
      obtain ⟨hall, rfl⟩ := (ih h.tail).1 hothers
      exact ⟨⟨hdata, hall⟩, rfl⟩
    · rintro ⟨⟨hdata, hall⟩, rfl⟩
      refine ⟨_, pieces_value_eq_ok_iff.2 ⟨hdata, rfl⟩, map_eq_ok_iff.2 ⟨_, ?_, rfl⟩⟩
      rw [Piece.references_fields, List.append_nil]
      exact (ih h.tail).2 ⟨hall, rfl⟩

end Extent

/-! ### Slots -/

/-- A pointer as a piece: the word of the null pointer, or a reference. -/
def Piece.ofSlot (target : Shape) (slot : Option Nat) : Piece :=
  slot.elim (.field (.u32 nullId)) fun slot => .reference ⟨slot, target⟩

theorem Shape.pieces_pointer (target : Shape) (slot : Option Nat) :
    pieces (.pointer target) (.pointer slot) = .ok [.ofSlot target slot] := by
  cases slot <;> rfl

theorem Piece.references_ofSlot (target : Shape) (slots : List (Option Nat)) :
    references (slots.map (ofSlot target)) = slots.reduceOption.map fun slot => ⟨slot, target⟩ := by
  induction slots with
  | nil => rfl
  | cons slot slots ih =>
    cases slot with
    | none => exact ih
    | some slot => exact congrArg (_ :: ·) ih

/-! ### Arrays -/

namespace ExtentArray

variable {count reserved : UInt32} {slots : List (Option Extent)}

theorem pieces_headerValue (count reserved : UInt32) (array : Option Nat) :
    Chain.headerShape.pieces (ExtentArray.headerValue count reserved array) =
      .ok [.field (.align 4), .field (.u32 count), .field (.u32 reserved),
        .ofSlot Chain.arrayShape array] := by
  have hword : ∀ word, Shape.u32.pieces (.u32 word) = .ok [.field (.u32 word)] := fun _ => rfl
  have hpointer : Shape.memberPieces [.pointer Chain.arrayShape] [.pointer array] =
      .ok ([.ofSlot Chain.arrayShape array] ++ []) :=
    Shape.memberPieces_cons_eq (by simp) (Shape.pieces_pointer _ array) rfl
  have hwords :=
    Shape.memberPieces_cons_eq (by simp) (hword count)
      (Shape.memberPieces_cons_eq (by simp) (hword reserved) hpointer)
  exact Shape.pieces_struct_eq rfl rfl hwords

/-- What the graph of an extent array is written as. -/
def written (count reserved : UInt32) (slots : List (Option Extent)) : List Piece :=
  [.reference ⟨slots.reduceOption.length + 1, Chain.headerShape⟩, .field (.align 4),
    .field (.u32 count), .field (.u32 reserved),
    .reference ⟨slots.reduceOption.length, Chain.arrayShape⟩,
    .field (.u32 (.ofNat slots.length))] ++
  ((slotNumbers 0 slots).map (.ofSlot Extension.shape) ++
    (slots.reduceOption.flatMap Extent.layout).map .field)

theorem drain_array_eq_ok_iff {later : List Piece} :
    (graph count reserved slots).drain [⟨slots.reduceOption.length, Chain.arrayShape⟩] = .ok later ↔
      slots.length < UInt32.size ∧
        (∀ extent ∈ slots.reduceOption, extent.data.length < UInt32.size) ∧
        later = .field (.u32 (.ofNat slots.length)) ::
          ((slotNumbers 0 slots).map (.ofSlot Extension.shape) ++
            (slots.reduceOption.flatMap Extent.layout).map .field) := by
  have hreferent : (graph count reserved slots).referentPieces
      ⟨slots.reduceOption.length, Chain.arrayShape⟩ =
        Chain.arrayShape.pieces (.array ((slotNumbers 0 slots).map .pointer)) := by
    simp only [Graph.referentPieces, value?_array]
    rfl
  have hqueue : [] ++ Piece.references (.field (.u32 (.ofNat (slotNumbers 0 slots).length)) ::
      (slotNumbers 0 slots).map (.ofSlot Extension.shape)) =
      (List.range' 0 slots.reduceOption.length).map fun slot => ⟨slot, Extension.shape⟩ := by
    rw [Piece.references_field, Piece.references_ofSlot, reduceOption_slotNumbers, List.nil_append]
  rw [Graph.drain_cons_bind, hreferent, bind_eq_ok_iff]
  constructor
  · rintro ⟨array, harray, hlater⟩
    obtain ⟨hslots, rfl⟩ :=
      (Shape.pieces_array_eq_ok_iff (Shape.pieces_pointer Extension.shape)).1 harray
    rw [hqueue] at hlater
    obtain ⟨extents, hextents, rfl⟩ := map_eq_ok_iff.1 hlater
    obtain ⟨hdata, rfl⟩ := (Extent.drain_eq_ok_iff standFrom_graph).1 hextents
    rw [length_slotNumbers] at hslots
    exact ⟨hslots, hdata, by rw [length_slotNumbers, List.cons_append]⟩
  · rintro ⟨hslots, hdata, rfl⟩
    rw [← length_slotNumbers 0 slots] at hslots
    refine ⟨_, (Shape.pieces_array_eq_ok_iff (Shape.pieces_pointer Extension.shape)).2
      ⟨hslots, rfl⟩, ?_⟩
    rw [hqueue, map_eq_ok_iff]
    exact ⟨_, (Extent.drain_eq_ok_iff standFrom_graph).2 ⟨hdata, rfl⟩,
      by rw [length_slotNumbers, List.cons_append]⟩

theorem pieces_graph_eq_ok_iff {pieces : List Piece} :
    (graph count reserved slots).pieces Chain.shape = .ok pieces ↔
      slots.length < UInt32.size ∧
        (∀ extent ∈ slots.reduceOption, extent.data.length < UInt32.size) ∧
        pieces = written count reserved slots := by
  have hroot : Chain.shape.pieces (graph count reserved slots).root =
      .ok [.reference ⟨slots.reduceOption.length + 1, Chain.headerShape⟩] := rfl
  have hheader : (graph count reserved slots).referentPieces
      ⟨slots.reduceOption.length + 1, Chain.headerShape⟩ =
        .ok [.field (.align 4), .field (.u32 count), .field (.u32 reserved),
          .ofSlot Chain.arrayShape (some slots.reduceOption.length)] := by
    simp only [Graph.referentPieces, value?_header]
    exact pieces_headerValue count reserved _
  have hdrain : (graph count reserved slots).drain
      [⟨slots.reduceOption.length + 1, Chain.headerShape⟩] =
        ((graph count reserved slots).drain
          [⟨slots.reduceOption.length, Chain.arrayShape⟩]).map _ :=
    Graph.drain_cons hheader
  constructor
  · intro h
    obtain ⟨root, heq, h⟩ := bind_eq_ok_iff.1 h
    cases hroot.symm.trans heq
    obtain ⟨behind, hbehind, h⟩ := bind_eq_ok_iff.1 h
    cases h
    obtain ⟨later, hlater, rfl⟩ := map_eq_ok_iff.1 (hdrain.symm.trans hbehind)
    obtain ⟨hslots, hdata, rfl⟩ := drain_array_eq_ok_iff.1 hlater
    exact ⟨hslots, hdata, rfl⟩
  · rintro ⟨hslots, hdata, rfl⟩
    have hbehind := hdrain.trans
      (map_eq_ok_iff.2 ⟨_, drain_array_eq_ok_iff.2 ⟨hslots, hdata, rfl⟩, rfl⟩)
    exact bind_eq_ok_iff.2 ⟨_, hroot, bind_eq_ok_iff.2 ⟨_, hbehind, rfl⟩⟩

end ExtentArray

end OrpcWire
