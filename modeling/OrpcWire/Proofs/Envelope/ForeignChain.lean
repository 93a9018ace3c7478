import OrpcWire.Proofs.Envelope.Chain

/-!
# Chains of other implementations

Other implementations lay chains out with more freedom than the sender here has: ids may repeat,
null slots may stand anywhere, there may be more slots than the header counts, and data may be
longer than its size by any number of octets (`ForeignChain`). All that ties an extent to its slot
is the order in which the queue serves the pointers, so the layout is shown to be what is served
from the graph of an extent array, with the ids given (`ForeignChain.exists_graph`). From there it
is read like what has been written here, and `ForeignChain.run_read_eq` says what is received, or
why it is refused.
-/

namespace OrpcWire

/-- The word of a pointer that is not null. -/
abbrev ReferentId := { id : UInt32 // id ≠ nullId }

/-! ### Extents -/

namespace Extent

/-- The extension in an extent that is long enough. -/
def trimmed (extent : Extent) : Extension := ⟨extent.id, extent.data.take extent.size.toNat⟩

theorem mapM_extension (extents : List Extent) : extents.mapM extension =
    if ∃ extent ∈ extents, extent.data.length < extent.size.toNat then
      .error (.extensions (.unexpectedShape .shortData))
    else .ok (extents.map trimmed) := by
  by_cases hshort : ∃ extent ∈ extents, extent.data.length < extent.size.toNat
  · rw [if_pos hshort]
    cases hresult : extents.mapM extension with
    | ok extensions =>
      obtain ⟨extent, hmem, hless⟩ := hshort
      obtain ⟨found, hfound⟩ := forall_of_mapM_eq_ok hresult extent hmem
      rw [extension, if_pos hless] at hfound
      cases hfound
    | error error =>
      obtain ⟨extent, _, hextent⟩ := exists_of_mapM_eq_error hresult
      unfold extension at hextent
      split at hextent <;> cases hextent
      rfl
  · rw [if_neg hshort]
    exact mapM_eq_pure fun extent hmem => if_neg fun hless => hshort ⟨extent, hmem, hless⟩

end Extent

/-! ### Slots -/

/-- The word in a slot of an array. -/
def slotWord (slot : Option (ReferentId × Extent)) : UInt32 := slot.elim nullId fun (id, _) => id

theorem Piece.withIds_slots (target : Shape) (first : Nat)
    (slots : List (Option (ReferentId × Extent))) :
    withIds (slots.reduceOption.map fun (id, _) => id.val)
      ((slotNumbers first slots).map (ofSlot target)) = slots.map fun slot =>
        .u32 (slotWord slot) := by
  induction slots generalizing first with
  | nil => rfl
  | cons slot slots ih =>
    cases slot with
    | none => exact congrArg (Field.u32 nullId :: ·) (ih first)
    | some slot => exact congrArg (Field.u32 slot.1 :: ·) (ih (first + 1))

/-! ### Chains -/

/-- A chain as another implementation sends it, with ids of its choice. -/
structure ForeignChain where
  headerId : ReferentId
  count : UInt32
  reserved : UInt32
  /-- The id of the array with its slots, none if there is no array. -/
  array : Option (ReferentId × List (Option (ReferentId × Extent)))

namespace ForeignChain

/-- The extents in slots, in their order. -/
def extents (slots : List (Option (ReferentId × Extent))) : List Extent :=
  slots.reduceOption.map Prod.snd

/-- The slots as they are, but for their ids. -/
def unnamed (slots : List (Option (ReferentId × Extent))) : List (Option Extent) :=
  slots.map (Option.map Prod.snd)

@[simp] theorem length_unnamed (slots : List (Option (ReferentId × Extent))) :
    (unnamed slots).length = slots.length :=
  List.length_map _

@[simp] theorem reduceOption_unnamed (slots : List (Option (ReferentId × Extent))) :
    (unnamed slots).reduceOption = extents slots := List.reduceOption_map

/-- What the chain says, whatever the ids. -/
def content (chain : ForeignChain) : ExtentArray :=
  ⟨chain.count, chain.reserved, chain.array.map fun (_, slots) => unnamed slots⟩

/-- The octets of a chain as fields: the pointer to the header, the header, the array, and the
extents in the order of their slots. -/
def layout (chain : ForeignChain) : Layout :=
  [.u32 chain.headerId, .align 4, .u32 chain.count, .u32 chain.reserved] ++
    match chain.array with
    | none => [.u32 nullId]
    | some (arrayId, slots) =>
      [.u32 arrayId, .u32 (.ofNat slots.length)] ++ slots.map (fun slot => .u32 (slotWord slot)) ++
        (extents slots).flatMap Extent.layout

/-- The ids of a chain, in the order of their words. -/
def ids (chain : ForeignChain) : List UInt32 :=
  chain.headerId :: chain.array.elim [] fun (arrayId, slots) =>
    arrayId :: slots.reduceOption.map fun (id, _) => id.val

theorem ids_ne_null (chain : ForeignChain) : ∀ id ∈ chain.ids, id ≠ nullId := by
  refine List.forall_mem_cons.2 ⟨chain.headerId.2, ?_⟩
  cases chain.array with
  | none => exact fun id hid => absurd hid List.not_mem_nil
  | some array =>
    refine List.forall_mem_cons.2 ⟨array.1.2, fun id hid => ?_⟩
    obtain ⟨slot, _, rfl⟩ := List.mem_map.1 hid
    exact slot.1.2

theorem length_slotIds (slots : List (Option (ReferentId × Extent))) :
    (slots.reduceOption.map fun (id, _) => id.val).length =
      (Piece.references ((slotNumbers 0 slots).map (.ofSlot Extension.shape))).length := by
  rw [Piece.references_ofSlot, reduceOption_slotNumbers, List.length_map, List.length_map,
    List.length_range']

theorem withIds_array (slots : List (Option (ReferentId × Extent))) :
    Piece.withIds (slots.reduceOption.map fun (id, _) => id.val)
      ((slotNumbers 0 slots).map (.ofSlot Extension.shape) ++
        ((extents slots).flatMap Extent.layout).map .field) =
    slots.map (fun slot => .u32 (slotWord slot)) ++ (extents slots).flatMap Extent.layout := by
  have happend := Piece.withIds_append (length_slotIds slots) []
    (((extents slots).flatMap Extent.layout).map .field)
  rwa [List.append_nil, Piece.withIds_slots, Piece.withIds_fields] at happend

theorem withIds_written (headerId arrayId : ReferentId) (count reserved : UInt32)
    (slots : List (Option (ReferentId × Extent))) :
    let chain : ForeignChain := ⟨headerId, count, reserved, some (arrayId, slots)⟩
    let written := ExtentArray.written count reserved (unnamed slots)
    chain.ids.length = (Piece.references written).length ∧
      Piece.withIds chain.ids written = chain.layout := by
  intro chain written
  have hnumbers : slotNumbers 0 (unnamed slots) = slotNumbers 0 slots :=
    slotNumbers_map Prod.snd 0 slots
  have hslots : (slots.reduceOption.map fun (id, _) => id.val).length =
      (Piece.references ((slotNumbers 0 slots).map (.ofSlot Extension.shape) ++
        ((extents slots).flatMap Extent.layout).map .field)).length := by
    rw [Piece.references_append, Piece.references_fields, List.append_nil, length_slotIds]
  unfold written
  rw [ExtentArray.written, hnumbers, reduceOption_unnamed, length_unnamed]
  exact ⟨congrArg (· + 2) hslots, congrArg (_ :: _ :: _ :: _ :: _ :: _ :: ·) (withIds_array slots)⟩

/-- The graph that a chain stands for, and what is served from it. -/
theorem exists_graph (chain : ForeignChain)
    (hwithin : (Chain.treeOf (some chain.content)).arraysWithin elementLimit = true) :
    ∃ graph written served,
      graph.tree? Chain.shape graph.root = some (Chain.treeOf (some chain.content)) ∧
      Chain.shape.pieces graph.root = .ok written ∧
      Serves graph (Piece.references written) served ∧
      chain.ids.length = (Piece.references (written ++ Served.pieces served)).length ∧
      Piece.withIds chain.ids (written ++ Served.pieces served) = chain.layout := by
  obtain ⟨headerId, count, reserved, array⟩ := chain
  cases array with
  | none =>
    have hserves : Serves (ExtentArray.headerGraph count reserved) [⟨0, Chain.headerShape⟩]
        [⟨⟨0, Chain.headerShape⟩, ExtentArray.headerValue count reserved none, _⟩] :=
      .cons rfl (ExtentArray.pieces_headerValue count reserved none) .nil
    exact ⟨_, [.reference ⟨0, Chain.headerShape⟩], _, ExtentArray.tree?_headerGraph count reserved,
      rfl, hserves, rfl, rfl⟩
  | some array =>
    obtain ⟨arrayId, slots⟩ := array
    obtain ⟨hslots, hdata⟩ := Chain.arraysWithin_treeOf_iff.1 hwithin
    have hsize : elementLimit < UInt32.size := by decide
    have hpieces : (ExtentArray.graph count reserved (unnamed slots)).pieces Chain.shape =
        .ok (ExtentArray.written count reserved (unnamed slots)) :=
      ExtentArray.pieces_graph_eq_ok_iff.2 ⟨Nat.lt_of_le_of_lt hslots hsize,
        fun extent hmem => Nat.lt_of_le_of_lt (hdata extent hmem) hsize, rfl⟩
    obtain ⟨written, served, hwritten, hserves, hall⟩ := Graph.serves_of_pieces hpieces
    have hids := withIds_written headerId arrayId count reserved slots
    refine ⟨_, written, served, ExtentArray.tree?_graph count reserved _, hwritten, hserves, ?_⟩
    rw [← hall]
    exact hids

theorem run_read {chain : ForeignChain} {limit : Nat} {order : ByteOrder} {cursor next : Cursor}
    (hwithin : (Chain.treeOf (some chain.content)).arraysWithin elementLimit = true)
    (hcount : (Chain.treeOf (some chain.content)).pointerCount ≤ Chain.referentLimit limit)
    (hbetween : chain.layout.Between order cursor next) :
    (Chain.read limit).run order cursor =
      (Chain.received limit (some chain.content)).map (·, next) := by
  obtain ⟨graph, written, served, htree, hwritten, hserves, hids, hlayout⟩ :=
    chain.exists_graph hwithin
  obtain ⟨decoded, hdecoded, _, hread⟩ :=
    Graph.run_read_ids_iff hwritten hserves rfl htree hids chain.ids_ne_null
  have hgraph :=
    (hread order cursor next (hlayout ▸ hbetween) _ (decoded, next)).2 ⟨⟨hwithin, hcount⟩, rfl⟩
  exact Chain.run_read_of_tree hgraph hdecoded

section

variable {count reserved : UInt32} {limit : Nat} {slots : List (Option (ReferentId × Extent))}

theorem within_unnamed (hslots : slots.length ≤ elementLimit)
    (hextents : (extents slots).length ≤ Chain.paddedSlots limit)
    (hdata : ∀ extent ∈ extents slots, extent.data.length ≤ elementLimit) :
    (Chain.treeOf (some ⟨count, reserved, some (unnamed slots)⟩)).arraysWithin elementLimit = true ∧
      (Chain.treeOf (some ⟨count, reserved, some (unnamed slots)⟩)).pointerCount ≤
        Chain.referentLimit limit := by
  constructor
  · rw [Chain.arraysWithin_treeOf_iff, length_unnamed, reduceOption_unnamed]
    exact ⟨hslots, hdata⟩
  · rw [Chain.pointerCount_treeOf, reduceOption_unnamed]
    exact Nat.add_le_add_right hextents 2

theorem received_unnamed : Chain.received limit (some ⟨count, reserved, some (unnamed slots)⟩) =
    if limit < count.toNat then .error (.extensions (.tooManyReceived count.toNat limit))
    else if slots.length < count.toNat then .error (.extensions (.unexpectedShape .fewerSlots))
    else if ∃ extent ∈ extents slots, extent.data.length < extent.size.toNat then
      .error (.extensions (.unexpectedShape .shortData))
    else .ok (some ((extents slots).map Extent.trimmed)) := by
  rw [Chain.received, Option.elim_some, ExtentArray.extensions]
  dsimp only
  rw [length_unnamed, reduceOption_unnamed, Extent.mapM_extension]
  split_ifs <;> rfl

theorem received_no_array : Chain.received limit (some ⟨count, reserved, none⟩) =
    if limit < count.toNat then .error (.extensions (.tooManyReceived count.toNat limit))
    else if count.toNat = 0 then .ok (some [])
    else .error (.extensions (.unexpectedShape .nullArrayPointer)) := by
  rw [Chain.received, Option.elim_some, ExtentArray.extensions]
  dsimp only
  split_ifs <;> rfl

end

/-- A chain of another implementation is received as the extensions in its slots, in the order of
these and without padding. Its ids do not matter, nor where its null slots are, nor whether there
are more slots than the header counts. It is refused if the header counts more than the limit or
more than there are slots, or if an extent is shorter than it says. Without an array it is a chain
without extensions, if the header counts none. -/
theorem run_read_eq (chain : ForeignChain) (limit : Nat) (order : ByteOrder) (position : Nat)
    (behind : List UInt8) :
    let octets := chain.layout.render order position
    let result := (Chain.read limit).run order ⟨position, octets ++ behind⟩
    let next : Cursor := ⟨position + octets.length, behind⟩
    (∀ arrayId slots, chain.array = some (arrayId, slots) → slots.length ≤ elementLimit →
      (extents slots).length ≤ Chain.paddedSlots limit →
      (∀ extent ∈ extents slots, extent.data.length ≤ elementLimit) → result =
        if limit < chain.count.toNat then
          .error (.extensions (.tooManyReceived chain.count.toNat limit))
        else if slots.length < chain.count.toNat then
          .error (.extensions (.unexpectedShape .fewerSlots))
        else if ∃ extent ∈ extents slots, extent.data.length < extent.size.toNat then
          .error (.extensions (.unexpectedShape .shortData))
        else .ok (some ((extents slots).map fun extent =>
          ⟨extent.id, extent.data.take extent.size.toNat⟩), next)) ∧
    (chain.array = none → result =
      if limit < chain.count.toNat then
        .error (.extensions (.tooManyReceived chain.count.toNat limit))
      else if chain.count.toNat = 0 then .ok (some [], next)
      else .error (.extensions (.unexpectedShape .nullArrayPointer))) := by
  intro octets result next
  have hread : (Chain.treeOf (some chain.content)).arraysWithin elementLimit = true →
      (Chain.treeOf (some chain.content)).pointerCount ≤ Chain.referentLimit limit →
      result = (Chain.received limit (some chain.content)).map (·, next) := fun hwithin hpointers =>
    run_read hwithin hpointers (Layout.between_render order position chain.layout behind)
  obtain ⟨headerId, count, reserved, array⟩ := chain
  constructor
  · rintro arrayId slots rfl hslots hextents hdata
    obtain ⟨hwithin, hpointers⟩ := within_unnamed hslots hextents hdata
    have hcontent : content ⟨headerId, count, reserved,
        some (arrayId, slots)⟩ = ⟨count, reserved, some (unnamed slots)⟩ := rfl
    rw [hread hwithin hpointers, hcontent, received_unnamed]
    split_ifs <;> rfl
  · rintro rfl
    have hpointers : 1 ≤ Chain.referentLimit limit := Nat.le_add_left_of_le (by decide)
    have hcontent : content ⟨headerId, count, reserved, none⟩ = ⟨count, reserved, none⟩ := rfl
    rw [hread rfl hpointers, hcontent, received_no_array]
    split_ifs <;> rfl

/-- A null slot in front, three slots for a count of one, data longer than its size, and one id on
all pointers. A fourth extension in the count is refused. -/
theorem run_read_eq_one_id :
    let id : ReferentId := ⟨7, by decide⟩
    let slots := [none, some (id, ⟨Guid.nil, 2, [1, 2, 3]⟩), some (id, ⟨Guid.errorInfo, 0, []⟩)]
    let chain (count : UInt32) : ForeignChain := ⟨id, count, 5, some (id, slots)⟩
    slots.length ≤ elementLimit ∧ (extents slots).length ≤ Chain.paddedSlots 4 ∧
      (∀ extent ∈ extents slots, extent.data.length ≤ elementLimit) ∧
      (Chain.read 4).run .big ⟨1, (chain 1).layout.render .big 1 ++ [255]⟩ =
        .ok (some [⟨Guid.nil, [1, 2]⟩, ⟨Guid.errorInfo, []⟩],
          ⟨1 + ((chain 1).layout.render .big 1).length, [255]⟩) ∧
      (Chain.read 4).run .big ⟨1, (chain 4).layout.render .big 1 ++ [255]⟩ =
        .error (.extensions (.unexpectedShape .fewerSlots)) := by
  intro id slots chain
  have hslots : slots.length ≤ elementLimit := by decide
  have hextents : (extents slots).length ≤ Chain.paddedSlots 4 := by decide
  have hdata : ∀ extent ∈ extents slots, extent.data.length ≤ elementLimit := by decide
  have hread (count : UInt32) :=
    (run_read_eq (chain count) 4 .big 1 [255]).1 id slots rfl hslots hextents hdata
  refine ⟨hslots, hextents, hdata, (hread 1).trans ?_, (hread 4).trans ?_⟩
  · rw [if_neg (by decide), if_neg (by decide), if_neg (by decide)]
    rfl
  · rw [if_neg (by decide), if_pos (by decide)]

end ForeignChain

end OrpcWire
