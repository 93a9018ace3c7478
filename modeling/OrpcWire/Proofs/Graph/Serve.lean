import OrpcWire.Proofs.Graph.Deliver
import OrpcWire.Proofs.Graph.Grafts
import OrpcWire.Proofs.Graph.Slots

/-!
# Graphs that have been written are read back

The writer of a graph and its reader each have a queue, of references here and of announcements
there. `Serves` lists what the writer serves from its queue; a reader of the octets goes through the
same list, with an id for each reference (`Serves.readReferents_eq`). Its graph has one slot for
each reference served, which stands for the slot of the writer's graph that the reference names
(`Serves.hom`). So both graphs stand for the same tree.
-/

namespace OrpcWire

/-! ### Numbered slots -/

/-- The slots are what `σ` makes of the numbers from `first` on. -/
def Named (σ : Nat → Nat) (first : Nat) (slots : List Nat) : Prop :=
  (List.range' first slots.length).map σ = slots

theorem named_append {σ : Nat → Nat} {first : Nat} {slots slots' : List Nat} :
    Named σ first (slots ++ slots') ↔
      Named σ first slots ∧ Named σ (first + slots.length) slots' := by
  have hsplit : (List.range' first (slots ++ slots').length).map σ =
      (List.range' first slots.length).map σ ++
        (List.range' (first + slots.length) slots'.length).map σ := by
    rw [List.length_append, ← List.map_append, List.range'_append_1]
  rw [Named, hsplit]
  constructor
  · intro h
    exact List.append_inj h (by simp)
  · rintro ⟨hfirst, hsecond⟩
    rw [hfirst, hsecond]

namespace Value

variable {σ : Nat → Nat}

mutual

theorem mapSlots_numbered : (value : Value) → (first : Nat) → Named σ first value.slots →
    (value.numbered first).mapSlots σ = value
  | .u8 _, _, _ | .u16 _, _, _ | .u32 _, _, _ | .u64 _, _, _ | .guid _, _, _
  | .pointer none, _, _ => rfl
  | .pointer (some slot), first, h => by
    rw [numbered, mapSlots, (List.cons_eq_cons.1 h).1]
  | .struct members, first, h => by
    rw [numbered, mapSlots, mapSlotsAll_numberedAll members first h]
  | .array elements, first, h => by
    rw [numbered, mapSlots, mapSlotsAll_numberedAll elements first h]

theorem mapSlotsAll_numberedAll : (values : List Value) → (first : Nat) →
    Named σ first (slotsOf values) → mapSlotsAll σ (numberedAll first values) = values
  | [], _, _ => rfl
  | value :: values, first, h => by
    obtain ⟨hvalue, hvalues⟩ := named_append.1 h
    rw [numberedAll, mapSlotsAll, mapSlots_numbered value first hvalue,
      mapSlotsAll_numberedAll values _ hvalues]

end

end Value

/-! ### What a writer serves -/

/-- A reference and what is written for it. -/
structure Served where
  ref : Reference
  value : Value
  written : List Piece

namespace Served

/-- What is written for references one after the other. -/
def pieces (served : List Served) : List Piece := served.flatMap (·.written)

/-- The referents as a reader finds them under the given ids, when the pointers in them are numbered
from `first` on. -/
def referents : List UInt32 → Nat → List Served → List Referent
  | _, _, [] => []
  | ids, first, one :: served =>
    ⟨ids.headD nullId, one.value.numbered first⟩ ::
      referents ids.tail (first + (Piece.references one.written).length) served

theorem mem_references_pieces {served : List Served} {one : Served} (hone : one ∈ served)
    {ref : Reference} (href : ref ∈ Piece.references one.written) :
    ref ∈ Piece.references (pieces served) := by
  induction served with
  | nil => cases hone
  | cons first served ih =>
    show ref ∈ Piece.references (first.written ++ pieces served)
    rw [Piece.references_append]
    rcases List.mem_cons.1 hone with rfl | hone
    · exact List.mem_append_left _ href
    · exact List.mem_append_right _ (ih hone)

@[simp] theorem pieces_nil : pieces [] = [] := rfl

@[simp] theorem pieces_cons (one : Served) (served : List Served) :
    pieces (one :: served) = one.written ++ pieces served := rfl

end Served

/-- The queue is served from the graph. -/
inductive Serves (graph : Graph) : List Reference → List Served → Prop
  | nil : Serves graph [] []
  | cons {ref : Reference} {queue : List Reference} {value : Value} {written : List Piece}
      {served : List Served} :
      graph.value? ref.slot = some value → ref.target.pieces value = .ok written →
      Serves graph (queue ++ Piece.references written) served →
      Serves graph (ref :: queue) (⟨ref, value, written⟩ :: served)

variable {graph : Graph} {queue : List Reference} {served : List Served}

theorem serves_of_drain {later : List Piece} (h : graph.drain queue = .ok later) :
    ∃ served, Serves graph queue served ∧ later = Served.pieces served := by
  induction queue using graph.drain_induction generalizing later with
  | nil =>
    rw [Graph.drain] at h
    cases h
    exact ⟨[], .nil, rfl⟩
  | cons ref queue ih =>
    rw [graph.drain_cons_bind] at h
    obtain ⟨written, hwritten, h⟩ := bind_eq_ok_iff.1 h
    obtain ⟨others, hothers, rfl⟩ := map_eq_ok_iff.1 h
    obtain ⟨served, hserved, rfl⟩ := ih written hwritten hothers
    rw [Graph.referentPieces] at hwritten
    split at hwritten
    · rename_i value hvalue
      exact ⟨⟨ref, value, written⟩ :: served, .cons hvalue hwritten hserved, rfl⟩
    · cases hwritten

namespace Serves

theorem refs_eq (h : Serves graph queue served) :
    served.map (·.ref) = queue ++ Piece.references (Served.pieces served) := by
  induction h with
  | nil => rfl
  | cons _ _ _ ih =>
    rw [List.map_cons, ih, Served.pieces_cons, Piece.references_append, List.append_assoc,
      List.cons_append]

theorem forall_queue (h : Serves graph queue served) {P : Reference → Prop}
    (hserved : ∀ one ∈ served, P one.ref) : ∀ ref ∈ queue, P ref := by
  intro ref href
  have hmem : ref ∈ served.map (·.ref) := by
    rw [h.refs_eq]
    exact List.mem_append_left _ href
  obtain ⟨one, hone, rfl⟩ := List.mem_map.1 hmem
  exact hserved one hone

theorem value?_eq (h : Serves graph queue served) :
    ∀ one ∈ served, graph.value? one.ref.slot = some one.value := by
  induction h with
  | nil => simp
  | cons hvalue _ _ ih => exact List.forall_mem_cons.2 ⟨hvalue, ih⟩

theorem pieces_eq (h : Serves graph queue served) :
    ∀ one ∈ served, one.ref.target.pieces one.value = .ok one.written := by
  induction h with
  | nil => simp
  | cons _ hwritten _ ih => exact List.forall_mem_cons.2 ⟨hwritten, ih⟩

/-- A reader goes through the same queue. -/
theorem readReferents_eq (h : Serves graph queue served)
    (hreadable : ∀ one ∈ served,
      one.ref.target.elementsTake = true ∧ one.value.arraysWithin elementLimit = true)
    {order : ByteOrder} {queueIds ids : List UInt32} (taken : Nat) {cursor last : Cursor}
    (hqueueIds : queueIds.length = queue.length)
    (hids : ids.length = (Piece.references (Served.pieces served)).length)
    (hne : ∀ id ∈ ids, id ≠ nullId)
    (hbetween : (Piece.withIds ids (Served.pieces served)).Between order cursor last) :
    readReferents none order (Announcement.ofReferences queueIds queue) taken cursor =
      .ok (Served.referents (queueIds ++ ids) taken served, last) := by
  induction h generalizing queueIds ids taken cursor with
  | nil =>
    rw [Served.pieces_nil, Piece.withIds_nil, Layout.between_nil] at hbetween
    rw [Announcement.ofReferences, List.zipWith_nil_right, readReferents, hbetween]
    rfl
  | @cons ref queue value written served _ hwritten _ ih =>
    obtain ⟨id, queueIds, rfl⟩ := List.exists_cons_of_length_eq_add_one hqueueIds
    rw [Served.pieces_cons, Piece.references_append, List.length_append] at hids
    rw [Served.pieces_cons] at hbetween
    obtain ⟨ids1, ids2, middle, rfl, hids1, hids2, hbetween1, hbetween2⟩ :=
      Piece.exists_between_append hids rfl hbetween
    obtain ⟨⟨htake, hwithin⟩, hothers⟩ := List.forall_mem_cons.1 hreadable
    have hqueue : queueIds.length = queue.length := Nat.succ_inj.1 hqueueIds
    have hfirst := Shape.read_delivers hwritten htake hwithin taken ids1 order cursor middle hids1
      (fun id hid => hne id (List.mem_append_left _ hid)) hbetween1
    have hnext : (queueIds ++ ids1).length = (queue ++ Piece.references written).length := by
      rw [List.length_append, List.length_append, hqueue, hids1]
    have hlater := ih hothers (taken + (Piece.references written).length) hnext hids2
      (fun id hid => hne id (List.mem_append_right _ hid)) hbetween2
    rw [Announcement.ofReferences_append hqueue] at hlater
    rw [show Announcement.ofReferences (id :: queueIds) (ref :: queue) =
      ⟨id, ref.target⟩ :: Announcement.ofReferences queueIds queue from rfl,
      readReferents_cons, hfirst]
    simp only [Announcement.length_ofReferences hids1, hlater, Except.map, List.append_assoc]
    rfl

theorem map_id_referents {ids : List UInt32} (hids : ids.length = served.length) (first : Nat) :
    (Served.referents ids first served).map (·.id) = ids := by
  induction served generalizing ids first with
  | nil =>
    rw [List.length_eq_zero_iff.1 hids]
    rfl
  | cons one served ih =>
    obtain ⟨id, ids, rfl⟩ := List.exists_cons_of_length_eq_add_one hids
    rw [Served.referents, List.map_cons, List.tail_cons, ih (Nat.succ_inj.1 hids)]
    rfl

theorem map_value_referents (h : Serves graph queue served) {σ : Nat → Nat} {first : Nat}
    (ids : List UInt32)
    (hσ : Named σ first ((Piece.references (Served.pieces served)).map (·.slot))) :
    (Served.referents ids first served).map (fun referent => referent.value.mapSlots σ) =
      served.map (·.value) := by
  induction h generalizing ids first with
  | nil => rfl
  | @cons ref queue value written served _ hwritten _ ih =>
    rw [Served.pieces_cons, Piece.references_append, List.map_append, named_append,
      List.length_map] at hσ
    have hfirst := Value.mapSlots_numbered value first (Shape.slots_of_pieces hwritten ▸ hσ.1)
    rw [Served.referents, List.map_cons, List.map_cons, ih ids.tail hσ.2, hfirst]

end Serves

/-- The slots that references name, in order, and behind them a slot that does not exist. -/
def slotOf (graph : Graph) (refs : List Reference) (k : Nat) : Nat :=
  ((refs.map (·.slot))[k]?).getD graph.referents.length

theorem named_slotOf (graph : Graph) (refs : List Reference) :
    Named (slotOf graph refs) 0 (refs.map (·.slot)) := by
  apply List.ext_getElem
  · simp
  · intro k hk hk'
    simp only [List.getElem_map, List.getElem_range', slotOf, Nat.zero_add, Nat.one_mul]
    rw [List.getElem?_eq_getElem hk', Option.getD_some, List.getElem_map]

theorem Serves.named (h : Serves graph queue served) :
    Named (slotOf graph (served.map (·.ref))) 0 (queue.map (·.slot)) ∧
      Named (slotOf graph (served.map (·.ref))) queue.length
        ((Piece.references (Served.pieces served)).map (·.slot)) := by
  have hnamed := named_slotOf graph (served.map (·.ref))
  rwa [congrArg (List.map (·.slot)) h.refs_eq, List.map_append, named_append, List.length_map,
    Nat.zero_add] at hnamed

/-- The reader's graph maps to the writer's. -/
theorem Serves.hom (h : Serves graph queue served) (root : Value) (ids : List UInt32) :
    Graph.Hom (slotOf graph (served.map (·.ref))) ⟨root,
      Served.referents ids queue.length served⟩ graph := by
  have hvalues := h.map_value_referents ids h.named.2
  intro k
  have hk : (Graph.value? ⟨root, Served.referents ids queue.length served⟩ k).map
      (Value.mapSlots (slotOf graph (served.map (·.ref)))) = served[k]?.map (·.value) := by
    rw [← List.getElem?_map, ← hvalues, List.getElem?_map, Graph.value?, Option.map_map]
    rfl
  rw [hk, slotOf, List.getElem?_map, List.getElem?_map]
  cases hone : served[k]? with
  | none => simp [Graph.value?]
  | some one => exact h.value?_eq one (List.mem_of_getElem? hone)

/-! ### What can be read -/

/-- A reference whose referent a reader accepts. -/
def Readable (graph : Graph) (ref : Reference) : Prop :=
  ref.target.elementsTake = true ∧
    ∃ tree, graph.treeAt? ref = some tree ∧ tree.arraysWithin elementLimit = true

theorem readable_of_tree {shape : Shape} {value : Value} {written : List Piece} {tree : Tree}
    (h : shape.pieces value = .ok written) (htake : shape.elementsTake = true)
    (htree : graph.tree? shape value = some tree)
    (hwithin : tree.arraysWithin elementLimit = true) :
    value.arraysWithin elementLimit = true ∧ ∀ ref ∈ Piece.references written,
      Readable graph ref := by
  obtain ⟨hvalue, hrefs⟩ := (Graph.tree_within_iff h htree).1 hwithin
  exact ⟨hvalue, fun ref href => ⟨Shape.elementsTake_of_pieces h htake ref href, hrefs ref href⟩⟩

theorem Serves.readable (h : Serves graph queue served)
    (hqueue : ∀ ref ∈ queue, Readable graph ref) :
    ∀ one ∈ served, one.ref.target.elementsTake = true ∧
      one.value.arraysWithin elementLimit = true := by
  induction h with
  | nil => simp
  | @cons ref queue value written served hvalue hwritten _ ih =>
    obtain ⟨⟨htake, tree, htree, hwithin⟩, hothers⟩ := List.forall_mem_cons.1 hqueue
    have htree_value : graph.tree? ref.target value = some tree := by
      rwa [Graph.treeAt?, hvalue] at htree
    obtain ⟨hvalue_within, hrefs⟩ := readable_of_tree hwritten htake htree_value hwithin
    refine List.forall_mem_cons.2 ⟨⟨htake, hvalue_within⟩, ih fun ref href => ?_⟩
    rcases List.mem_append.1 href with href | href
    · exact hothers ref href
    · exact hrefs ref href

theorem Serves.forall_ref (h : Serves graph queue served) {P : Reference → Prop}
    (step : ∀ one ∈ served, (∀ ref ∈ Piece.references one.written, P ref) → P one.ref) :
    ∀ one ∈ served, P one.ref := by
  intro one hone
  induction hdepth : one.ref.target.pointerDepth using Nat.strongRecOn generalizing one with
  | _ depth ih =>
    refine step one hone fun ref href => ?_
    have hserved : ref ∈ served.map (·.ref) := by
      rw [h.refs_eq]
      exact List.mem_append_right _ (Served.mem_references_pieces hone href)
    obtain ⟨other, hother, rfl⟩ := List.mem_map.1 hserved
    have hless := Shape.pieces_depth _ _ _ (h.pieces_eq one hone) other.ref href
    exact ih _ (hdepth ▸ hless) other hother rfl

theorem Serves.exists_tree (h : Serves graph queue served) :
    ∀ one ∈ served, ∃ tree, graph.treeAt? one.ref = some tree := by
  refine h.forall_ref (P := fun ref => ∃ tree, graph.treeAt? ref = some tree)
    fun one hone hrefs => ?_
  obtain ⟨tree, htree⟩ := (Graph.exists_tree_iff (h.pieces_eq one hone)).2 hrefs
  exact ⟨tree, Option.bind_eq_some_iff.2 ⟨one.value, h.value?_eq one hone, htree⟩⟩

/-! ### The whole graph -/

namespace Graph

variable {shape : Shape} {written : List Piece}

theorem serves_of_pieces {all : List Piece} (h : graph.pieces shape = .ok all) :
    ∃ written served, shape.pieces graph.root = .ok written ∧
      Serves graph (Piece.references written) served ∧ all = written ++ Served.pieces served := by
  obtain ⟨written, hwritten, h⟩ := bind_eq_ok_iff.1 h
  obtain ⟨later, hlater, h⟩ := bind_eq_ok_iff.1 h
  cases h
  obtain ⟨served, hserved, rfl⟩ := serves_of_drain hlater
  exact ⟨written, served, hwritten, hserved, rfl⟩

theorem serves_of_encode {ids : IdSupply} {encoded : Encoded}
    (h : graph.encode shape ids = .ok encoded) :
    ∃ written served, shape.pieces graph.root = .ok written ∧
      Serves graph (Piece.references written) served ∧
      encoded = Piece.number ids (written ++ Served.pieces served) := by
  obtain ⟨all, hall, rfl⟩ := map_eq_ok_iff.1 h
  obtain ⟨written, served, hwritten, hserved, rfl⟩ := serves_of_pieces hall
  exact ⟨written, served, hwritten, hserved, rfl⟩

theorem exists_tree_of_serves (hwritten : shape.pieces graph.root = .ok written)
    (hserves : Serves graph (Piece.references written) served) :
    ∃ tree, graph.tree? shape graph.root = some tree := by
  have hrefs : graph.ReferencesHaveTrees written := hserves.forall_queue hserves.exists_tree
  exact (exists_tree_iff hwritten).2 hrefs

theorem read_of_serves (hwritten : shape.pieces graph.root = .ok written)
    (hserves : Serves graph (Piece.references written) served) (htake : shape.elementsTake = true)
    {tree : Tree} (htree : graph.tree? shape graph.root = some tree)
    (hwithin : tree.arraysWithin elementLimit = true) {order : ByteOrder} {ids : List UInt32}
    {cursor last : Cursor}
    (hids : ids.length = (Piece.references (written ++ Served.pieces served)).length)
    (hne : ∀ id ∈ ids, id ≠ nullId)
    (hbetween : (Piece.withIds ids (written ++ Served.pieces served)).Between order cursor last) :
    (read none shape).run order cursor =
      .ok (⟨graph.root.numbered 0, Served.referents ids (Piece.references written).length served⟩,
        last) := by
  rw [Piece.references_append, List.length_append] at hids
  obtain ⟨ids1, ids2, middle, rfl, hids1, hids2, hbetween1, hbetween2⟩ :=
    Piece.exists_between_append hids rfl hbetween
  obtain ⟨hroot_within, hrefs⟩ := readable_of_tree hwritten htake htree hwithin
  have hroot := Shape.read_delivers hwritten htake hroot_within 0 ids1 order cursor middle hids1
    (fun id hid => hne id (List.mem_append_left _ hid)) hbetween1
  have hothers :=
    hserves.readReferents_eq (hserves.readable hrefs) (Piece.references written).length hids1 hids2
      (fun id hid => hne id (List.mem_append_right _ hid)) hbetween2
  rw [← Announcement.length_ofReferences hids1] at hothers
  refine bind_eq_ok_iff.2 ⟨_, hroot, bind_eq_ok_iff.2 ⟨_, hothers, ?_⟩⟩
  rw [Announcement.length_ofReferences hids1]
  rfl

/-- What a writer makes of a graph is read back to its last octet, as a graph that stands for the
same tree, with a slot for each pointer and the ids that the writer gave out, in order. -/
theorem read_of_encode (graph : Graph) (shape : Shape) (order : ByteOrder) (position : Nat)
    (ids : IdSupply) (trailing : List UInt8) (encoded : Encoded)
    (hshape : shape.elementsTake = true) (hids : ids.Reached)
    (hencode : graph.encode shape ids = .ok encoded)
    (harrays : ∀ tree, graph.tree? shape graph.root = some tree →
      tree.arraysWithin elementLimit = true) :
    ∃ decoded tree,
      (read none shape).run order ⟨position, encoded.layout.render order position ++ trailing⟩ =
        .ok (decoded, ⟨position + (encoded.layout.render order position).length, trailing⟩) ∧
      graph.tree? shape graph.root = some tree ∧ decoded.tree? shape decoded.root = some tree ∧
      decoded.slots = List.range decoded.referents.length ∧
      decoded.referents.map (·.id) = encoded.referentIds := by
  obtain ⟨written, served, hwritten, hserves, rfl⟩ := serves_of_encode hencode
  obtain ⟨tree, htree⟩ := exists_tree_of_serves hwritten hserves
  rw [Piece.number_eq]
  have hne : ∀ id ∈ (ids.draw (Piece.references (written ++ Served.pieces served)).length).1,
      id ≠ nullId :=
    (IdSupply.draw_ne_null hids.next_ne_null).1
  have hlength :=
    IdSupply.length_draw (Piece.references (written ++ Served.pieces served)).length ids
  generalize (ids.draw (Piece.references (written ++ Served.pieces served)).length).1 =
    drawn at hne hlength
  have hread := read_of_serves hwritten hserves hshape htree (harrays tree htree) hlength hne
    (Layout.between_render order position _ trailing)
  have hhom := hserves.hom (graph.root.numbered 0) drawn
  obtain ⟨targets, hnumbered⟩ := numbered_of_read hread
  refine ⟨_, tree, hread, htree, ?_, hnumbered.slots_eq_range, ?_⟩
  · have hroot : Named (slotOf graph (served.map (·.ref))) 0 graph.root.slots := by
      rw [Shape.slots_of_pieces hwritten]
      exact hserves.named.1
    rw [← hhom.tree?_eq, Value.mapSlots_numbered _ _ hroot, htree]
  · apply Serves.map_id_referents
    rw [hlength, Piece.references_append, ← hserves.refs_eq, List.length_map]

/-- Two pointers to one slot, written at an odd position. -/
theorem read_of_encode_shared :
    let shape : Shape := .struct [.pointer .u16, .pointer .u16]
    let graph : Graph := ofValues (.struct [.pointer (some 0), .pointer (some 0)]) [.u16 7]
    let encoded : Encoded :=
      ⟨[.align 4, .u32 firstId, .u32 0x20004, .u16 7, .u16 7], [firstId, 0x20004], ⟨0x20008⟩⟩
    shape.elementsTake = true ∧ IdSupply.fresh.Reached ∧ graph.encode shape .fresh = .ok encoded ∧
      (∀ tree, graph.tree? shape graph.root = some tree → tree.arraysWithin elementLimit = true) ∧
      ∃ decoded, (read none shape).run .big ⟨1, encoded.layout.render .big 1 ++ [0xFF]⟩ =
        .ok (decoded, ⟨1 + (encoded.layout.render .big 1).length, [0xFF]⟩) ∧
        decoded.tree? shape decoded.root =
          some (.struct [.pointer (.u16 7), .pointer (.u16 7)]) := by
  intro shape graph encoded
  have hencode : graph.encode shape .fresh = .ok encoded := by
    unfold shape graph encoded
    cbv
  have htree : graph.tree? shape graph.root =
      some (.struct [.pointer (.u16 7), .pointer (.u16 7)]) := rfl
  have harrays : ∀ tree, graph.tree? shape graph.root = some tree →
      tree.arraysWithin elementLimit = true := by
    intro tree h
    cases htree.symm.trans h
    rfl
  obtain ⟨decoded, tree, hread, htree', hdecoded, _⟩ :=
    read_of_encode graph shape .big 1 .fresh [0xFF] encoded rfl IdSupply.reached_fresh
      hencode harrays
  cases htree.symm.trans htree'
  exact ⟨rfl, IdSupply.reached_fresh, hencode, harrays, decoded, hread, hdecoded⟩

end Graph

end OrpcWire
