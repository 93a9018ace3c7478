import Mathlib.Data.List.Forall2
import OrpcWire.Proofs.Graph.Table

/-!
# Slots of graphs that have been read

The pointers of a graph that has been read, root first and then slot by slot, name the slots 0, 1, 2
and so on (`Graph.Numbered`). So every slot is named once, no pointer dangles, and since a referent
is read before those it points at, pointers run in no circle.

Nothing is assumed about the ids on the wire. A peer may repeat them; each pointer gets a slot of
its own all the same.
-/

namespace OrpcWire

namespace Graph

/-- The slots that the pointers of a graph name: those in the root, then those in each referent. -/
def slots (graph : Graph) : List Nat := graph.root.slots ++ graph.referents.flatMap (·.value.slots)

/-- The same pointers with what they point at, if the referents are values of `targets`. -/
def pointers (graph : Graph) (shape : Shape) (targets : List Shape) : List Reference :=
  shape.pointers graph.root ++
    (List.zipWith (fun target referent => target.pointers referent.value) targets
      graph.referents).flatten

/-- Each slot holds a value of its target, and the pointers name the slots and targets in order,
none of them in its own slot or behind. -/
structure Numbered (graph : Graph) (shape : Shape) (targets : List Shape) : Prop where
  fits_root : shape.fits graph.root = true
  fits_referents : List.Forall₂ (fun target referent => target.fits referent.value = true)
    targets graph.referents
  pointers_eq : graph.pointers shape targets = targets.zipIdx.map fun (target, slot) =>
    ⟨slot, target⟩
  slot_lt : ∀ slot value, graph.value? slot = some value → ∀ later ∈ value.slots, slot < later

theorem slots_referents {targets : List Shape} {referents : List Referent}
    (h : List.Forall₂ (fun target referent => target.fits referent.value = true) targets
      referents) :
    referents.flatMap (·.value.slots) =
      (List.zipWith (fun target referent => target.pointers referent.value) targets
        referents).flatten.map (·.slot) := by
  induction h with
  | nil => rfl
  | cons hfits _ ih =>
    rw [List.flatMap_cons, ih, List.zipWith_cons_cons, List.flatten_cons, List.map_append,
      Shape.slots_eq _ _ hfits]

namespace Numbered

variable {graph : Graph} {shape : Shape} {targets : List Shape}

theorem slots_eq_map (h : graph.Numbered shape targets) :
    graph.slots = (graph.pointers shape targets).map (·.slot) := by
  rw [slots, pointers, List.map_append, slots_referents h.fits_referents,
    Shape.slots_eq shape graph.root h.fits_root]

theorem slots_eq_range (h : graph.Numbered shape targets) :
    graph.slots = List.range graph.referents.length := by
  rw [h.slots_eq_map, h.pointers_eq, List.map_map, ← h.fits_referents.length_eq,
    List.range_eq_range', ← List.zipIdx_map_snd]
  rfl

theorem mem_slots_iff (h : graph.Numbered shape targets) {slot : Nat} :
    slot ∈ graph.slots ↔ slot < graph.referents.length := by
  rw [h.slots_eq_range, List.mem_range]

theorem count_slots (h : graph.Numbered shape targets) {slot : Nat}
    (hslot : slot < graph.referents.length) : graph.slots.count slot = 1 := by
  rw [h.slots_eq_range, List.count_range, if_pos hslot]

theorem named_before (h : graph.Numbered shape targets) {slot : Nat}
    (hslot : slot < graph.referents.length) :
    slot ∈ graph.root.slots ∨
      ∃ earlier value, earlier < slot ∧ graph.value? earlier = some value ∧ slot ∈ value.slots := by
  rcases List.mem_append.1 (h.mem_slots_iff.2 hslot) with hroot | hreferents
  · exact .inl hroot
  · obtain ⟨referent, hmem, hnamed⟩ := List.mem_flatMap.1 hreferents
    obtain ⟨earlier, hearlier⟩ := List.mem_iff_getElem?.1 hmem
    have hvalue : graph.value? earlier = some referent.value := by rw [value?, hearlier]; rfl
    exact .inr ⟨earlier, referent.value, h.slot_lt earlier _ hvalue slot hnamed, hvalue, hnamed⟩

theorem fits_of_mem (h : graph.Numbered shape targets) {ref : Reference}
    (hmem : ref ∈ graph.pointers shape targets) :
    ∃ value, graph.value? ref.slot = some value ∧ ref.target.fits value = true := by
  rw [h.pointers_eq] at hmem
  obtain ⟨⟨target, slot⟩, htarget, rfl⟩ := List.mem_map.1 hmem
  obtain ⟨hslot, rfl⟩ := List.getElem?_eq_some_iff.1 (List.mk_mem_zipIdx_iff_getElem?.1 htarget)
  have hreferent : slot < graph.referents.length := h.fits_referents.length_eq ▸ hslot
  refine ⟨graph.referents[slot].value, by simp [value?, hreferent], ?_⟩
  exact List.Forall₂.get h.fits_referents hslot hreferent

theorem follow_eq_ok (h : graph.Numbered shape targets) {slot : Nat} (hslot : slot ∈ graph.slots) :
    ∃ value, graph.follow (.pointer (some slot)) = .ok (some value) := by
  rw [h.slots_eq_map] at hslot
  obtain ⟨ref, hmem, rfl⟩ := List.mem_map.1 hslot
  obtain ⟨value, hvalue, _⟩ := h.fits_of_mem hmem
  refine ⟨value, ?_⟩
  simp only [follow, hvalue]

end Numbered

variable {limit : Option Nat} {shape : Shape} {order : ByteOrder} {cursor next : Cursor}
  {graph : Graph}

theorem numbered_of_read (h : (read limit shape).run order cursor = .ok (graph, next)) :
    ∃ targets, graph.Numbered shape targets := by
  obtain ⟨found, written, middle, resolved, hwritten, account, hdrains, rfl⟩ := drains_of_read h
  refine ⟨resolved.map (·.announcement.target), Shape.fits_of_pieces hwritten, ?_, ?_, ?_⟩
  · rw [List.forall₂_map_left_iff, List.forall₂_map_right_iff, List.forall₂_same]
    exact hdrains.fits
  · have hroot : shape.pointers found.value = Announcement.references 0 found.announced := by
      rw [← Shape.references_eq_pointers hwritten, account.references]
    have hreferents : (List.zipWith (fun target referent => target.pointers referent.value)
        (resolved.map (·.announcement.target)) (resolved.map Resolved.referent)).flatten =
          Announcement.references found.announced.length (Resolved.announced resolved) := by
      rw [List.zipWith_map, List.zipWith_self, ← List.flatMap_def]
      exact hdrains.flatMap_pointers.trans (by rw [Nat.zero_add])
    rw [pointers, hroot, hreferents]
    -- The announcements come in the order in which their referents are read.
    rw [← Nat.zero_add found.announced.length, ← Announcement.references_append,
      ← hdrains.announcements_eq]
    simp [Announcement.references, List.zipIdx_map, Function.comp_def]
  · intro slot value hvalue later hlater
    obtain ⟨referent, hreferent, rfl⟩ := Option.map_eq_some_iff.1 hvalue
    rw [List.getElem?_map] at hreferent
    obtain ⟨one, hone, rfl⟩ := Option.map_eq_some_iff.1 hreferent
    have hmem := List.mem_of_getElem? hone
    rw [Resolved.referent, Shape.slots_eq _ _ (hdrains.fits one hmem),
      hdrains.pointers_eq one hmem] at hlater
    obtain ⟨ref, href, rfl⟩ := List.mem_map.1 hlater
    have := hdrains.lt_slot hone ref href
    omega

/-- The pointers of a graph that has been read name its slots in order, each slot once; a slot is
named in the root or in a slot in front of it, every pointer can be followed, and what it leads to
fits its target. A reader that fills a table of slots reads the same graphs and never finds a slot
empty in the end. -/
theorem read_numbered (limit : Option Nat) (shape : Shape) :
    (∀ order cursor graph next, (read limit shape).run order cursor = .ok (graph, next) →
      graph.slots = List.range graph.referents.length ∧
      (∀ slot < graph.referents.length, graph.slots.count slot = 1 ∧ (slot ∈ graph.root.slots ∨
        ∃ earlier value, earlier < slot ∧ graph.value? earlier = some value ∧ slot ∈ value.slots)) ∧
      (∀ slot value, graph.value? slot = some value → ∀ later ∈ value.slots, slot < later) ∧
      (∀ pointer : Option Nat, (∀ slot ∈ pointer, slot ∈ graph.slots) →
        ∃ answer, graph.follow (.pointer pointer) = .ok answer ∧ answer.isSome = pointer.isSome) ∧
      shape.fits graph.root = true ∧
      ∃ targets,
        graph.pointers shape targets = targets.zipIdx.map (fun (target, slot) => ⟨slot, target⟩) ∧
        targets.length = graph.referents.length ∧ ∀ ref ∈ graph.pointers shape targets, ∃ value,
          graph.value? ref.slot = some value ∧ ref.target.fits value = true) ∧
    readByTable limit shape = read limit shape ∧
    ∀ order cursor root table next,
      (fillGraph limit shape).run order cursor = .ok ((root, table), next) →
      ∀ slot ∈ table.slots, slot.2.isSome = true := by
  refine ⟨fun order cursor graph next h => ?_, readByTable_eq limit shape, ?_⟩
  · obtain ⟨targets, hnumbered⟩ := numbered_of_read h
    refine ⟨hnumbered.slots_eq_range,
      fun slot hslot => ⟨hnumbered.count_slots hslot, hnumbered.named_before hslot⟩,
      hnumbered.slot_lt,
      fun pointer hpointer => ?_, hnumbered.fits_root, targets, hnumbered.pointers_eq,
      hnumbered.fits_referents.length_eq, fun ref hmem => hnumbered.fits_of_mem hmem⟩
    cases pointer with
    | none => exact ⟨none, rfl, rfl⟩
    | some slot =>
      obtain ⟨value, hvalue⟩ := hnumbered.follow_eq_ok (hpointer slot rfl)
      exact ⟨some value, hvalue, rfl⟩
  · intro order cursor root table next h slot hmem
    obtain ⟨referents, hslots⟩ := filled_of_fillGraph h
    rw [hslots] at hmem
    obtain ⟨referent, _, rfl⟩ := List.mem_map.1 hmem
    rfl

/-- One id on three pointers, one of them inside a referent. -/
theorem read_numbered_repeated_id :
    let octets := [0, 0, 2, 0, 0, 0, 2, 0, 7, 0, 0, 0, 0, 0, 2, 0, 9, 1]
    let graph : Graph := ⟨.struct [.pointer (some 0), .pointer (some 1)],
      [⟨firstId, .u8 7⟩, ⟨firstId, .pointer (some 2)⟩, ⟨firstId, .u8 9⟩]⟩
    (read none (.struct [.pointer .u8, .pointer (.pointer .u8)])).run .little ⟨0, octets⟩ =
      .ok (graph, ⟨17, [1]⟩) ∧ graph.slots = List.range 3 := by
  intro octets graph
  have hread :
      (read none (.struct [.pointer .u8, .pointer (.pointer .u8)])).run .little ⟨0, octets⟩ =
        .ok (graph, ⟨17, [1]⟩) := by
    unfold octets graph
    cbv
  exact ⟨hread, ((read_numbered none _).1 _ _ _ _ hread).1⟩

end Graph

end OrpcWire
