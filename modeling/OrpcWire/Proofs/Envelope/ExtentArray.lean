import Mathlib.Data.List.ReduceOption
import OrpcWire.Envelope.Chain
import OrpcWire.Proofs.Graph.Acceptance
import OrpcWire.Proofs.Wire.Finds

/-!
# Extent arrays

What a graph of the shape of chains says, as typed data: no header, or a header with a count, a
reserved word and slots, in which extents stand with the padding of their data (`ExtentArray`).
Taking such a graph apart depends on nothing else (`Chain.ofGraph_eq`), so all the places where a
pointer or a part of the wrong kind would be found are out of reach (`Chain.received_fails`).

The extensions are those of the slots that are not null (`ExtentArray.extensions`). Their number is
not that of the header.
-/

namespace OrpcWire

/-- An extension as it stands on the wire, its data with the padding. -/
structure Extent where
  id : Guid
  /-- How much of the data counts. -/
  size : UInt32
  data : List UInt8
  deriving DecidableEq, Repr

namespace Extent

def tree (extent : Extent) : Tree :=
  .struct [.guid extent.id, .u32 extent.size, .array (extent.data.map .u8)]

/-- The extension without padding. -/
def extension (extent : Extent) : Except OrpcError Extension :=
  if extent.data.length < extent.size.toNat then
    .error (.extensions (.unexpectedShape .shortData))
  else
    .ok ⟨extent.id, extent.data.take extent.size.toNat⟩

theorem length_data_le {extent : Extent} {extension : Extension}
    (h : extent.extension = .ok extension) : extension.data.length ≤ extent.data.length := by
  unfold Extent.extension at h
  split at h
  · cases h
  · cases h
    exact List.length_take_le' _ _

/-- A slot of the array: a pointer to an extent, or the null pointer. -/
def slotTree (slot : Option Extent) : Tree := slot.elim .null fun extent => .pointer extent.tree

end Extent

/-- The header of a chain and the slots of its array, none if the array is missing. -/
structure ExtentArray where
  count : UInt32
  reserved : UInt32
  slots : Option (List (Option Extent))
  deriving DecidableEq, Repr

namespace ExtentArray

def tree (array : ExtentArray) : Tree :=
  .struct [.u32 array.count, .u32 array.reserved,
    array.slots.elim .null fun slots => .pointer (.array (slots.map Extent.slotTree))]

/-- The extensions in the slots that are not null, under a limit on the count in the header. -/
def extensions (limit : Nat) (array : ExtentArray) : Except OrpcError (List Extension) :=
  if limit < array.count.toNat then
    .error (.extensions (.tooManyReceived array.count.toNat limit))
  else
    match array.slots with
    | none =>
      if array.count.toNat = 0 then .ok []
      else .error (.extensions (.unexpectedShape .nullArrayPointer))
    | some slots =>
      if slots.length < array.count.toNat then
        .error (.extensions (.unexpectedShape .fewerSlots))
      else
        slots.reduceOption.mapM Extent.extension

end ExtentArray

namespace Chain

variable {graph : Graph} {value : Value} {values : List Value} {tree : Tree} {trees : List Tree}
  {limit : Nat}

/-- The tree of a chain, null if there is none. -/
def treeOf (array : Option ExtentArray) : Tree := array.elim .null fun array => .pointer array.tree

/-- The chain that is received. -/
def received (limit : Nat) (array : Option ExtentArray) : Except OrpcError Chain :=
  array.elim (.ok none) fun array => (array.extensions limit).map some

/-! ### Graphs of the shape of chains -/

theorem octets_of_tree? (h : graph.tree? .octets value = some tree) :
    ∃ data, value = .ofOctets data ∧ tree = .array (data.map .u8) := by
  obtain ⟨values, trees, rfl, htrees, rfl⟩ := Graph.array_of_tree? h
  suffices ∃ data : List UInt8, values = data.map .u8 ∧ trees = data.map .u8 by
    obtain ⟨data, rfl, rfl⟩ := this
    exact ⟨data, rfl, rfl⟩
  clear h
  induction values generalizing trees with
  | nil =>
    cases htrees
    exact ⟨[], rfl, rfl⟩
  | cons value values ih =>
    obtain ⟨first, others, hfirst, hothers, rfl⟩ := Graph.trees_cons_eq_some.1 htrees
    cases value with
    | u8 octet =>
      cases hfirst
      obtain ⟨data, rfl, rfl⟩ := ih others hothers
      exact ⟨octet :: data, rfl, rfl⟩
    | _ => cases hfirst

theorem extent_of_tree? (h : graph.tree? Extension.shape value = some tree) :
    ∃ extent : Extent, tree = extent.tree ∧
      value = .struct [.guid extent.id, .u32 extent.size, .ofOctets extent.data] := by
  obtain ⟨values, trees, rfl, htrees, rfl⟩ := Graph.struct_of_tree? h
  obtain ⟨id, values1, idTree, trees1, rfl, hid, htrees1, rfl⟩ := Graph.first_of_memberTrees? htrees
  obtain ⟨size, values2, sizeTree, trees2, rfl, hsize, htrees2, rfl⟩ :=
    Graph.first_of_memberTrees? htrees1
  obtain ⟨data, values3, dataTree, trees3, rfl, hdata, htrees3, rfl⟩ :=
    Graph.first_of_memberTrees? htrees2
  obtain ⟨rfl, rfl⟩ := Graph.nil_of_memberTrees? htrees3
  obtain ⟨octets, rfl, rfl⟩ := octets_of_tree? hdata
  cases id <;> cases hid
  cases size <;> cases hsize
  exact ⟨⟨_, _, octets⟩, rfl, rfl⟩

theorem follow_eq {answer : Option Value} (h : graph.follow value = .ok answer) :
    follow graph value = .ok answer := by
  rw [follow, h]
  rfl

theorem ofSlot_eq (h : graph.tree? (.pointer Extension.shape) value = some tree) :
    ∃ extent : Option Extent, tree = Extent.slotTree extent ∧
      ofSlot graph value = extent.elim (.ok none) fun extent => extent.extension.map some := by
  rcases Graph.follow_of_tree? h with ⟨hfollow, rfl⟩ | ⟨pointed, later, hfollow, hlater, rfl⟩
  · refine ⟨none, rfl, ?_⟩
    rw [ofSlot, follow_eq hfollow]
    rfl
  · obtain ⟨extent, rfl, rfl⟩ := extent_of_tree? hlater
    refine ⟨some extent, rfl, ?_⟩
    have hmembers : Extension.ofMembers [.guid extent.id, .u32 extent.size,
        .ofOctets extent.data] = extent.extension := by
      simp only [Extension.ofMembers, Value.octets?_ofOctets]
      rfl
    rw [ofSlot, follow_eq hfollow, Option.elim_some, ← hmembers]
    rfl

theorem ofSlots_eq (h : values.mapM (graph.tree? (.pointer Extension.shape)) = some trees) :
    ∃ slots : List (Option Extent), trees = slots.map Extent.slotTree ∧
      (values.mapM (ofSlot graph)).map List.reduceOption =
        slots.reduceOption.mapM Extent.extension := by
  induction values generalizing trees with
  | nil =>
    cases h
    exact ⟨[], rfl, rfl⟩
  | cons value values ih =>
    obtain ⟨first, others, hfirst, hothers, rfl⟩ := Graph.trees_cons_eq_some.1 h
    obtain ⟨slot, rfl, hslot⟩ := ofSlot_eq hfirst
    obtain ⟨slots, rfl, hslots⟩ := ih hothers
    refine ⟨slot :: slots, rfl, ?_⟩
    rw [List.mapM_cons, hslot]
    cases slot with
    | none =>
      rw [List.reduceOption_cons_of_none, ← hslots]
      cases values.mapM (ofSlot graph) <;> rfl
    | some extent =>
      rw [List.reduceOption_cons_of_some, List.mapM_cons, ← hslots, Option.elim_some]
      cases extent.extension with
      | error error => rfl
      | ok extension => cases values.mapM (ofSlot graph) <;> rfl

theorem ofArray_eq
    (h : graph.tree? (.pointer (.array (.pointer Extension.shape))) value = some tree) :
    ∃ slots : Option (List (Option Extent)),
      tree = slots.elim .null (fun slots => .pointer (.array (slots.map Extent.slotTree))) ∧
      ∀ count : UInt32, ofArray graph count.toNat value = match slots with
        | none =>
          if count.toNat = 0 then .ok []
          else .error (.extensions (.unexpectedShape .nullArrayPointer))
        | some slots =>
          if slots.length < count.toNat then
            .error (.extensions (.unexpectedShape .fewerSlots))
          else
            slots.reduceOption.mapM Extent.extension := by
  rcases Graph.follow_of_tree? h with ⟨hfollow, rfl⟩ | ⟨pointed, later, hfollow, hlater, rfl⟩
  · refine ⟨none, rfl, fun count => ?_⟩
    rw [ofArray, follow_eq hfollow]
    rfl
  · obtain ⟨values, trees, rfl, htrees, rfl⟩ := Graph.array_of_tree? hlater
    obtain ⟨slots, rfl, hslots⟩ := ofSlots_eq htrees
    refine ⟨some slots, rfl, fun count => ?_⟩
    have hlength : values.length = slots.length := by
      rw [Graph.length_of_trees htrees, List.length_map]
    rw [ofArray, follow_eq hfollow]
    show (if values.length < count.toNat then _ else _) =
      if slots.length < count.toNat then _ else _
    rw [hlength, ← hslots]
    split
    · rfl
    · cases values.mapM (ofSlot graph) <;> rfl

/-- What a graph of the shape of chains says, and the chain in it. -/
theorem ofGraph_eq (h : graph.tree? shape graph.root = some tree) :
    ∃ array : Option ExtentArray, tree = treeOf array ∧ ∀ limit,
      ofGraph limit graph = received limit array := by
  rcases Graph.follow_of_tree? h with ⟨hfollow, rfl⟩ | ⟨header, headerTree, hfollow, hheader, rfl⟩
  · refine ⟨none, rfl, fun limit => ?_⟩
    rw [ofGraph, follow_eq hfollow]
    rfl
  · obtain ⟨values, trees, rfl, htrees, rfl⟩ := Graph.struct_of_tree? hheader
    obtain ⟨count, values1, countTree, trees1, rfl, hcount, htrees1, rfl⟩ :=
      Graph.first_of_memberTrees? htrees
    obtain ⟨reserved, values2, reservedTree, trees2, rfl, hreserved, htrees2, rfl⟩ :=
      Graph.first_of_memberTrees? htrees1
    obtain ⟨pointer, values3, pointerTree, trees3, rfl, hpointer, htrees3, rfl⟩ :=
      Graph.first_of_memberTrees? htrees2
    obtain ⟨rfl, rfl⟩ := Graph.nil_of_memberTrees? htrees3
    obtain ⟨slots, rfl, hslots⟩ := ofArray_eq hpointer
    cases count <;> cases hcount
    cases reserved <;> cases hreserved
    rename_i count reserved
    refine ⟨some ⟨count, reserved, slots⟩, rfl, fun limit => ?_⟩
    rw [ofGraph, follow_eq hfollow]
    show some <$> (if limit < count.toNat then _ else ofArray graph count.toNat pointer) =
      (ExtentArray.extensions limit ⟨count, reserved, slots⟩).map some
    rw [ExtentArray.extensions, hslots]
    rfl

end Chain

/-! ### Pointers and arrays -/

namespace Tree

variable {α : Type} {limit : Nat}

theorem pointerCounts_map_eq_zero {f : α → Tree} (h : ∀ a, (f a).pointerCount = 0) (as : List α) :
    pointerCounts (as.map f) = 0 := by
  induction as with
  | nil => rfl
  | cons a as ih => rw [List.map_cons, pointerCounts, h, ih]

theorem allWithin_map_iff {f : α → Tree} {as : List α} :
    allWithin limit (as.map f) = true ↔ ∀ a ∈ as, (f a).arraysWithin limit = true := by
  induction as with
  | nil => simp [allWithin]
  | cons a as ih => rw [List.map_cons, allWithin, Bool.and_eq_true, ih, List.forall_mem_cons]

end Tree

namespace Extent

theorem pointerCount_tree (extent : Extent) : extent.tree.pointerCount = 0 := by
  have hdata : Tree.pointerCounts (extent.data.map .u8) = 0 :=
    Tree.pointerCounts_map_eq_zero (fun _ => rfl) _
  simp only [tree, Tree.pointerCount, Tree.pointerCounts, hdata]

theorem arraysWithin_tree_iff {extent : Extent} {limit : Nat} :
    extent.tree.arraysWithin limit = true ↔ extent.data.length ≤ limit := by
  have hdata : Tree.allWithin limit (extent.data.map .u8) = true :=
    Tree.allWithin_map_iff.2 fun _ _ => rfl
  simp [tree, Tree.arraysWithin, Tree.allWithin, hdata]

theorem pointerCounts_slots (slots : List (Option Extent)) :
    Tree.pointerCounts (slots.map slotTree) = slots.reduceOption.length := by
  induction slots with
  | nil => rfl
  | cons slot slots ih =>
    rw [List.map_cons, Tree.pointerCounts, ih]
    cases slot with
    | none =>
      rw [List.reduceOption_cons_of_none]
      exact Nat.zero_add _
    | some extent =>
      rw [List.reduceOption_cons_of_some, List.length_cons, slotTree, Option.elim_some,
        Tree.pointerCount, pointerCount_tree]
      omega

theorem arraysWithin_slotTree_iff {slot : Option Extent} {limit : Nat} :
    (slotTree slot).arraysWithin limit = true ↔ ∀ extent ∈ slot, extent.data.length ≤ limit := by
  cases slot with
  | none => simp [slotTree, Tree.arraysWithin]
  | some extent => simp [slotTree, Tree.arraysWithin, arraysWithin_tree_iff]

end Extent

namespace Chain

variable {count reserved : UInt32} {slots : List (Option Extent)} {limit : Nat}

theorem pointerCount_treeOf (count reserved : UInt32) (slots : List (Option Extent)) :
    (treeOf (some ⟨count, reserved, some slots⟩)).pointerCount = slots.reduceOption.length + 2 := by
  simp [treeOf, ExtentArray.tree, Tree.pointerCount, Tree.pointerCounts, Extent.pointerCounts_slots]

theorem arraysWithin_treeOf_iff :
    (treeOf (some ⟨count, reserved, some slots⟩)).arraysWithin limit = true ↔
      slots.length ≤ limit ∧ ∀ extent ∈ slots.reduceOption, extent.data.length ≤ limit := by
  have hslots : Tree.allWithin limit (slots.map Extent.slotTree) = true ↔
      ∀ extent ∈ slots.reduceOption, extent.data.length ≤ limit := by
    rw [Tree.allWithin_map_iff]
    simp only [Extent.arraysWithin_slotTree_iff, List.reduceOption_mem_iff]
    constructor
    · exact fun h extent hmem => h (some extent) hmem extent rfl
    · rintro h slot hmem extent rfl
      exact h extent hmem
  simp [treeOf, ExtentArray.tree, Tree.arraysWithin, Tree.allWithin, hslots]

end Chain

/-! ### What is received -/

namespace ExtentArray

variable {array : ExtentArray} {limit : Nat} {extensions : List Extension}

theorem length_extensions (h : array.extensions limit = .ok extensions) :
    extensions.length = (array.slots.getD []).reduceOption.length := by
  unfold ExtentArray.extensions at h
  split at h
  · cases h
  · split at h
    · rename_i hslots
      rw [hslots]
      split at h
      · cases h
        rfl
      · cases h
    · rename_i slots hslots
      rw [hslots]
      split at h
      · cases h
      · exact length_of_mapM_eq_ok h

theorem exists_extent (h : array.extensions limit = .ok extensions) :
    ∀ extension ∈ extensions, ∃ extent ∈ (array.slots.getD []).reduceOption,
      extent.extension = .ok extension := by
  unfold ExtentArray.extensions at h
  split at h
  · cases h
  · split at h
    · split at h
      · cases h
        simp
      · cases h
    · rename_i slots hslots
      rw [hslots]
      split at h
      · cases h
      · exact exists_of_mem_mapM h

/-- What can be wrong with a chain: the count in the header, or the size of an extent. -/
inductive Defect (limit : Nat) : ExtensionsDefect → Prop
  | tooMany (count : Nat) : limit < count → Defect limit (.tooManyReceived count limit)
  | nullArrayPointer : Defect limit (.unexpectedShape .nullArrayPointer)
  | fewerSlots : Defect limit (.unexpectedShape .fewerSlots)
  | shortData : Defect limit (.unexpectedShape .shortData)

theorem extensions_fails {error : OrpcError} (h : array.extensions limit = .error error) :
    ∃ defect, error = .extensions defect ∧ Defect limit defect := by
  unfold ExtentArray.extensions at h
  split at h
  · rename_i hcount
    cases h
    exact ⟨_, rfl, .tooMany _ hcount⟩
  · split at h
    · split at h
      · cases h
      · cases h
        exact ⟨_, rfl, .nullArrayPointer⟩
    · split at h
      · cases h
        exact ⟨_, rfl, .fewerSlots⟩
      · obtain ⟨extent, _, hextent⟩ := exists_of_mapM_eq_error h
        unfold Extent.extension at hextent
        split at hextent
        · cases hextent
          exact ⟨_, rfl, .shortData⟩
        · cases hextent

end ExtentArray

namespace Chain

variable {limit : Nat} {array : Option ExtentArray}

theorem received_fails {error : OrpcError} (h : received limit array = .error error) :
    ∃ defect, error = .extensions defect ∧ ExtentArray.Defect limit defect := by
  cases array with
  | none => cases h
  | some array =>
    cases hextensions : array.extensions limit with
    | error error' =>
      rw [received, Option.elim_some, hextensions] at h
      cases h
      exact ExtentArray.extensions_fails hextensions
    | ok extensions =>
      rw [received, Option.elim_some, hextensions] at h
      cases h

theorem received_of_read {bound : Option Nat} {order : ByteOrder} {cursor next : Cursor}
    {graph : Graph} (h : (Graph.read bound shape).run order cursor = .ok (graph, next)) :
    ∃ array, (∀ limit, ofGraph limit graph = received limit array) ∧
      graph.referents.length = (treeOf array).pointerCount ∧
      (treeOf array).arraysWithin elementLimit = true := by
  obtain ⟨tree, htree, hcount⟩ := Graph.tree_of_read h
  obtain ⟨array, rfl, hreceived⟩ := ofGraph_eq htree
  exact ⟨array, hreceived, hcount, Graph.tree_within_of_read rfl h htree⟩

theorem array_of_read {order : ByteOrder} {cursor next : Cursor} {chain : Chain}
    (h : (read limit).run order cursor = .ok (chain, next)) :
    ∃ array, received limit array = .ok chain ∧ (treeOf array).pointerCount ≤ referentLimit limit ∧
      (treeOf array).arraysWithin elementLimit = true := by
  obtain ⟨graph, middle, hgraph, hchain⟩ := Reader.run_bind_eq_ok.1 h
  obtain ⟨hread, hlimit⟩ := Graph.run_read_some_eq_ok_iff.1 (Reader.run_eq_ok_of_lift hgraph)
  obtain ⟨array, hreceived, hcount, hwithin⟩ := received_of_read hread
  obtain ⟨found, hfound, heq⟩ := map_eq_ok_iff.1 hchain
  cases heq
  exact ⟨array, (hreceived limit).symm.trans hfound, hcount ▸ hlimit, hwithin⟩

end Chain

end OrpcWire
