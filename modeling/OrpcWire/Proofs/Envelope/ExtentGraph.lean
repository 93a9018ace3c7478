import OrpcWire.Proofs.Envelope.ExtentArray

/-!
# Graphs of extent arrays

Every extent array is what some graph of the shape of chains says (`ExtentArray.tree?_graph`): the
extents come first, in the order of their slots, then the array and the header. Which pointer is
which extent is a matter of order alone, since the pointers in the slots are numbered from left to
right and null slots take no number (`slotNumbers`).
-/

namespace OrpcWire

/-! ### Numbered slots -/

section

variable {α β : Type}

/-- Numbers from `first` on for the slots that are not null. -/
def slotNumbers : Nat → List (Option α) → List (Option Nat)
  | _, [] => []
  | first, none :: slots => none :: slotNumbers first slots
  | first, some _ :: slots => some first :: slotNumbers (first + 1) slots

@[simp] theorem length_slotNumbers (first : Nat) (slots : List (Option α)) :
    (slotNumbers first slots).length = slots.length := by
  induction slots generalizing first with
  | nil => rfl
  | cons slot slots ih => cases slot <;> rw [slotNumbers, List.length_cons, ih, List.length_cons]

theorem reduceOption_slotNumbers (first : Nat) (slots : List (Option α)) :
    (slotNumbers first slots).reduceOption = List.range' first slots.reduceOption.length := by
  induction slots generalizing first with
  | nil => rfl
  | cons slot slots ih =>
    cases slot with
    | none => rw [slotNumbers, List.reduceOption_cons_of_none, List.reduceOption_cons_of_none, ih]
    | some a =>
      rw [slotNumbers, List.reduceOption_cons_of_some, List.reduceOption_cons_of_some, ih,
        List.length_cons, List.range'_succ]

theorem slotNumbers_map (f : α → β) (first : Nat) (slots : List (Option α)) :
    slotNumbers first (slots.map (Option.map f)) = slotNumbers first slots := by
  induction slots generalizing first with
  | nil => rfl
  | cons slot slots ih =>
    cases slot <;> rw [List.map_cons, Option.map, slotNumbers, slotNumbers, ih]

theorem slotNumbers_padded (as : List α) (first nulls : Nat) :
    slotNumbers first (as.map some ++ List.replicate nulls none) =
      (List.range' first as.length).map some ++ List.replicate nulls none := by
  induction as generalizing first with
  | nil =>
    induction nulls with
    | zero => rfl
    | succ nulls ih => exact congrArg (none :: ·) ih
  | cons a as ih =>
    rw [List.map_cons, List.cons_append, slotNumbers, ih, List.length_cons, List.range'_succ]; rfl

end

namespace Extent

def value (extent : Extent) : Value :=
  .struct [.guid extent.id, .u32 extent.size, .ofOctets extent.data]

theorem tree?_octets (graph : Graph) (data : List UInt8) :
    graph.tree? .octets (.ofOctets data) = some (.array (data.map .u8)) := by
  refine Graph.tree?_array_eq_some.2 ⟨data.map .u8, ?_, rfl⟩
  induction data with
  | nil => rfl
  | cons octet data ih =>
    rw [List.map_cons, List.mapM_cons, ih]
    rfl

theorem tree?_value (graph : Graph) (extent : Extent) :
    graph.tree? Extension.shape extent.value = some extent.tree := by
  refine Graph.tree?_struct_eq_some.2 ⟨_, ?_, rfl⟩
  refine Graph.memberTrees?_cons_eq_some.2 ⟨_, _, rfl, ?_, rfl⟩
  refine Graph.memberTrees?_cons_eq_some.2 ⟨_, _, rfl, ?_, rfl⟩
  exact Graph.memberTrees?_cons_eq_some.2 ⟨_, _, tree?_octets graph extent.data, rfl, rfl⟩

/-- The extents stand in the slots of a graph from `first` on. -/
def StandFrom (graph : Graph) (first : Nat) (extents : List Extent) : Prop :=
  ∀ k extent, extents[k]? = some extent → graph.value? (first + k) = some extent.value

theorem StandFrom.head {graph : Graph} {first : Nat} {extent : Extent} {extents : List Extent}
    (h : StandFrom graph first (extent :: extents)) : graph.value? first = some extent.value :=
  h 0 extent rfl

theorem StandFrom.tail {graph : Graph} {first : Nat} {extent : Extent} {extents : List Extent}
    (h : StandFrom graph first (extent :: extents)) : StandFrom graph (first + 1) extents := by
  intro k other hother
  rw [Nat.add_assoc, Nat.add_comm 1 k]
  exact h (k + 1) other hother

/-- The pointers in the slots of an array. -/
def slotValues (first : Nat) (slots : List (Option Extent)) : List Value :=
  (slotNumbers first slots).map .pointer

theorem trees_slotValues {graph : Graph} {first : Nat} {slots : List (Option Extent)}
    (h : StandFrom graph first slots.reduceOption) :
    (slotValues first slots).mapM (graph.tree? (.pointer Extension.shape)) =
      some (slots.map slotTree) := by
  induction slots generalizing first with
  | nil => rfl
  | cons slot slots ih =>
    cases slot with
    | none =>
      rw [slotValues, slotNumbers, List.map_cons, List.mapM_cons, ← slotValues, ih h]
      rfl
    | some extent =>
      rw [List.reduceOption_cons_of_some] at h
      have hextent : graph.tree? (.pointer Extension.shape) (.pointer (some first)) =
          some (slotTree (some extent)) :=
        Graph.tree?_pointer_eq_some.2 ⟨extent.tree,
          Option.bind_eq_some_iff.2 ⟨_, h.head, tree?_value graph extent⟩, rfl⟩
      rw [slotValues, slotNumbers, List.map_cons, List.mapM_cons, hextent, ← slotValues, ih h.tail]
      rfl

end Extent

/-! ### The graph -/

theorem Graph.value?_ofValues (root : Value) (values : List Value) (slot : Nat) :
    (Graph.ofValues root values).value? slot = values[slot]? := by
  rw [value?, ofValues, List.getElem?_map, Option.map_map]
  exact Option.map_id'

namespace Chain

def arrayShape : Shape := .array (.pointer Extension.shape)

def headerShape : Shape := .struct [.u32, .u32, .pointer arrayShape]

end Chain

namespace ExtentArray

variable {count reserved : UInt32} {slots : List (Option Extent)}

/-- The value of a header. -/
def headerValue (count reserved : UInt32) (array : Option Nat) : Value :=
  .struct [.u32 count, .u32 reserved, .pointer array]

/-- The graph of an extent array: the extents first, then the array, then the header. -/
def graph (count reserved : UInt32) (slots : List (Option Extent)) : Graph :=
  .ofValues (.pointer (some (slots.reduceOption.length + 1)))
    (slots.reduceOption.map Extent.value ++
      [.array (Extent.slotValues 0 slots),
        headerValue count reserved (some slots.reduceOption.length)])

theorem standFrom_graph : Extent.StandFrom (graph count reserved slots) 0 slots.reduceOption := by
  intro k extent hextent
  have hlt : k < slots.reduceOption.length := (List.getElem?_eq_some_iff.1 hextent).1
  rw [graph, Graph.value?_ofValues, Nat.zero_add,
    List.getElem?_append_left (by rwa [List.length_map]), List.getElem?_map, hextent]
  rfl

theorem value?_array : (graph count reserved slots).value? slots.reduceOption.length =
    some (.array (Extent.slotValues 0 slots)) := by
  rw [graph, Graph.value?_ofValues, List.getElem?_append_right (Nat.le_of_eq (List.length_map _)),
    List.length_map, Nat.sub_self]
  rfl

theorem value?_header : (graph count reserved slots).value? (slots.reduceOption.length + 1) =
    some (headerValue count reserved (some slots.reduceOption.length)) := by
  rw [graph, Graph.value?_ofValues, List.getElem?_append_right (by rw [List.length_map]; omega),
    List.length_map, Nat.add_sub_cancel_left]
  rfl

theorem tree?_headerValue {graph : Graph} {array : Option Nat} {tree : Tree}
    (h : graph.tree? (.pointer Chain.arrayShape) (.pointer array) = some tree) :
    graph.tree? Chain.headerShape (headerValue count reserved array) =
      some (.struct [.u32 count, .u32 reserved, tree]) := by
  refine Graph.tree?_struct_eq_some.2 ⟨_, ?_, rfl⟩
  refine Graph.memberTrees?_cons_eq_some.2 ⟨_, _, rfl, ?_, rfl⟩
  refine Graph.memberTrees?_cons_eq_some.2 ⟨_, _, rfl, ?_, rfl⟩
  exact Graph.memberTrees?_cons_eq_some.2 ⟨_, _, h, rfl, rfl⟩

/-- The graph of an extent array stands for it. -/
theorem tree?_graph (count reserved : UInt32) (slots : List (Option Extent)) :
    (graph count reserved slots).tree? Chain.shape (graph count reserved slots).root =
      some (Chain.treeOf (some ⟨count, reserved, some slots⟩)) := by
  have harray : (graph count reserved slots).tree? (.pointer Chain.arrayShape)
      (.pointer (some slots.reduceOption.length)) =
        some (.pointer (.array (slots.map Extent.slotTree))) :=
    Graph.tree?_pointer_eq_some.2 ⟨_, Option.bind_eq_some_iff.2 ⟨_, value?_array,
      Graph.tree?_array_eq_some.2 ⟨_, Extent.trees_slotValues standFrom_graph, rfl⟩⟩, rfl⟩
  exact Graph.tree?_pointer_eq_some.2 ⟨_,
    Option.bind_eq_some_iff.2 ⟨_, value?_header, tree?_headerValue harray⟩, rfl⟩

/-- The graph of a header without an array. -/
def headerGraph (count reserved : UInt32) : Graph :=
  .ofValues (.pointer (some 0)) [headerValue count reserved none]

theorem tree?_headerGraph (count reserved : UInt32) :
    (headerGraph count reserved).tree? Chain.shape (headerGraph count reserved).root =
      some (Chain.treeOf (some ⟨count, reserved, none⟩)) := by
  have hheader : (headerGraph count reserved).value? 0 = some (headerValue count reserved none) :=
    rfl
  have hnull : (headerGraph count reserved).tree? (.pointer Chain.arrayShape) (.pointer none) =
      some .null := rfl
  exact Graph.tree?_pointer_eq_some.2 ⟨_,
    Option.bind_eq_some_iff.2 ⟨_, hheader, tree?_headerValue hnull⟩, rfl⟩

end ExtentArray

end OrpcWire
