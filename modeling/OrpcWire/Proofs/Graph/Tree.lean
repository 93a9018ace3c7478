import OrpcWire.Graph.Queue

/-!
# Trees

What a graph stands for once every pointer is replaced by its referent: a tree, in which a slot that
is named several times has as many copies (`Graph.tree?`). There is none if a pointer dangles or a
value does not fit. Shapes nest finitely, so a graph that runs in circles has a tree as well, cut
off where the shape ends.

If the slots of one graph can be mapped to those of another so that values agree, both stand for the
same tree (`Graph.Hom.tree?_eq`).
-/

namespace OrpcWire

/-- A value with the referents of its pointers in place. -/
inductive Tree where
  | u8 (word : UInt8)
  | u16 (word : UInt16)
  | u32 (word : UInt32)
  | u64 (word : UInt64)
  | guid (id : Guid)
  | struct (members : List Tree)
  | array (elements : List Tree)
  | null
  | pointer (target : Tree)
  deriving Repr

namespace Graph

mutual

/-- The tree of a value in a graph. -/
def tree? (graph : Graph) : Shape → Value → Option Tree
  | .u8, .u8 word => some (.u8 word)
  | .u16, .u16 word => some (.u16 word)
  | .u32, .u32 word => some (.u32 word)
  | .u64, .u64 word => some (.u64 word)
  | .guid, .guid id => some (.guid id)
  | .pointer _, .pointer none => some .null
  | .pointer target, .pointer (some slot) => do
    let value ← graph.value? slot
    return .pointer (← graph.tree? target value)
  | .array element, .array values => return .array (← values.mapM (graph.tree? element))
  | .struct members, .struct values => return .struct (← graph.memberTrees? members values)
  | _, _ => none

/-- The trees of the members of a structure. -/
def memberTrees? (graph : Graph) : List Shape → List Value → Option (List Tree)
  | [], [] => some []
  | member :: members, value :: values =>
    return (← graph.tree? member value) :: (← graph.memberTrees? members values)
  | _, _ => none

end

end Graph

/-! ### Arrays -/

namespace Tree

mutual

/-- Whether no array in the tree has more elements than the limit. -/
def arraysWithin (limit : Nat) : Tree → Bool
  | .struct members => allWithin limit members
  | .array elements => elements.length ≤ limit && allWithin limit elements
  | .pointer target => target.arraysWithin limit
  | _ => true

/-- The same for several trees. -/
def allWithin (limit : Nat) : List Tree → Bool
  | [] => true
  | tree :: trees => tree.arraysWithin limit && allWithin limit trees

end

end Tree

namespace Value

mutual

/-- Whether no array in the value has more elements than the limit. -/
def arraysWithin (limit : Nat) : Value → Bool
  | .struct members => allWithin limit members
  | .array elements => elements.length ≤ limit && allWithin limit elements
  | _ => true

/-- The same for several values. -/
def allWithin (limit : Nat) : List Value → Bool
  | [] => true
  | value :: values => value.arraysWithin limit && allWithin limit values

end

theorem allWithin_iff {limit : Nat} {values : List Value} :
    allWithin limit values = true ↔ ∀ value ∈ values, value.arraysWithin limit = true := by
  induction values with
  | nil => simp [allWithin]
  | cons value values ih => rw [allWithin, Bool.and_eq_true, ih, List.forall_mem_cons]

mutual

/-- The value with its pointers redirected. -/
def mapSlots (σ : Nat → Nat) : Value → Value
  | .pointer (some slot) => .pointer (some (σ slot))
  | .struct members => .struct (mapSlotsAll σ members)
  | .array elements => .array (mapSlotsAll σ elements)
  | value => value

/-- The same for several values. -/
def mapSlotsAll (σ : Nat → Nat) : List Value → List Value
  | [] => []
  | value :: values => value.mapSlots σ :: mapSlotsAll σ values

end

theorem mapSlotsAll_eq_map (σ : Nat → Nat) (values : List Value) :
    mapSlotsAll σ values = values.map (mapSlots σ) := by
  induction values with
  | nil => rfl
  | cons value values ih => rw [mapSlotsAll, List.map_cons, ih]

end Value

namespace Graph

/-- Slots of `graph'` go to slots of `graph` with the same values, up to that very mapping; slots
that do not exist to slots that do not exist. -/
def Hom (σ : Nat → Nat) (graph' graph : Graph) : Prop :=
  ∀ slot, graph.value? (σ slot) = (graph'.value? slot).map (Value.mapSlots σ)

section

variable {σ : Nat → Nat} {graph graph' : Graph}

mutual

/-- Both graphs stand for the same tree. -/
theorem Hom.tree?_eq (hom : Hom σ graph' graph) : (shape : Shape) → (value : Value) →
    graph.tree? shape (value.mapSlots σ) = graph'.tree? shape value
  | .u8, value | .u16, value | .u32, value | .u64, value | .guid, value => by
    cases value with
    | pointer slot => cases slot <;> rfl
    | _ => rfl
  | .pointer target, value => by
    cases value with
    | pointer slot =>
      cases slot with
      | none => rfl
      | some slot =>
        rw [Value.mapSlots, tree?, tree?, hom slot]
        cases graph'.value? slot with
        | none => rfl
        | some value =>
          have htarget := Hom.tree?_eq hom target value
          simp [htarget]
    | _ => rfl
  | .array element, value => by
    cases value with
    | array values =>
      have helements : (Value.mapSlotsAll σ values).mapM (graph.tree? element) =
          values.mapM (graph'.tree? element) := by
        rw [Value.mapSlotsAll_eq_map]
        induction values with
        | nil => rfl
        | cons value values ih =>
          rw [List.map_cons, List.mapM_cons, List.mapM_cons, Hom.tree?_eq hom element value, ih]
      rw [Value.mapSlots, tree?, tree?, helements]
    | pointer slot => cases slot <;> rfl
    | _ => rfl
  | .struct members, value => by
    cases value with
    | struct values => rw [Value.mapSlots, tree?, tree?, Hom.memberTrees?_eq hom members values]
    | pointer slot => cases slot <;> rfl
    | _ => rfl

theorem Hom.memberTrees?_eq (hom : Hom σ graph' graph) :
    (members : List Shape) → (values : List Value) →
    graph.memberTrees? members (Value.mapSlotsAll σ values) = graph'.memberTrees? members values
  | [], values => by cases values <;> rfl
  | member :: members, values => by
    cases values with
    | nil => rfl
    | cons value values =>
      rw [Value.mapSlotsAll, memberTrees?, memberTrees?, Hom.tree?_eq hom member value,
        Hom.memberTrees?_eq hom members values]

end

end

/-- The tree behind a reference. -/
def treeAt? (graph : Graph) (ref : Reference) : Option Tree := do
  let value ← graph.value? ref.slot
  graph.tree? ref.target value

end Graph

end OrpcWire
