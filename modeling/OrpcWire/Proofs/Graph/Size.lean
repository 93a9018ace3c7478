import OrpcWire.Proofs.Graph.Pointers

/-!
# Octets of trees

The size of a tree is what its words, ids and counts take up, without any padding. A reader uses up
no fewer octets than the tree has that it answers (`Graph.size_le_of_read`). Octets are not read
twice: two pointers with the same id announce two referents, each with octets of its own.

The octets of a value are those of its pieces (`Piece.sizes`) and, behind the references among them,
those of further trees (`Graph.sizesBehind`). The count of a last array is not with its elements but
in front of the structure, which is why `Tree.sizes` of members may be four octets more than what
the members are written as.
-/

namespace OrpcWire

namespace Tree

mutual

/-- The octets of a tree without padding. -/
def size : Tree → Nat
  | .u8 _ => 1
  | .u16 _ => 2
  | .u32 _ | .null => 4
  | .u64 _ => 8
  | .guid _ => 16
  | .struct members => sizes members
  | .array elements => 4 + sizes elements
  | .pointer target => 4 + target.size

/-- The same for several trees. -/
def sizes : List Tree → Nat
  | [] => 0
  | tree :: trees => tree.size + sizes trees

end

end Tree

namespace Piece

/-- The octets of a piece without padding. -/
def size : Piece → Nat
  | .field content => content.size
  | .reference _ => 4

def sizes (pieces : List Piece) : Nat := (pieces.map size).sum

@[simp] theorem sizes_nil : sizes [] = 0 := rfl

@[simp] theorem sizes_cons (piece : Piece) (pieces : List Piece) :
    sizes (piece :: pieces) = piece.size + sizes pieces := rfl

@[simp] theorem sizes_append (first second : List Piece) :
    sizes (first ++ second) = sizes first + sizes second := by
  simp [sizes]

theorem sizes_hoistedCount {members : List Shape} {values : List Value} {count : List Piece}
    (h : Shape.hoistedCount members values = .ok count) :
    sizes count = if Shape.isConformant members then 4 else 0 := by
  obtain ⟨count, hconformant, _, rfl⟩ := Shape.hoistedCount_eq_ok_iff.1 h
  rw [← hconformant]
  cases count <;> rfl

theorem add_sizes_le_endFrom (ids : List UInt32) (pieces : List Piece) (position : Nat) :
    position + sizes pieces ≤ Layout.endFrom position (withIds ids pieces) := by
  induction pieces generalizing ids position with
  | nil => simp
  | cons piece pieces ih =>
    cases piece with
    | field content =>
      have := ih ids (position + padding content.boundary position + content.size)
      rw [withIds, Layout.endFrom, sizes_cons, size]
      omega
    | reference ref =>
      have := ih ids.tail (position + padding 4 position + 4)
      rw [withIds, Layout.endFrom, sizes_cons, size]
      show _ ≤ Layout.endFrom (position + padding 4 position + 4) (withIds ids.tail pieces)
      omega

end Piece

namespace Graph

variable {graph : Graph} {shape : Shape} {value : Value} {written : List Piece} {tree : Tree}
  {queue : List Reference} {served : List Served}

/-- The octets of the tree that a reference stands for. -/
def sizeAt (graph : Graph) (ref : Reference) : Nat := ((graph.treeAt? ref).map Tree.size).getD 0

theorem sizeAt_eq {ref : Reference} (h : graph.treeAt? ref = some tree) :
    graph.sizeAt ref = tree.size := by
  rw [sizeAt, h]
  rfl

variable (graph) in
/-- The octets of the trees behind references. -/
def sizesBehind (refs : List Reference) : Nat := (refs.map graph.sizeAt).sum

@[simp] theorem sizesBehind_append (first second : List Reference) :
    graph.sizesBehind (first ++ second) = graph.sizesBehind first + graph.sizesBehind second := by
  simp [sizesBehind]

variable (graph) in
/-- The octets of pieces and of the trees behind the references among them. -/
def sizeOf (written : List Piece) : Nat :=
  Piece.sizes written + graph.sizesBehind (Piece.references written)

theorem sizeOf_append (first second : List Piece) :
    graph.sizeOf (first ++ second) = graph.sizeOf first + graph.sizeOf second := by
  rw [sizeOf, sizeOf, sizeOf, Piece.sizes_append, Piece.references_append, sizesBehind_append]
  omega

theorem sizes_le_of_rows {pairs : List (Value × Tree)}
    (h : Rows (fun pair written => pair.2.size ≤ graph.sizeOf written) pairs written) :
    Tree.sizes (pairs.map (·.2)) ≤ graph.sizeOf written := by
  induction h with
  | nil => exact Nat.zero_le _
  | cons hfirst _ ih =>
    rw [List.map_cons, Tree.sizes, sizeOf_append]
    omega

theorem sizeOf_hoistedCount {members : List Shape} {values : List Value} {count : List Piece}
    (h : Shape.hoistedCount members values = .ok count) :
    graph.sizeOf count = if Shape.isConformant members then 4 else 0 := by
  rw [sizeOf, Piece.sizes_hoistedCount h, Shape.references_hoistedCount h]
  rfl

theorem size_le (h : shape.pieces value = .ok written)
    (htree : graph.tree? shape value = some tree) : tree.size ≤ graph.sizeOf written := by
  refine tree_induction (P := fun _ _ written tree => tree.size ≤ graph.sizeOf written)
    (Q := fun members _ written trees =>
      Tree.sizes trees ≤ graph.sizeOf written + if Shape.isConformant members then 4 else 0)
    ?leaf ?null ?pointer ?array ?struct ?nil ?tail ?cons h htree
  case leaf =>
    intro shape value layout tree hleaf htree
    cases hleaf <;> cases htree
    case guid id =>
      have hlast := id.data4.length_eq
      show 16 ≤ 4 + (2 + (2 + (id.data4.octets.length + 0))) + 0
      omega
    all_goals exact Nat.le_refl _
  case null => exact fun _ => Nat.le_refl _
  case pointer =>
    intro target slot tree htree
    show 4 + tree.size ≤ 4 + (graph.sizeAt ⟨slot, target⟩ + 0)
    rw [sizeAt_eq htree]
    exact Nat.le_refl _
  case array =>
    intro element pairs written h
    have hcount : graph.sizeOf [.field (.u32 (.ofNat pairs.length))] = 4 := rfl
    have helements := sizes_le_of_rows h
    rw [← List.singleton_append, sizeOf_append, hcount, Tree.size]
    omega
  case struct =>
    intro members values count written trees hcount hmembers
    have halign : graph.sizeOf [.field (.align (Shape.alignment (.struct members)))] = 0 := rfl
    rw [← List.singleton_append, sizeOf_append, sizeOf_append, sizeOf_hoistedCount hcount,
      halign, Tree.size]
    omega
  case nil => exact Nat.zero_le _
  case tail =>
    intro element pairs written h
    have helements := sizes_le_of_rows h
    show 4 + Tree.sizes (pairs.map (·.2)) + 0 ≤ graph.sizeOf written + 4
    omega
  case cons =>
    intro member members value values first second tree trees hfirst hsecond
    have hcount : (if Shape.isConformant members then 4 else 0) ≤
        if Shape.isConformant (member :: members) then 4 else 0 := by
      cases members with
      | nil => exact Nat.zero_le _
      | cons next members => exact Nat.le_of_eq (by rw [Shape.isConformant_cons_cons])
    rw [Tree.sizes, sizeOf_append]
    omega

theorem sizesBehind_le (h : Serves graph queue served) :
    graph.sizesBehind queue ≤ Piece.sizes (Served.pieces served) := by
  induction h with
  | nil => exact Nat.le_refl _
  | @cons ref queue value written served hvalue hwritten hserves ih =>
    obtain ⟨tree, htree⟩ := (Serves.cons hvalue hwritten hserves).exists_tree _ List.mem_cons_self
    have hvalue_tree : graph.tree? ref.target value = some tree := by
      rwa [treeAt?, hvalue] at htree
    have hsize := size_le hwritten hvalue_tree
    have hqueue : graph.sizesBehind (ref :: queue) = tree.size + graph.sizesBehind queue := by
      rw [← sizeAt_eq htree]
      rfl
    rw [sizesBehind_append] at ih
    rw [sizeOf] at hsize
    rw [hqueue, Served.pieces_cons, Piece.sizes_append]
    dsimp only
    omega

/-- A reader uses up no fewer octets than the tree has that it answers. -/
theorem size_le_of_read {limit : Option Nat} {order : ByteOrder} {cursor next : Cursor}
    (h : (read limit shape).run order cursor = .ok (graph, next))
    (htree : graph.tree? shape graph.root = some tree) :
    next.rest.length + tree.size ≤ cursor.rest.length := by
  obtain ⟨pieces, account⟩ := account_of_read h
  obtain ⟨root, hroot, hpieces⟩ := bind_eq_ok_iff.1 account.pieces_eq
  obtain ⟨later, hlater, heq⟩ := bind_eq_ok_iff.1 hpieces
  cases heq
  obtain ⟨served, hserves, rfl⟩ := serves_of_drain hlater
  have hsize : tree.size ≤ Piece.sizes (root ++ Served.pieces served) := by
    have hroot_size := size_le hroot htree
    have hserved_size := sizesBehind_le hserves
    rw [sizeOf] at hroot_size
    rw [Piece.sizes_append]
    omega
  have hposition :=
    Piece.add_sizes_le_endFrom (graph.referents.map (·.id))
      (root ++ Served.pieces served) cursor.position
  rw [← account.between.position_eq] at hposition
  have hlength := account.between.length_eq
  omega

end Graph

end OrpcWire
