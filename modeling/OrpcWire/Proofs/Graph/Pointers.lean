import Mathlib.Algebra.GroupWithZero.Nat
import OrpcWire.Proofs.Graph.Rewrite
import OrpcWire.Proofs.Graph.Serve

/-!
# Pointers in trees

A tree has a node for each pointer that a writer follows, so the writer serves as many references,
gives out as many ids, and a reader has as many slots as the tree has pointers (`Serves.length_eq`,
`Graph.length_references_eq`, `Graph.length_referents_eq`).
-/

namespace OrpcWire

namespace Tree

mutual

/-- How many pointers in a tree are not null. -/
def pointerCount : Tree → Nat
  | .struct members => pointerCounts members
  | .array elements => pointerCounts elements
  | .pointer target => target.pointerCount + 1
  | _ => 0

/-- The same for several trees. -/
def pointerCounts : List Tree → Nat
  | [] => 0
  | tree :: trees => tree.pointerCount + pointerCounts trees

end

end Tree

namespace Graph

variable {graph : Graph} {shape : Shape} {value : Value} {values : List Value}
  {written : List Piece} {tree : Tree}

/-! ### Counting -/

/-- The pointers that a reference stands for, itself included. -/
def weight (graph : Graph) (ref : Reference) : Nat :=
  ((graph.treeAt? ref).map (·.pointerCount + 1)).getD 0

theorem weight_eq {ref : Reference} (h : graph.treeAt? ref = some tree) :
    graph.weight ref = tree.pointerCount + 1 := by
  rw [weight, h]
  rfl

variable (graph) in
/-- The pointers behind the references among pieces, the references included. -/
def weightOf (written : List Piece) : Nat := ((Piece.references written).map graph.weight).sum

theorem weightOf_append (first second : List Piece) :
    graph.weightOf (first ++ second) = graph.weightOf first + graph.weightOf second := by
  simp [weightOf]

theorem weightOf_of_nil (h : Piece.references written = []) : graph.weightOf written = 0 := by
  rw [weightOf, h]
  rfl

theorem pointerCounts_of_rows {pairs : List (Value × Tree)}
    (h : Rows (fun pair written => pair.2.pointerCount = graph.weightOf written) pairs written) :
    Tree.pointerCounts (pairs.map (·.2)) = graph.weightOf written := by
  induction h with
  | nil => rfl
  | cons hfirst _ ih => rw [List.map_cons, Tree.pointerCounts, hfirst, ih, weightOf_append]

theorem pointerCount_eq (h : shape.pieces value = .ok written)
    (htree : graph.tree? shape value = some tree) : tree.pointerCount = graph.weightOf written := by
  refine tree_induction (P := fun _ _ written tree => tree.pointerCount = graph.weightOf written)
    (Q := fun _ _ written trees => Tree.pointerCounts trees = graph.weightOf written)
    ?leaf ?null ?pointer ?array ?struct ?nil ?tail ?cons h htree
  case leaf =>
    intro shape value layout tree hleaf htree
    rw [weightOf_of_nil (Piece.references_fields layout)]
    cases hleaf <;> cases htree <;> rfl
  case null => exact fun _ => rfl
  case pointer =>
    intro target slot tree htree
    show tree.pointerCount + 1 = graph.weight ⟨slot, target⟩ + 0
    rw [weight_eq htree, Nat.add_zero]
  case array =>
    intro element pairs written h
    rw [Tree.pointerCount, pointerCounts_of_rows h]
    rfl
  case struct =>
    intro members values count written trees hcount hmembers
    rw [weightOf_append, weightOf_of_nil (Shape.references_hoistedCount hcount), Nat.zero_add]
    exact hmembers
  case nil => rfl
  case tail => exact fun _ pairs _ h => pointerCounts_of_rows h
  case cons =>
    intro _ _ _ _ first second tree trees hfirst hsecond
    rw [Tree.pointerCounts, hfirst, hsecond, weightOf_append]

end Graph

variable {graph : Graph} {shape : Shape} {queue : List Reference} {served : List Served}
  {written : List Piece} {tree : Tree}

/-- A queue is served once for each pointer behind it. -/
theorem Serves.length_eq (h : Serves graph queue served) :
    served.length = (queue.map graph.weight).sum := by
  induction h with
  | nil => rfl
  | @cons ref queue value written served hvalue hwritten hserves ih =>
    obtain ⟨tree, htree⟩ := (Serves.cons hvalue hwritten hserves).exists_tree _ List.mem_cons_self
    have hvalue_tree : graph.tree? ref.target value = some tree := by
      rwa [Graph.treeAt?, hvalue] at htree
    have hcount := Graph.pointerCount_eq hwritten hvalue_tree
    rw [Graph.weightOf] at hcount
    rw [List.length_cons, ih, List.map_append, List.sum_append, List.map_cons, List.sum_cons,
      Graph.weight_eq htree, hcount]
    omega

namespace Graph

theorem length_references_of_serves (hwritten : shape.pieces graph.root = .ok written)
    (hserves : Serves graph (Piece.references written) served)
    (htree : graph.tree? shape graph.root = some tree) :
    (Piece.references (written ++ Served.pieces served)).length = tree.pointerCount := by
  rw [Piece.references_append, ← hserves.refs_eq, List.length_map, hserves.length_eq,
    pointerCount_eq hwritten htree]
  rfl

theorem length_references_eq {ids : IdSupply} {encoded : Encoded}
    (h : graph.encode shape ids = .ok encoded) (htree : graph.tree? shape graph.root = some tree) :
    encoded.referentIds.length = tree.pointerCount := by
  obtain ⟨written, served, hwritten, hserves, rfl⟩ := serves_of_encode h
  rw [Piece.number_eq]
  simp only [IdSupply.length_draw]
  exact length_references_of_serves hwritten hserves htree

theorem tree_of_read {limit : Option Nat} {order : ByteOrder} {cursor next : Cursor}
    (h : (read limit shape).run order cursor = .ok (graph, next)) :
    ∃ tree, graph.tree? shape graph.root = some tree ∧
      graph.referents.length = tree.pointerCount := by
  obtain ⟨pieces, account⟩ := account_of_read h
  have hencode : graph.encode shape .fresh = .ok (Piece.number .fresh pieces) :=
    map_eq_ok_iff.2 ⟨pieces, account.pieces_eq, rfl⟩
  obtain ⟨written, served, hwritten, hserves, _⟩ := serves_of_encode hencode
  obtain ⟨tree, htree⟩ := exists_tree_of_serves hwritten hserves
  have hlength := length_references_eq hencode htree
  rw [Piece.number_eq, IdSupply.length_draw, account.length_references] at hlength
  exact ⟨tree, htree, hlength⟩

end Graph

end OrpcWire
