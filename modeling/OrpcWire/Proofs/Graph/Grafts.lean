import OrpcWire.Proofs.Graph.Ids
import OrpcWire.Proofs.Graph.Pieces
import OrpcWire.Proofs.Graph.Tree

/-!
# Trees of values that are written

Where a value has been written, its tree is what the pieces say with other trees grafted on: for
each reference among the pieces the tree of its referent. So the tree is there exactly if those are
(`Graph.exists_tree_iff`), and what a tree is made of is made of the value and of them, as with the
limit on the elements of arrays (`Graph.tree_within_iff`).

`Graph.tree_induction` is the induction on how a value is written that carries its tree along.
-/

namespace OrpcWire

namespace Graph

variable {graph : Graph} {shape : Shape} {value : Value} {values : List Value}
  {written : List Piece} {tree : Tree} {limit : Nat}

/-! ### Values with their trees -/

theorem tree?_pointer_eq_some {target : Shape} {slot : Nat} :
    graph.tree? (.pointer target) (.pointer (some slot)) = some tree ↔
      ∃ pointed, graph.treeAt? ⟨slot, target⟩ = some pointed ∧ tree = .pointer pointed := by
  rw [tree?, treeAt?]
  cases graph.value? slot with
  | none => simp
  | some value => simp [Option.bind_eq_some_iff, eq_comm (a := tree)]

theorem tree?_array_eq_some {element : Shape} :
    graph.tree? (.array element) (.array values) = some tree ↔
      ∃ trees, values.mapM (graph.tree? element) = some trees ∧ tree = .array trees := by
  rw [tree?]
  simp [Option.bind_eq_some_iff, eq_comm (a := tree)]

theorem tree?_struct_eq_some {members : List Shape} :
    graph.tree? (.struct members) (.struct values) = some tree ↔
      ∃ trees, graph.memberTrees? members values = some trees ∧ tree = .struct trees := by
  rw [tree?]
  simp [Option.bind_eq_some_iff, eq_comm (a := tree)]

theorem trees_cons_eq_some {trees : List Tree} :
    (value :: values).mapM (graph.tree? shape) = some trees ↔
      ∃ first others, graph.tree? shape value = some first ∧
        values.mapM (graph.tree? shape) = some others ∧ trees = first :: others := by
  rw [List.mapM_cons]
  simp [Option.bind_eq_some_iff, eq_comm (a := trees)]

theorem memberTrees?_cons_eq_some {member : Shape} {members : List Shape} {trees : List Tree} :
    graph.memberTrees? (member :: members) (value :: values) = some trees ↔
      ∃ first others, graph.tree? member value = some first ∧
        graph.memberTrees? members values = some others ∧ trees = first :: others := by
  rw [memberTrees?]
  simp [Option.bind_eq_some_iff, eq_comm (a := trees)]

theorem struct_of_tree? {members : List Shape}
    (h : graph.tree? (.struct members) value = some tree) :
    ∃ values trees, value = .struct values ∧ graph.memberTrees? members values = some trees ∧
      tree = .struct trees := by
  cases value with
  | struct values =>
    obtain ⟨trees, htrees, rfl⟩ := tree?_struct_eq_some.1 h
    exact ⟨values, trees, rfl, htrees, rfl⟩
  | _ => cases h

theorem array_of_tree? {element : Shape} (h : graph.tree? (.array element) value = some tree) :
    ∃ values trees, value = .array values ∧ values.mapM (graph.tree? element) = some trees ∧
      tree = .array trees := by
  cases value with
  | array values =>
    obtain ⟨trees, htrees, rfl⟩ := tree?_array_eq_some.1 h
    exact ⟨values, trees, rfl, htrees, rfl⟩
  | _ => cases h

theorem length_of_trees {trees : List Tree} (h : values.mapM (graph.tree? shape) = some trees) :
    values.length = trees.length := by
  induction values generalizing trees with
  | nil =>
    cases h
    rfl
  | cons value values ih =>
    obtain ⟨tree, others, _, hothers, rfl⟩ := trees_cons_eq_some.1 h
    rw [List.length_cons, List.length_cons, ih hothers]

theorem first_of_memberTrees? {member : Shape} {members : List Shape} {trees : List Tree}
    (h : graph.memberTrees? (member :: members) values = some trees) :
    ∃ value others first later, values = value :: others ∧ graph.tree? member value = some first ∧
      graph.memberTrees? members others = some later ∧ trees = first :: later := by
  cases values with
  | nil => cases h
  | cons value others =>
    obtain ⟨first, later, hfirst, hlater, rfl⟩ := memberTrees?_cons_eq_some.1 h
    exact ⟨value, others, first, later, rfl, hfirst, hlater, rfl⟩

theorem nil_of_memberTrees? {trees : List Tree} (h : graph.memberTrees? [] values = some trees) :
    values = [] ∧ trees = [] := by
  cases values with
  | nil =>
    cases h
    exact ⟨rfl, rfl⟩
  | cons value values => cases h

theorem follow_of_tree? {target : Shape} (h : graph.tree? (.pointer target) value = some tree) :
    graph.follow value = .ok none ∧ tree = .null ∨
      ∃ pointed later, graph.follow value = .ok (some pointed) ∧
        graph.tree? target pointed = some later ∧ tree = .pointer later := by
  cases value with
  | pointer slot =>
    cases slot with
    | none =>
      cases h
      exact .inl ⟨rfl, rfl⟩
    | some slot =>
      obtain ⟨later, hlater, rfl⟩ := tree?_pointer_eq_some.1 h
      obtain ⟨pointed, hpointed, hlater⟩ := Option.bind_eq_some_iff.1 hlater
      exact .inr ⟨pointed, later, by simp only [follow, hpointed], hlater, rfl⟩
  | _ => cases h

/-! ### Whether there is a tree -/

theorem exists_tree_pointer_iff {target : Shape} {slot : Nat} :
    (∃ tree, graph.tree? (.pointer target) (.pointer (some slot)) = some tree) ↔
      ∃ pointed, graph.treeAt? ⟨slot, target⟩ = some pointed := by
  simp only [tree?_pointer_eq_some]
  exact ⟨fun ⟨_, pointed, hpointed, _⟩ => ⟨pointed, hpointed⟩,
    fun ⟨pointed, hpointed⟩ => ⟨_, pointed, hpointed, rfl⟩⟩

theorem exists_tree_array_iff {element : Shape} :
    (∃ tree, graph.tree? (.array element) (.array values) = some tree) ↔
      ∃ trees, values.mapM (graph.tree? element) = some trees := by
  simp only [tree?_array_eq_some]
  exact ⟨fun ⟨_, trees, htrees, _⟩ => ⟨trees, htrees⟩,
    fun ⟨trees, htrees⟩ => ⟨_, trees, htrees, rfl⟩⟩

theorem exists_tree_struct_iff {members : List Shape} :
    (∃ tree, graph.tree? (.struct members) (.struct values) = some tree) ↔
      ∃ trees, graph.memberTrees? members values = some trees := by
  simp only [tree?_struct_eq_some]
  exact ⟨fun ⟨_, trees, htrees, _⟩ => ⟨trees, htrees⟩,
    fun ⟨trees, htrees⟩ => ⟨_, trees, htrees, rfl⟩⟩

theorem exists_memberTrees_cons_iff {member : Shape} {members : List Shape} :
    (∃ trees, graph.memberTrees? (member :: members) (value :: values) = some trees) ↔
      (∃ tree, graph.tree? member value = some tree) ∧ ∃ trees,
        graph.memberTrees? members values = some trees := by
  simp only [memberTrees?_cons_eq_some]
  constructor
  · rintro ⟨_, first, others, hfirst, hothers, _⟩
    exact ⟨⟨first, hfirst⟩, others, hothers⟩
  · rintro ⟨⟨first, hfirst⟩, others, hothers⟩
    exact ⟨_, first, others, hfirst, hothers, rfl⟩

theorem exists_trees_cons_iff :
    (∃ trees, (value :: values).mapM (graph.tree? shape) = some trees) ↔
      (∃ tree, graph.tree? shape value = some tree) ∧ ∃ trees,
        values.mapM (graph.tree? shape) = some trees := by
  simp only [trees_cons_eq_some]
  constructor
  · rintro ⟨_, first, others, hfirst, hothers, _⟩
    exact ⟨⟨first, hfirst⟩, others, hothers⟩
  · rintro ⟨⟨first, hfirst⟩, others, hothers⟩
    exact ⟨_, first, others, hfirst, hothers, rfl⟩

variable (graph) in
/-- Whatever the pieces refer to has a tree. -/
def ReferencesHaveTrees (written : List Piece) : Prop :=
  ∀ ref ∈ Piece.references written, ∃ pointed, graph.treeAt? ref = some pointed

theorem referencesHaveTrees_append {first second : List Piece} :
    graph.ReferencesHaveTrees (first ++ second) ↔
      graph.ReferencesHaveTrees first ∧ graph.ReferencesHaveTrees second := by
  rw [ReferencesHaveTrees, Piece.references_append]
  exact List.forall_mem_append

theorem referencesHaveTrees_of_nil (h : Piece.references written = []) :
    graph.ReferencesHaveTrees written := by
  rw [ReferencesHaveTrees, h]
  exact List.forall_mem_nil _

theorem exists_trees_iff_of_rows
    (h : Rows (fun value written =>
      (∃ tree, graph.tree? shape value = some tree) ↔ graph.ReferencesHaveTrees written)
      values written) :
    (∃ trees, values.mapM (graph.tree? shape) = some trees) ↔
      graph.ReferencesHaveTrees written := by
  induction h with
  | nil => exact iff_of_true ⟨[], rfl⟩ (referencesHaveTrees_of_nil rfl)
  | cons hfirst _ ih => rw [exists_trees_cons_iff, referencesHaveTrees_append, hfirst, ih]

/-- A value that can be written has a tree exactly if the references it leaves have. -/
theorem exists_tree_iff (h : shape.pieces value = .ok written) :
    (∃ tree, graph.tree? shape value = some tree) ↔ graph.ReferencesHaveTrees written := by
  refine Shape.pieces_induction
    (P := fun shape value written =>
      (∃ tree, graph.tree? shape value = some tree) ↔ graph.ReferencesHaveTrees written)
    (Q := fun members values written =>
      (∃ trees, graph.memberTrees? members values = some trees) ↔ graph.ReferencesHaveTrees written)
    ?leaf ?null ?pointer ?array ?struct ?nil ?tail ?cons shape value written h
  case leaf =>
    intro shape value layout hleaf
    refine iff_of_true ?_ (referencesHaveTrees_of_nil (Piece.references_fields layout))
    cases hleaf <;> exact ⟨_, rfl⟩
  case null => exact fun _ => iff_of_true ⟨.null, rfl⟩ (referencesHaveTrees_of_nil rfl)
  case pointer =>
    intro target slot
    rw [exists_tree_pointer_iff, ReferencesHaveTrees, Piece.references_reference,
      Piece.references_nil, List.forall_mem_singleton]
  case array =>
    intro element values written _ hrows
    rw [exists_tree_array_iff, exists_trees_iff_of_rows (hrows.imp fun _ _ _ h => h.2)]
    rfl
  case struct =>
    intro members values count written _ hcount hmembers
    have hnone : graph.ReferencesHaveTrees count :=
      referencesHaveTrees_of_nil (Shape.references_hoistedCount hcount)
    rw [exists_tree_struct_iff, hmembers, referencesHaveTrees_append]
    exact (and_iff_right hnone).symm
  case nil => exact iff_of_true ⟨[], rfl⟩ (referencesHaveTrees_of_nil rfl)
  case tail =>
    intro element values written hrows
    rw [exists_memberTrees_cons_iff, exists_tree_array_iff,
      exists_trees_iff_of_rows (hrows.imp fun _ _ _ h => h.2)]
    exact and_iff_left ⟨[], rfl⟩
  case cons =>
    intro member members value values first second _ _ hfirst hsecond
    rw [exists_memberTrees_cons_iff, referencesHaveTrees_append, hfirst, hsecond]

/-! ### Induction -/

theorem pairs_of_rows {P : Value → List Piece → Tree → Prop}
    (h : Rows (fun value written =>
      ∀ tree, graph.tree? shape value = some tree → P value written tree) values written)
    {trees : List Tree} (htrees : values.mapM (graph.tree? shape) = some trees) :
    ∃ pairs : List (Value × Tree), values = pairs.map (·.1) ∧ trees = pairs.map (·.2) ∧
      Rows (fun pair written => P pair.1 written pair.2) pairs written := by
  induction h generalizing trees with
  | nil =>
    cases htrees
    exact ⟨[], rfl, rfl, .nil⟩
  | @cons value values first second hfirst _ ih =>
    obtain ⟨tree, others, htree, hothers, rfl⟩ := trees_cons_eq_some.1 htrees
    obtain ⟨pairs, rfl, rfl, hrows⟩ := ih hothers
    exact ⟨(value, tree) :: pairs, rfl, rfl, .cons (hfirst tree htree) hrows⟩

/-- Induction on how a value is written, with its tree. -/
theorem tree_induction {P : Shape → Value → List Piece → Tree → Prop}
    {Q : List Shape → List Value → List Piece → List Tree → Prop}
    (leaf : ∀ shape value layout tree, Shape.Leaf shape value layout →
      graph.tree? shape value = some tree → P shape value (layout.map .field) tree)
    (null : ∀ target, P (.pointer target) .null [.field (.u32 nullId)] .null)
    (pointer : ∀ target slot tree, graph.treeAt? ⟨slot, target⟩ = some tree →
      P (.pointer target) (.pointer (some slot)) [.reference ⟨slot, target⟩] (.pointer tree))
    (array : ∀ element (pairs : List (Value × Tree)) written,
      Rows (fun pair written => P element pair.1 written pair.2) pairs written →
      P (.array element) (.array (pairs.map (·.1))) (.field (.u32 (.ofNat pairs.length)) :: written)
        (.array (pairs.map (·.2))))
    (struct : ∀ members values count written trees, Shape.hoistedCount members values = .ok count →
      Q members values written trees →
      P (.struct members) (.struct values)
        (count ++ .field (.align (Shape.alignment (.struct members))) :: written) (.struct trees))
    (nil : Q [] [] [] [])
    (tail : ∀ element (pairs : List (Value × Tree)) written,
      Rows (fun pair written => P element pair.1 written pair.2) pairs written →
      Q [.array element] [.array (pairs.map (·.1))] written [.array (pairs.map (·.2))])
    (cons : ∀ member members value values first second tree trees, P member value first tree →
      Q members values second trees →
      Q (member :: members) (value :: values) (first ++ second) (tree :: trees))
    (h : shape.pieces value = .ok written) (htree : graph.tree? shape value = some tree) :
    P shape value written tree := by
  refine Shape.pieces_induction
    (P := fun shape value written =>
      ∀ tree, graph.tree? shape value = some tree → P shape value written tree)
    (Q := fun members values written => ∀ trees, graph.memberTrees? members values = some trees →
      Q members values written trees)
    ?leaf ?null ?pointer ?array ?struct ?nil ?tail ?cons shape value written h tree htree
  case leaf =>
    exact fun shape value layout hleaf tree htree => leaf shape value layout tree hleaf htree
  case null =>
    intro target tree htree
    cases htree
    exact null target
  case pointer =>
    intro target slot tree htree
    obtain ⟨pointed, hpointed, rfl⟩ := tree?_pointer_eq_some.1 htree
    exact pointer target slot pointed hpointed
  case array =>
    intro element values written _ hrows tree htree
    obtain ⟨trees, htrees, rfl⟩ := tree?_array_eq_some.1 htree
    obtain ⟨pairs, rfl, rfl, hpairs⟩ := pairs_of_rows (hrows.imp fun _ _ _ h => h.2) htrees
    rw [List.length_map]
    exact array element pairs written hpairs
  case struct =>
    intro members values count written _ hcount hmembers tree htree
    obtain ⟨trees, htrees, rfl⟩ := tree?_struct_eq_some.1 htree
    exact struct members values count written trees hcount (hmembers trees htrees)
  case nil =>
    intro trees htrees
    cases htrees
    exact nil
  case tail =>
    intro element values written hrows trees htrees
    obtain ⟨first, others, hfirst, hothers, rfl⟩ := memberTrees?_cons_eq_some.1 htrees
    obtain ⟨elements, helements, rfl⟩ := tree?_array_eq_some.1 hfirst
    cases hothers
    obtain ⟨pairs, rfl, rfl, hpairs⟩ := pairs_of_rows (hrows.imp fun _ _ _ h => h.2) helements
    exact tail element pairs written hpairs
  case cons =>
    intro member members value values first second _ _ hfirst hsecond trees htrees
    obtain ⟨tree, others, htree, hothers, rfl⟩ := memberTrees?_cons_eq_some.1 htrees
    exact cons member members value values first second tree others (hfirst tree htree)
      (hsecond others hothers)

/-! ### Arrays within a limit -/

variable (graph limit) in
/-- No array behind the references of these pieces has more elements than the limit. -/
def ReferencesWithin (written : List Piece) : Prop :=
  ∀ ref ∈ Piece.references written, ∃ tree, graph.treeAt? ref = some tree ∧
    tree.arraysWithin limit = true

theorem referencesWithin_append {first second : List Piece} :
    graph.ReferencesWithin limit (first ++ second) ↔
      graph.ReferencesWithin limit first ∧ graph.ReferencesWithin limit second := by
  rw [ReferencesWithin, Piece.references_append]
  exact List.forall_mem_append

theorem referencesWithin_of_nil (h : Piece.references written = []) :
    graph.ReferencesWithin limit written := by
  rw [ReferencesWithin, h]
  exact List.forall_mem_nil _

theorem allWithin_iff_of_rows {pairs : List (Value × Tree)}
    (h : Rows (fun pair written => pair.2.arraysWithin limit = true ↔
      pair.1.arraysWithin limit = true ∧ graph.ReferencesWithin limit written) pairs written) :
    Tree.allWithin limit (pairs.map (·.2)) = true ↔
      Value.allWithin limit (pairs.map (·.1)) = true ∧ graph.ReferencesWithin limit written := by
  induction h with
  | nil => exact iff_of_true rfl ⟨rfl, referencesWithin_of_nil rfl⟩
  | cons hfirst _ ih =>
    rw [List.map_cons, List.map_cons, Tree.allWithin, Value.allWithin, Bool.and_eq_true,
      Bool.and_eq_true, referencesWithin_append, hfirst, ih, and_and_and_comm]

/-- The arrays in a tree are those in the value and those behind the references it leaves. -/
theorem tree_within_iff (h : shape.pieces value = .ok written)
    (htree : graph.tree? shape value = some tree) :
    tree.arraysWithin limit = true ↔
      value.arraysWithin limit = true ∧ graph.ReferencesWithin limit written := by
  refine tree_induction
    (P := fun _ value written tree =>
      tree.arraysWithin limit = true ↔
      value.arraysWithin limit = true ∧ graph.ReferencesWithin limit written)
    (Q := fun _ values written trees =>
      Tree.allWithin limit trees = true ↔
      Value.allWithin limit values = true ∧ graph.ReferencesWithin limit written)
    ?leaf ?null ?pointer ?array ?struct ?nil ?tail ?cons h htree
  case leaf =>
    intro shape value layout tree hleaf htree
    have hnone : graph.ReferencesWithin limit (layout.map .field) :=
      referencesWithin_of_nil (Piece.references_fields layout)
    cases hleaf <;> cases htree <;> exact iff_of_true rfl ⟨rfl, hnone⟩
  case null => exact fun _ => iff_of_true rfl ⟨rfl, referencesWithin_of_nil rfl⟩
  case pointer =>
    intro target slot tree htree
    simp [ReferencesWithin, htree, Tree.arraysWithin, Value.arraysWithin]
  case array =>
    intro element pairs written h
    rw [Tree.arraysWithin, Value.arraysWithin, List.length_map, List.length_map, Bool.and_eq_true,
      Bool.and_eq_true, allWithin_iff_of_rows h, and_assoc]
    rfl
  case struct =>
    intro members values count written trees hcount hmembers
    have hnone : graph.ReferencesWithin limit count :=
      referencesWithin_of_nil (Shape.references_hoistedCount hcount)
    rw [Tree.arraysWithin, Value.arraysWithin, hmembers, referencesWithin_append]
    exact and_congr_right fun _ => (and_iff_right hnone).symm
  case nil => exact iff_of_true rfl ⟨rfl, referencesWithin_of_nil rfl⟩
  case tail =>
    intro element pairs written h
    simp only [Tree.allWithin, Tree.arraysWithin, Value.allWithin, Value.arraysWithin,
      List.length_map, Bool.and_eq_true, Bool.and_true, allWithin_iff_of_rows h, and_assoc]
  case cons =>
    intro _ _ value values first second tree trees hfirst hsecond
    rw [Tree.allWithin, Value.allWithin, Bool.and_eq_true, Bool.and_eq_true,
      referencesWithin_append, hfirst, hsecond, and_and_and_comm]

end Graph

end OrpcWire
