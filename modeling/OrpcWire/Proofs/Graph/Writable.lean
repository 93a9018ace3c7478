import OrpcWire.Proofs.Graph.Pointers

/-!
# Graphs that can be written

A graph that stands for a tree can be written, unless an array in the tree has more elements than a
word can count (`Graph.encode_fails`). So a graph that fits its shape is never refused as one that
does not.
-/

namespace OrpcWire

variable {α β : Type}

/-- Failing is up to an array that is too long to be counted. -/
def FailsUncounted (long : Prop) (result : Except WireError α) : Prop :=
  ∀ error, result = .error error → long ∧ ∃ count, error = .limitExceeded count (UInt32.size - 1)

namespace FailsUncounted

variable {long long' : Prop} {result : Except WireError α}

theorem ok (a : α) : FailsUncounted long (.ok a : Except WireError α) := FailsWith.ok a

theorem imp (h : FailsUncounted long result) (himp : long → long') : FailsUncounted long' result :=
  FailsWith.imp h fun _ => And.imp_left himp

theorem bind {next : α → Except WireError β} (h : FailsUncounted long result)
    (hnext : ∀ a, result = .ok a → FailsUncounted long (next a)) :
    FailsUncounted long (result >>= next) :=
  FailsWith.bind h hnext

theorem map (h : FailsUncounted long result) (f : α → β) : FailsUncounted long (result.map f) :=
  FailsWith.map h f

theorem exists_ok (h : FailsUncounted long result) (hlong : ¬long) : ∃ a, result = .ok a := by
  cases result with
  | error error => exact absurd (h error rfl).1 hlong
  | ok a => exact ⟨a, rfl⟩

end FailsUncounted

theorem countField_fails (count : Nat) :
    FailsUncounted (UInt32.size ≤ count) (countField count) := by
  unfold countField
  by_cases hlt : count < UInt32.size
  · rw [if_pos hlt]
    exact .ok _
  · rw [if_neg hlt]
    intro error heq
    cases heq
    exact ⟨Nat.le_of_not_lt hlt, count, rfl⟩

namespace Tree

/-- Some array in the tree has more elements than a word can count. -/
def Uncountable (tree : Tree) : Prop := tree.arraysWithin (UInt32.size - 1) = false

/-- The same for several trees. -/
def AnyUncountable (trees : List Tree) : Prop := allWithin (UInt32.size - 1) trees = false

theorem anyUncountable_cons {tree : Tree} {trees : List Tree} :
    AnyUncountable (tree :: trees) ↔ tree.Uncountable ∨ AnyUncountable trees := by
  rw [AnyUncountable, allWithin, Bool.and_eq_false_iff]
  rfl

theorem uncountable_array {elements : List Tree} :
    (array elements).Uncountable ↔ UInt32.size ≤ elements.length ∨ AnyUncountable elements := by
  rw [Uncountable, arraysWithin, Bool.and_eq_false_iff, decide_eq_false_iff_not]
  refine or_congr_left ?_
  have : 0 < UInt32.size := by decide
  omega

theorem anyUncountable_of_mem {tree : Tree} {trees : List Tree} (hmem : tree ∈ trees)
    (h : tree.Uncountable) : AnyUncountable trees := by
  induction trees with
  | nil => cases hmem
  | cons first others ih =>
    rw [anyUncountable_cons]
    rcases List.mem_cons.1 hmem with rfl | hmem
    · exact .inl h
    · exact .inr (ih hmem)

end Tree

namespace Graph

variable {graph : Graph} {shape : Shape} {value : Value} {values : List Value}
  {members : List Shape} {trees : List Tree}

/-! ### One value -/

theorem elements_fail (helement : ∀ value tree, graph.tree? shape value = some tree →
      FailsUncounted tree.Uncountable (shape.pieces value))
    (h : values.mapM (graph.tree? shape) = some trees) :
    FailsUncounted (Tree.AnyUncountable trees) (values.mapM shape.pieces) := by
  induction values generalizing trees with
  | nil => exact .ok _
  | cons value values ih =>
    obtain ⟨tree, others, htree, hothers, rfl⟩ := trees_cons_eq_some.1 h
    rw [List.mapM_cons]
    refine ((helement value tree htree).imp fun h =>
      Tree.anyUncountable_cons.2 (.inl h)).bind fun first _ => ?_
    refine ((ih hothers).imp fun h => Tree.anyUncountable_cons.2 (.inr h)).bind fun rest _ => ?_
    exact .ok _

theorem memberTrees?_length (h : graph.memberTrees? members values = some trees) :
    members.length = values.length := by
  induction members generalizing values trees with
  | nil =>
    cases values with
    | nil => rfl
    | cons value values => cases h
  | cons member members ih =>
    cases values with
    | nil => cases h
    | cons value values =>
      obtain ⟨_, others, _, hothers, _⟩ := memberTrees?_cons_eq_some.1 h
      rw [List.length_cons, List.length_cons, ih hothers]

theorem exists_last_array (h : graph.memberTrees? members values = some trees)
    (hconformant : Shape.isConformant members = true) :
    ∃ elements elementTrees, values.getLast? = some (.array elements) ∧
      .array elementTrees ∈ trees ∧ elements.length = elementTrees.length := by
  induction members generalizing values trees with
  | nil => cases hconformant
  | cons member members ih =>
    cases values with
    | nil => cases h
    | cons value values =>
      obtain ⟨tree, others, htree, hothers, rfl⟩ := memberTrees?_cons_eq_some.1 h
      by_cases hspecial : members = [] ∧ ∃ element, member = .array element
      · obtain ⟨rfl, element, rfl⟩ := hspecial
        cases List.length_eq_zero_iff.1 (memberTrees?_length hothers).symm
        cases value with
        | array elements =>
          obtain ⟨elementTrees, helements, rfl⟩ := tree?_array_eq_some.1 htree
          exact ⟨elements, elementTrees, rfl, List.mem_cons_self, length_of_trees helements⟩
        | _ => cases htree
      · have hmember : members = [] → ∀ element, member ≠ .array element :=
          fun hnil element helement => hspecial ⟨hnil, element, helement⟩
        rw [Shape.isConformant_cons hmember] at hconformant
        obtain ⟨elements, elementTrees, hlast, hmem, hlength⟩ := ih hothers hconformant
        refine ⟨elements, elementTrees, ?_, List.mem_cons_of_mem _ hmem, hlength⟩
        rw [List.getLast?_cons, hlast]
        rfl

theorem hoistedCount_fails (h : graph.memberTrees? members values = some trees) :
    FailsUncounted (Tree.AnyUncountable trees) (Shape.hoistedCount members values) := by
  unfold Shape.hoistedCount
  by_cases hconformant : Shape.isConformant members = true
  · obtain ⟨elements, elementTrees, hlast, hmem, hlength⟩ := exists_last_array h hconformant
    rw [if_pos hconformant, hlast]
    refine ((countField_fails elements.length).imp fun hlong => ?_).map _
    exact Tree.anyUncountable_of_mem hmem (Tree.uncountable_array.2 (.inl (hlength ▸ hlong)))
  · rw [if_neg hconformant]
    exact .ok _

mutual

theorem pieces_fails (graph : Graph) : (shape : Shape) → (value : Value) → (tree : Tree) →
    graph.tree? shape value = some tree → FailsUncounted tree.Uncountable (shape.pieces value)
  | .u8, value, tree, h | .u16, value, tree, h | .u32, value, tree, h | .u64, value, tree, h
  | .guid, value, tree, h => by
    cases value <;> first | exact .ok _ | cases h
  | .pointer target, value, tree, h => by
    cases value with
    | pointer slot => cases slot <;> exact .ok _
    | _ => cases h
  | .array element, value, tree, h => by
    cases value with
    | array values =>
      obtain ⟨trees, htrees, rfl⟩ := tree?_array_eq_some.1 h
      have hlength := length_of_trees htrees
      rw [Shape.pieces]
      refine ((countField_fails values.length).imp fun hlong =>
        Tree.uncountable_array.2 (.inl (hlength ▸ hlong))).bind fun count _ => ?_
      refine ((elements_fail (pieces_fails graph element) htrees).imp fun h =>
        Tree.uncountable_array.2 (.inr h)).bind fun groups _ => ?_
      exact .ok _
    | _ => cases h
  | .struct members, value, tree, h => by
    cases value with
    | struct values =>
      obtain ⟨trees, htrees, rfl⟩ := tree?_struct_eq_some.1 h
      rw [Shape.pieces, if_pos (memberTrees?_length htrees)]
      refine FailsUncounted.bind (hoistedCount_fails htrees) fun count _ => ?_
      refine FailsUncounted.bind (memberPieces_fails graph members values trees htrees)
        fun content _ => ?_
      exact .ok _
    | _ => cases h

theorem memberPieces_fails (graph : Graph) : (members : List Shape) → (values : List Value) →
    (trees : List Tree) → graph.memberTrees? members values = some trees →
    FailsUncounted (Tree.AnyUncountable trees) (Shape.memberPieces members values)
  | [], values, trees, h => by
    cases values with
    | nil => exact .ok _
    | cons value values => cases h
  | member :: members, [], trees, h => by cases h
  | member :: members, value :: values, trees, h => by
    obtain ⟨tree, others, htree, hothers, rfl⟩ := memberTrees?_cons_eq_some.1 h
    by_cases hspecial : members = [] ∧ ∃ element, member = .array element
    · obtain ⟨rfl, element, rfl⟩ := hspecial
      cases List.length_eq_zero_iff.1 (memberTrees?_length hothers).symm
      cases value with
      | array elements =>
        obtain ⟨elementTrees, helements, rfl⟩ := tree?_array_eq_some.1 htree
        rw [Shape.memberPieces]
        refine ((elements_fail (pieces_fails graph element) helements).imp fun h =>
          Tree.anyUncountable_cons.2 (.inl (Tree.uncountable_array.2 (.inr h)))).bind
          fun groups _ => ?_
        exact .ok _
      | _ => cases htree
    · have hmember : members = [] → ∀ element, member ≠ .array element :=
        fun hnil element helement => hspecial ⟨hnil, element, helement⟩
      rw [Shape.memberPieces_eq hmember]
      refine ((pieces_fails graph member value tree htree).imp fun h =>
        Tree.anyUncountable_cons.2 (.inl h)).bind fun first _ => ?_
      refine ((memberPieces_fails graph members values others hothers).imp fun h =>
        Tree.anyUncountable_cons.2 (.inr h)).bind fun second _ => ?_
      exact .ok _

end

/-! ### The whole graph -/

/-- A reference to a tree with an array that is too long. -/
def UncountableAt (graph : Graph) (ref : Reference) : Prop :=
  ∃ tree, graph.treeAt? ref = some tree ∧ tree.Uncountable

theorem uncountable_of_reference {tree : Tree} {written : List Piece}
    (h : shape.pieces value = .ok written) (htree : graph.tree? shape value = some tree)
    {ref : Reference} (href : ref ∈ Piece.references written) (hlong : graph.UncountableAt ref) :
    tree.Uncountable := by
  by_contra hwithin
  rw [Tree.Uncountable, Bool.not_eq_false] at hwithin
  obtain ⟨pointed, hpointed, hlong⟩ := hlong
  obtain ⟨pointed', hpointed', hwithin'⟩ := ((tree_within_iff h htree).1 hwithin).2 ref href
  cases hpointed.symm.trans hpointed'
  rw [Tree.Uncountable, hwithin'] at hlong
  cases hlong

theorem drain_fails {queue : List Reference}
    (hqueue : ∀ ref ∈ queue, ∃ tree, graph.treeAt? ref = some tree) :
    FailsUncounted (∃ ref ∈ queue, graph.UncountableAt ref) (graph.drain queue) := by
  induction queue using graph.drain_induction with
  | nil =>
    rw [drain]
    exact .ok _
  | cons ref queue ih =>
    obtain ⟨⟨tree, htree⟩, hothers⟩ := List.forall_mem_cons.1 hqueue
    obtain ⟨value, hvalue, hvalue_tree⟩ := Option.bind_eq_some_iff.1 htree
    have hreferent : graph.referentPieces ref = ref.target.pieces value := by
      simp only [referentPieces, hvalue]
    rw [graph.drain_cons_bind, hreferent]
    refine FailsUncounted.bind
      ((pieces_fails graph _ value tree hvalue_tree).imp fun hlong => ?_) fun written hpieces => ?_
    · exact ⟨ref, List.mem_cons_self, tree, htree, hlong⟩
    · have hwritten : graph.referentPieces ref = .ok written := hreferent.trans hpieces
      have hrefs : graph.ReferencesHaveTrees written :=
        (exists_tree_iff hpieces).1 ⟨tree, hvalue_tree⟩
      have hlater := ih written hwritten (List.forall_mem_append.2 ⟨hothers, hrefs⟩)
      refine FailsUncounted.map (FailsUncounted.imp hlater ?_) _
      rintro ⟨later, hmem, hlong⟩
      rcases List.mem_append.1 hmem with hmem | hmem
      · exact ⟨later, List.mem_cons_of_mem _ hmem, hlong⟩
      · exact ⟨ref, List.mem_cons_self, tree, htree,
          uncountable_of_reference hpieces hvalue_tree hmem hlong⟩

/-- A graph that stands for a tree can be written, unless an array in the tree is too long to be
counted. -/
theorem encode_fails {tree : Tree} (htree : graph.tree? shape graph.root = some tree)
    (ids : IdSupply) : FailsUncounted tree.Uncountable (graph.encode shape ids) := by
  refine FailsUncounted.map ?_ _
  refine (pieces_fails graph shape graph.root tree htree).bind fun root hroot => ?_
  have hdrain := drain_fails ((exists_tree_iff hroot).1 ⟨tree, htree⟩)
  refine (hdrain.imp ?_).bind fun later _ => .ok _
  rintro ⟨ref, href, hlong⟩
  exact uncountable_of_reference hroot htree href hlong

end Graph

end OrpcWire
