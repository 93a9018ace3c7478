import Mathlib.Logic.Relation
import OrpcWire.Proofs.Graph.Ids
import OrpcWire.Proofs.Graph.Pieces

/-!
# Shapes in shapes

A shape is made of others: members, elements, and what a pointer points at (`Shape.Constituent`).
The references that a value leaves lead to shapes under a pointer in its shape
(`Shape.pointsTo_of_pieces`), so these stand strictly in it and have fewer pointers on top of each
other.
-/

namespace OrpcWire

namespace Shape

/-- The shapes that a shape is directly made of. -/
inductive Constituent : Shape → Shape → Prop
  | member {member : Shape} {members : List Shape} :
      member ∈ members → Constituent member (.struct members)
  | element (element : Shape) : Constituent element (.array element)
  | target (target : Shape) : Constituent target (.pointer target)

/-- The shape stands in the other one and is not all of it. -/
abbrev StrictlyIn : Shape → Shape → Prop := Relation.TransGen Constituent

/-- A pointer to `target` stands in the shape. -/
def PointsTo (shape target : Shape) : Prop :=
  Relation.ReflTransGen Constituent (.pointer target) shape

theorem pointerDepth_le_membersDepth {member : Shape} {members : List Shape}
    (h : member ∈ members) : member.pointerDepth ≤ membersDepth members := by
  induction members with
  | nil => cases h
  | cons first members ih =>
    rw [membersDepth]
    rcases List.mem_cons.1 h with rfl | h
    · exact Nat.le_max_left _ _
    · exact Nat.le_trans (ih h) (Nat.le_max_right _ _)

theorem Constituent.pointerDepth_le {part shape : Shape} (h : part.Constituent shape) :
    part.pointerDepth ≤ shape.pointerDepth := by
  cases h with
  | member h => exact pointerDepth_le_membersDepth h
  | element => exact Nat.le_refl _
  | target => exact Nat.le_succ _

namespace PointsTo

variable {part shape target : Shape}

theorem trans_constituent (h : part.PointsTo target) (hpart : part.Constituent shape) :
    shape.PointsTo target :=
  Relation.ReflTransGen.tail h hpart

theorem strictlyIn (h : shape.PointsTo target) : target.StrictlyIn shape :=
  .head' (.target target) h

theorem inherit {P : Shape → Prop} (h : shape.PointsTo target)
    (hparts : ∀ part shape, part.Constituent shape → P shape → P part) (hshape : P shape) :
    P (.pointer target) := by
  induction h with
  | refl => exact hshape
  | tail _ hpart ih => exact ih (hparts _ _ hpart hshape)

theorem pointerDepth_lt (h : shape.PointsTo target) : target.pointerDepth < shape.pointerDepth :=
  h.inherit (P := fun part => part.pointerDepth ≤ shape.pointerDepth)
    (fun _ _ hpart hle => Nat.le_trans hpart.pointerDepth_le hle) (Nat.le_refl _)

end PointsTo

theorem pointsTo_of_rows {element : Shape} {values : List Value} {written : List Piece}
    (h : Rows (fun _ written =>
      ∀ ref ∈ Piece.references written, element.PointsTo ref.target) values written) :
    ∀ ref ∈ Piece.references written, element.PointsTo ref.target := by
  induction h with
  | nil => simp
  | cons hfirst _ ih =>
    intro ref href
    rw [Piece.references_append, List.mem_append] at href
    exact href.elim (hfirst ref) (ih ref)

theorem pointsTo_of_pieces {shape : Shape} {value : Value} {written : List Piece}
    (h : shape.pieces value = .ok written) :
    ∀ ref ∈ Piece.references written, shape.PointsTo ref.target := by
  refine pieces_induction
    (P := fun shape _ written => ∀ ref ∈ Piece.references written, shape.PointsTo ref.target)
    (Q := fun members _ written =>
      ∀ ref ∈ Piece.references written, ∃ member ∈ members, member.PointsTo ref.target)
    ?leaf ?null ?pointer ?array ?struct ?nil ?tail ?cons shape value written h
  case leaf =>
    intro _ _ layout _ ref href
    rw [Piece.references_fields] at href
    cases href
  case null =>
    intro _ ref href
    cases href
  case pointer =>
    intro target slot ref href
    cases List.mem_singleton.1 href
    exact .refl
  case array =>
    intro element values written _ h ref href
    have hrows := h.imp fun _ _ _ h => h.2
    exact (pointsTo_of_rows hrows ref href).trans_constituent (.element element)
  case struct =>
    intro members values count written _ hcount h ref href
    rw [Piece.references_append, references_hoistedCount hcount] at href
    obtain ⟨member, hmem, hmember⟩ := h ref href
    exact hmember.trans_constituent (.member hmem)
  case nil =>
    intro ref href
    cases href
  case tail =>
    intro element values written h ref href
    have hrows := h.imp fun _ _ _ h => h.2
    exact ⟨_, List.mem_singleton_self _,
      (pointsTo_of_rows hrows ref href).trans_constituent (.element element)⟩
  case cons =>
    intro member members value values first second _ _ hfirst hsecond ref href
    rw [Piece.references_append, List.mem_append] at href
    rcases href with href | href
    · exact ⟨member, List.mem_cons_self, hfirst ref href⟩
    · obtain ⟨other, hmem, hother⟩ := hsecond ref href
      exact ⟨other, List.mem_cons_of_mem _ hmem, hother⟩

end Shape

end OrpcWire
