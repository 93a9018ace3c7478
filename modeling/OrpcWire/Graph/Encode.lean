import OrpcWire.Graph.Queue

/-!
# Writing graphs

When all pieces of a graph are there, ids are given to its references in stream order
(`Piece.number`). The result is a layout, which knows neither position nor byte order, together with
the ids given out and the counter that is left.
-/

namespace OrpcWire

/-- What a graph is written as. -/
structure Encoded where
  layout : Layout
  /-- The ids given out, in the order of their words. -/
  referentIds : List UInt32
  ids : IdSupply
  deriving Repr

namespace Piece

/-- Gives ids to references behind `layout` and `used`, which are kept backwards. -/
def numberOnto (layout : Layout) (used : List UInt32) : IdSupply → List Piece → Encoded
  | ids, [] => ⟨layout.reverse, used.reverse, ids⟩
  | ids, .field content :: pieces => numberOnto (content :: layout) used ids pieces
  | ids, .reference _ :: pieces =>
    numberOnto (.u32 ids.next :: layout) (ids.next :: used) ids.advance pieces

/-- Gives ids to references in order. -/
def number (ids : IdSupply) (pieces : List Piece) : Encoded := numberOnto [] [] ids pieces

theorem numberOnto_eq (layout : Layout) (used : List UInt32) (ids : IdSupply)
    (pieces : List Piece) :
    numberOnto layout used ids pieces = ⟨layout.reverse ++ (number ids pieces).layout,
      used.reverse ++ (number ids pieces).referentIds, (number ids pieces).ids⟩ := by
  induction pieces generalizing layout used ids with
  | nil => simp [numberOnto, number]
  | cons piece pieces ih =>
    cases piece with
    | field content => simp [number, numberOnto, ih (content :: layout), ih [content]]
    | reference ref =>
      simp [number, numberOnto, ih (.u32 ids.next :: layout), ih [Field.u32 ids.next]]

@[simp] theorem number_nil (ids : IdSupply) : number ids [] = ⟨[], [], ids⟩ := rfl

theorem number_field (ids : IdSupply) (content : Field) (pieces : List Piece) :
    number ids (.field content :: pieces) =
      { number ids pieces with layout := content :: (number ids pieces).layout } := by
  rw [number, numberOnto, numberOnto_eq]
  rfl

theorem number_reference (ids : IdSupply) (ref : Reference) (pieces : List Piece) :
    number ids (.reference ref :: pieces) =
      ⟨.u32 ids.next :: (number ids.advance pieces).layout,
        ids.next :: (number ids.advance pieces).referentIds, (number ids.advance pieces).ids⟩ := by
  rw [number, numberOnto, numberOnto_eq]
  rfl

end Piece

/-- Writes a graph by a shape, with ids drawn from `ids`. -/
def Graph.encode (graph : Graph) (shape : Shape) (ids : IdSupply) : Except WireError Encoded :=
  (graph.pieces shape).map (Piece.number ids)

end OrpcWire
