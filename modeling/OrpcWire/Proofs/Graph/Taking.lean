import OrpcWire.Proofs.Graph.Account
import OrpcWire.Proofs.Graph.Constituents

/-!
# Shapes that take octets

Only structures that have nothing in them take no octets. A reader of arrays asks for as many octets
as there are elements before it reads the first of them, so arrays of such structures can be written
but not read. For all other elements the octets are there (`Shape.length_le_of_rows`).
-/

namespace OrpcWire

namespace Shape

mutual

/-- Whether a value of the shape takes no octets: it is a structure whose members, if any, take
none. -/
def takesNothing : Shape → Bool
  | .struct members => allTakeNothing members
  | _ => false

/-- Whether none of the shapes takes octets. -/
def allTakeNothing : List Shape → Bool
  | [] => true
  | member :: members => member.takesNothing && allTakeNothing members

end

mutual

/-- Whether the elements of all arrays take octets, those behind pointers included. -/
def elementsTake : Shape → Bool
  | .array element => !element.takesNothing && element.elementsTake
  | .struct members => allElementsTake members
  | .pointer target => target.elementsTake
  | _ => true

/-- The same for several shapes. -/
def allElementsTake : List Shape → Bool
  | [] => true
  | member :: members => member.elementsTake && allElementsTake members

end

/-- The pieces use up octets wherever they stand. -/
def Takes (written : List Piece) : Prop :=
  ∀ ids position, position < Layout.endFrom position (Piece.withIds ids written)

theorem takes_u32 (word : UInt32) (written : List Piece) :
    Takes (.field (.u32 word) :: written) := by
  intro ids position
  have hle := Layout.le_endFrom (position + padding 4 position + 4) (Piece.withIds ids written)
  show position < Layout.endFrom (position + padding 4 position + 4) (Piece.withIds ids written)
  omega

theorem Takes.append_left {first : List Piece} (h : Takes first) (second : List Piece) :
    Takes (first ++ second) := by
  intro ids position
  rw [Piece.endFrom_withIds_append ids [] []]
  have hfirst := h [] position
  have hsecond :=
    Layout.le_endFrom (Layout.endFrom position (Piece.withIds [] first)) (Piece.withIds [] second)
  omega

theorem Takes.append_right {second : List Piece} (h : Takes second) (first : List Piece) :
    Takes (first ++ second) := by
  intro ids position
  rw [Piece.endFrom_withIds_append ids [] []]
  have hfirst := Layout.le_endFrom position (Piece.withIds [] first)
  have hsecond := h [] (Layout.endFrom position (Piece.withIds [] first))
  omega

theorem Leaf.takes {shape : Shape} {value : Value} {layout : Layout} (h : Leaf shape value layout) :
    Takes (layout.map .field) := by
  intro ids position
  rw [Piece.withIds_fields]
  cases h <;> simp [Layout.endFrom, Field.size, Guid.layout] <;> omega

theorem takes_of_pieces {shape : Shape} {value : Value} {written : List Piece}
    (h : shape.pieces value = .ok written) (htakes : shape.takesNothing = false) :
    Takes written := by
  refine pieces_induction (P := fun shape _ written => shape.takesNothing = false → Takes written)
    (Q := fun members _ written =>
      isConformant members = false → allTakeNothing members = false → Takes written)
    ?leaf ?null ?pointer ?array ?struct ?nil ?tail ?cons shape value written h htakes
  case leaf => exact fun _ _ _ hleaf _ => hleaf.takes
  case null => exact fun _ _ => takes_u32 nullId []
  case pointer =>
    intro target slot _ ids position
    show position < position + padding 4 position + 4
    omega
  case array => exact fun _ _ _ _ _ _ => takes_u32 _ _
  case struct =>
    intro members values count written _ hcount hmembers htakes
    obtain ⟨count, hconformant, _, rfl⟩ := hoistedCount_eq_ok_iff.1 hcount
    cases count with
    | none => exact ((hmembers hconformant.symm htakes).append_right [_]).append_right _
    | some n => exact takes_u32 _ _
  case nil => exact fun _ hnone => absurd hnone (by simp [allTakeNothing])
  case tail => exact fun _ _ _ _ hconformant => absurd hconformant (by simp [isConformant])
  case cons =>
    intro member members value values first second hmember _ hfirst hsecond hconformant htakes
    rw [allTakeNothing, Bool.and_eq_false_iff] at htakes
    rcases htakes with htakes | htakes
    · exact (hfirst htakes).append_left second
    · rw [isConformant_cons hmember] at hconformant
      exact (hsecond hconformant htakes).append_right first

theorem elementsTake_of_mem {member : Shape} {members : List Shape} (hmem : member ∈ members)
    (h : allElementsTake members = true) : member.elementsTake = true := by
  induction members with
  | nil => cases hmem
  | cons first members ih =>
    rw [allElementsTake, Bool.and_eq_true] at h
    rcases List.mem_cons.1 hmem with rfl | hmem
    · exact h.1
    · exact ih hmem h.2

theorem Constituent.elementsTake {part shape : Shape} (h : part.Constituent shape)
    (htake : shape.elementsTake = true) : part.elementsTake = true := by
  cases h with
  | member hmem => exact elementsTake_of_mem hmem htake
  | element => exact (Bool.and_eq_true_iff.1 htake).2
  | target => exact htake

theorem PointsTo.elementsTake {shape target : Shape} (h : shape.PointsTo target)
    (htake : shape.elementsTake = true) : target.elementsTake = true :=
  h.inherit (P := fun shape => shape.elementsTake = true)
    (fun _ _ hpart htake => hpart.elementsTake htake) htake

theorem elementsTake_of_pieces {shape : Shape} {value : Value} {written : List Piece}
    (h : shape.pieces value = .ok written) (htake : shape.elementsTake = true) :
    ∀ ref ∈ Piece.references written, ref.target.elementsTake = true :=
  fun ref href => (pointsTo_of_pieces h ref href).elementsTake htake

theorem length_le_of_rows {α : Type} {as : List α} {written : List Piece}
    (h : Rows (fun _ written => Takes written) as written) (ids : List UInt32) (position : Nat) :
    position + as.length ≤ Layout.endFrom position (Piece.withIds ids written) := by
  induction h generalizing ids position with
  | nil => simp
  | @cons _ _ first second hfirst _ ih =>
    rw [Piece.endFrom_withIds_append ids [] []]
    have h1 := hfirst [] position
    have h2 := ih [] (Layout.endFrom position (Piece.withIds [] first))
    rw [List.length_cons]
    omega

end Shape

theorem Account.elementsTake {shape : Shape} {reader : Reader WireError (Found Value)} {taken : Nat}
    {order : ByteOrder} {cursor next : Cursor} {found : Found Value} {written : List Piece}
    (account : Account reader taken order cursor next found written)
    (hwritten : shape.pieces found.value = .ok written) (htake : shape.elementsTake = true) :
    ∀ announcement ∈ found.announced, announcement.target.elementsTake = true :=
  account.forall_announced (P := fun target => target.elementsTake = true)
    (Shape.elementsTake_of_pieces hwritten htake)

end OrpcWire
