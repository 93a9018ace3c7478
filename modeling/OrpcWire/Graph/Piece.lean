import OrpcWire.Graph.Basic
import OrpcWire.Graph.Depth
import OrpcWire.Result
import OrpcWire.Wire.IdSupply

/-!
# Pieces

A value is written in place as a list of pieces: fields, and references where pointers that are not
null stand. A reference still stands for its id word, and it tells which referent is to follow and
by which shape.

Two facts bound what one pass leaves behind: the target of a reference has fewer pointers on top of
each other than the shape that left it (`Shape.pieces_depth`), and there are no more references than
the value has pointers (`Shape.pieces_count`).
-/

namespace OrpcWire

/-- A pointer written in place whose referent is still to be written. -/
structure Reference where
  slot : Nat
  target : Shape
  deriving Repr, Inhabited

/-- A field, or the id word of a referent that follows later. -/
inductive Piece where
  | field (content : Field)
  | reference (ref : Reference)
  deriving Repr

namespace Piece

/-- The reference that a piece leaves behind. -/
def reference? : Piece → Option Reference
  | .field _ => none
  | .reference ref => some ref

/-- The references that pieces leave behind, in order. -/
def references (pieces : List Piece) : List Reference := pieces.filterMap reference?

@[simp] theorem references_nil : references [] = [] := rfl

@[simp] theorem references_field (content : Field) (pieces : List Piece) :
    references (.field content :: pieces) = references pieces := rfl

@[simp] theorem references_reference (ref : Reference) (pieces : List Piece) :
    references (.reference ref :: pieces) = ref :: references pieces := rfl

@[simp] theorem references_append (first second : List Piece) :
    references (first ++ second) = references first ++ references second := by
  simp [references]

end Piece

/-! ## one pass in place -/

/-- The count word in front of array elements. -/
def countField (count : Nat) : Except WireError Piece :=
  if count < UInt32.size then
    .ok (.field (.u32 (.ofNat count)))
  else
    .error (.limitExceeded count (UInt32.size - 1))

namespace Shape

/-- The count word hoisted in front of a structure, if its members call for one. -/
def hoistedCount (members : List Shape) (values : List Value) : Except WireError (List Piece) :=
  if isConformant members then
    match values.getLast? with
    | some (.array elements) => (countField elements.length).map ([·])
    | last => .error (.mismatch (.tailNotArray last))
  else
    .ok []

mutual

/-- Writes a value in place. Pointers become references. -/
def pieces : Shape → Value → Except WireError (List Piece)
  | .u8, .u8 word => .ok [.field (.u8 word)]
  | .u16, .u16 word => .ok [.field (.u16 word)]
  | .u32, .u32 word => .ok [.field (.u32 word)]
  | .u64, .u64 word => .ok [.field (.u64 word)]
  | .guid, .guid id => .ok (id.layout.map .field)
  | .pointer _, .pointer none => .ok [.field (.u32 nullId)]
  | .pointer target, .pointer (some slot) => .ok [.reference ⟨slot, target⟩]
  | .array element, .array values => do
    let count ← countField values.length
    let elements ← values.mapM (pieces element)
    return count :: elements.flatten
  | .struct members, .struct values =>
    if members.length = values.length then do
      let count ← hoistedCount members values
      let content ← memberPieces members values
      return count ++ .field (.align (alignment (.struct members))) :: content
    else
      .error (.mismatch (.notEncodable (.struct values) (.struct members)))
  | shape, value => .error (.mismatch (.notEncodable value shape))

/-- Writes the members of a structure one after the other, a last array without its count. -/
def memberPieces : List Shape → List Value → Except WireError (List Piece)
  | [.array element], [.array values] => do
    let elements ← values.mapM (pieces element)
    return elements.flatten
  | member :: members, value :: values => do
    let first ← pieces member value
    let others ← memberPieces members values
    return first ++ others
  | _, _ => .ok []

end

theorem references_countField {count : Nat} {piece : Piece} (h : countField count = .ok piece) :
    Piece.references [piece] = [] := by
  unfold countField at h
  split at h <;> cases h
  rfl

theorem references_hoistedCount {members : List Shape} {values : List Value} {written : List Piece}
    (h : hoistedCount members values = .ok written) : Piece.references written = [] := by
  unfold hoistedCount at h
  split at h
  · split at h
    · obtain ⟨piece, hpiece, rfl⟩ := map_eq_ok_iff.1 h
      exact references_countField hpiece
    · cases h
  · cases h
    rfl

theorem forall_references_elements {element : Shape} {P : Reference → Prop}
    (helement : ∀ value written, element.pieces value = .ok written →
      ∀ ref ∈ Piece.references written, P ref)
    {values : List Value} {groups : List (List Piece)}
    (h : values.mapM element.pieces = .ok groups) :
    ∀ ref ∈ Piece.references groups.flatten, P ref := by
  induction values generalizing groups with
  | nil => cases h; simp
  | cons value values ih =>
    obtain ⟨first, others, hfirst, hothers, rfl⟩ := mapM_cons_eq_ok_iff.1 h
    simp only [List.flatten_cons, Piece.references_append, List.mem_append]
    rintro ref (href | href)
    · exact helement value first hfirst ref href
    · exact ih hothers ref href

mutual

/-- A reference lies under a pointer of the shape that left it, so its target has fewer pointers on
top of each other. -/
theorem pieces_depth : (shape : Shape) → (value : Value) → (written : List Piece) →
    shape.pieces value = .ok written →
    ∀ ref ∈ Piece.references written, ref.target.pointerDepth < shape.pointerDepth
  | .u8, value, written, h | .u16, value, written, h | .u32, value, written, h
  | .u64, value, written, h => by
    cases value <;> simp [pieces] at h
    subst h
    simp
  | .guid, value, written, h => by
    cases value <;> simp [pieces] at h
    subst h
    simp [Guid.layout]
  | .pointer target, value, written, h => by
    cases value with
    | pointer slot =>
      cases slot <;> simp [pieces] at h <;> subst h <;> simp [pointerDepth]
    | _ => simp [pieces] at h
  | .array element, value, written, h => by
    cases value with
    | array values =>
      simp only [pieces] at h
      obtain ⟨count, hcount, h⟩ := bind_eq_ok_iff.1 h
      obtain ⟨groups, hgroups, h⟩ := bind_eq_ok_iff.1 h
      cases h
      intro ref href
      rw [← List.singleton_append, Piece.references_append, references_countField hcount] at href
      rw [pointerDepth]
      exact forall_references_elements (pieces_depth element) hgroups ref href
    | _ => simp [pieces] at h
  | .struct members, value, written, h => by
    cases value with
    | struct values =>
      simp only [pieces] at h
      split at h
      · obtain ⟨count, hcount, h⟩ := bind_eq_ok_iff.1 h
        obtain ⟨content, hcontent, h⟩ := bind_eq_ok_iff.1 h
        cases h
        intro ref href
        rw [Piece.references_append, references_hoistedCount hcount] at href
        rw [pointerDepth]
        exact memberPieces_depth members values content hcontent ref href
      · cases h
    | _ => simp [pieces] at h

theorem memberPieces_depth : (members : List Shape) → (values : List Value) →
    (written : List Piece) → memberPieces members values = .ok written →
    ∀ ref ∈ Piece.references written, ref.target.pointerDepth < membersDepth members
  | [], values, written, h => by
    cases values <;> simp [memberPieces] at h <;> subst h <;> simp
  | member :: members, values, written, h => by
    rw [memberPieces.eq_def] at h
    split at h
    · rename_i element elements hmembers
      cases hmembers
      obtain ⟨groups, hgroups, h⟩ := bind_eq_ok_iff.1 h
      cases h
      intro ref href
      have := forall_references_elements (pieces_depth element) hgroups ref href
      simp only [membersDepth, pointerDepth]
      omega
    · rename_i _ _ value values _ hmembers
      cases hmembers
      obtain ⟨first, hfirst, h⟩ := bind_eq_ok_iff.1 h
      obtain ⟨others, hothers, h⟩ := bind_eq_ok_iff.1 h
      cases h
      intro ref href
      rw [Piece.references_append, List.mem_append] at href
      rw [membersDepth]
      rcases href with href | href
      · have := pieces_depth member value first hfirst ref href
        omega
      · have := memberPieces_depth members values others hothers ref href
        omega
    · cases h
      simp

end

theorem length_references_elements {element : Shape}
    (helement : ∀ value written, element.pieces value = .ok written →
      (Piece.references written).length ≤ value.pointerCount)
    {values : List Value} {groups : List (List Piece)}
    (h : values.mapM element.pieces = .ok groups) :
    (Piece.references groups.flatten).length ≤ Value.pointerCounts values := by
  induction values generalizing groups with
  | nil => cases h; simp
  | cons value values ih =>
    obtain ⟨first, others, hfirst, hothers, rfl⟩ := mapM_cons_eq_ok_iff.1 h
    have h1 := helement value first hfirst
    have h2 := ih hothers
    simp only [List.flatten_cons, Piece.references_append, List.length_append, Value.pointerCounts]
    omega

mutual

/-- A value leaves no more references than it has pointers. -/
theorem pieces_count : (shape : Shape) → (value : Value) → (written : List Piece) →
    shape.pieces value = .ok written → (Piece.references written).length ≤ value.pointerCount
  | .u8, value, written, h | .u16, value, written, h | .u32, value, written, h
  | .u64, value, written, h => by
    cases value <;> simp [pieces] at h
    subst h
    simp
  | .guid, value, written, h => by
    cases value <;> simp [pieces] at h
    subst h
    simp [Guid.layout]
  | .pointer target, value, written, h => by
    cases value with
    | pointer slot =>
      cases slot <;> simp [pieces] at h <;> subst h <;> simp [Value.pointerCount]
    | _ => simp [pieces] at h
  | .array element, value, written, h => by
    cases value with
    | array values =>
      simp only [pieces] at h
      obtain ⟨count, hcount, h⟩ := bind_eq_ok_iff.1 h
      obtain ⟨groups, hgroups, h⟩ := bind_eq_ok_iff.1 h
      cases h
      rw [← List.singleton_append, Piece.references_append, references_countField hcount]
      rw [Value.pointerCount]
      exact length_references_elements (pieces_count element) hgroups
    | _ => simp [pieces] at h
  | .struct members, value, written, h => by
    cases value with
    | struct values =>
      simp only [pieces] at h
      split at h
      · obtain ⟨count, hcount, h⟩ := bind_eq_ok_iff.1 h
        obtain ⟨content, hcontent, h⟩ := bind_eq_ok_iff.1 h
        cases h
        rw [Piece.references_append, references_hoistedCount hcount]
        rw [Value.pointerCount]
        exact memberPieces_count members values content hcontent
      · cases h
    | _ => simp [pieces] at h

theorem memberPieces_count : (members : List Shape) → (values : List Value) →
    (written : List Piece) → memberPieces members values = .ok written →
    (Piece.references written).length ≤ Value.pointerCounts values
  | [], values, written, h => by
    cases values <;> simp [memberPieces] at h <;> subst h <;> simp
  | member :: members, values, written, h => by
    rw [memberPieces.eq_def] at h
    split at h
    · rename_i element elements hmembers
      cases hmembers
      obtain ⟨groups, hgroups, h⟩ := bind_eq_ok_iff.1 h
      cases h
      have := length_references_elements (pieces_count element) hgroups
      simp only [Value.pointerCounts, Value.pointerCount]
      omega
    · rename_i _ _ value values _ hmembers
      cases hmembers
      obtain ⟨first, hfirst, h⟩ := bind_eq_ok_iff.1 h
      obtain ⟨others, hothers, h⟩ := bind_eq_ok_iff.1 h
      cases h
      have h1 := pieces_count member value first hfirst
      have h2 := memberPieces_count members values others hothers
      simp only [Piece.references_append, List.length_append, Value.pointerCounts]
      omega
    · cases h
      simp

end

end Shape

end OrpcWire
