import OrpcWire.Proofs.Graph.Pieces

/-!
# Values of a shape and the pointers in them

`shape.fits value`: the value has the constructors, the member counts and the element types that the
shape calls for. `value.slots` are the slots that its pointers name, from left to right, and
`shape.pointers value` the same with what each of them points at.

A value that can be written fits, and the references it leaves are its pointers
(`Shape.references_eq_pointers`).
-/

namespace OrpcWire

namespace Value

mutual

/-- The slots that the pointers in a value name, from left to right. Null pointers name none. -/
def slots : Value → List Nat
  | .u8 _ | .u16 _ | .u32 _ | .u64 _ | .guid _ | .pointer none => []
  | .pointer (some slot) => [slot]
  | .struct members => slotsOf members
  | .array elements => slotsOf elements

/-- The slots that the pointers in several values name. -/
def slotsOf : List Value → List Nat
  | [] => []
  | value :: values => value.slots ++ slotsOf values

end

end Value

namespace Shape

mutual

/-- Whether the value is one of the shape. -/
def fits : Shape → Value → Bool
  | .u8, .u8 _ | .u16, .u16 _ | .u32, .u32 _ | .u64, .u64 _ | .guid, .guid _ => true
  | .pointer _, .pointer _ => true
  | .array element, .array values => values.all (fits element)
  | .struct members, .struct values => membersFit members values
  | _, _ => false

/-- Whether there is one value for each member and it is one of it. -/
def membersFit : List Shape → List Value → Bool
  | [], [] => true
  | member :: members, value :: values => fits member value && membersFit members values
  | _, _ => false

end

mutual

/-- The pointers in a value that are not null, from left to right, with what they point at. -/
def pointers : Shape → Value → List Reference
  | .pointer target, .pointer (some slot) => [⟨slot, target⟩]
  | .array element, .array values => values.flatMap (pointers element)
  | .struct members, .struct values => memberPointers members values
  | _, _ => []

/-- The pointers in the members of a structure. -/
def memberPointers : List Shape → List Value → List Reference
  | member :: members, value :: values => pointers member value ++ memberPointers members values
  | _, _ => []

end

section

variable {shape : Shape} {value : Value} {values : List Value} {written : List Piece}

theorem all_fits_of_rows (h : Rows (fun value _ => shape.fits value = true) values written) :
    values.all shape.fits = true := by
  induction h with
  | nil => rfl
  | cons hfirst _ ih => rw [List.all_cons, hfirst, ih, Bool.and_self]

theorem fits_of_pieces (h : shape.pieces value = .ok written) : shape.fits value = true := by
  refine pieces_induction (P := fun shape value _ => shape.fits value = true)
    (Q := fun members values _ => membersFit members values = true)
    ?leaf ?null ?pointer ?array ?struct ?nil ?tail ?cons shape value written h
  case leaf => rintro _ _ _ ⟨⟩ <;> rfl
  case null => intro _; rfl
  case pointer => intro _ _; rfl
  case array =>
    intro element values written _ h
    rw [fits]
    exact all_fits_of_rows (h.imp fun _ _ _ h => h.2)
  case struct =>
    intro members values count written _ _ h
    rwa [fits]
  case nil => rfl
  case tail =>
    intro element values written h
    simp [membersFit, fits, all_fits_of_rows (h.imp fun _ _ _ h => h.2)]
  case cons =>
    intro member members value values first second _ _ hfirst hsecond
    rw [membersFit, hfirst, hsecond]
    rfl

/-- The references that a value leaves are the pointers in it. -/
theorem references_eq_pointers (h : shape.pieces value = .ok written) :
    Piece.references written = shape.pointers value := by
  refine pieces_induction
    (P := fun shape value written => Piece.references written = shape.pointers value)
    (Q := fun members values written => Piece.references written = memberPointers members values)
    ?leaf ?null ?pointer ?array ?struct ?nil ?tail ?cons shape value written h
  case leaf => rintro _ _ _ ⟨⟩ <;> rfl
  case null => intro _; rfl
  case pointer => intro _ _; rfl
  case array =>
    intro element values written _ h
    have hrows := h.imp fun _ _ _ h => h.2
    rw [pointers, Piece.references_field,
      hrows.eq_flatMap Piece.references_nil Piece.references_append]
  case struct =>
    intro members values count written _ hcount h
    rw [Piece.references_append, references_hoistedCount hcount, pointers]
    exact h
  case nil => rfl
  case tail =>
    intro element values written h
    have hrows := h.imp fun _ _ _ h => h.2
    rw [hrows.eq_flatMap Piece.references_nil Piece.references_append]
    simp [memberPointers, pointers]
  case cons =>
    intro member members value values first second _ _ hfirst hsecond
    rw [Piece.references_append, hfirst, hsecond, memberPointers]

end

mutual

theorem slots_eq : (shape : Shape) → (value : Value) → shape.fits value = true →
    value.slots = (shape.pointers value).map (·.slot)
  | .u8, value, h | .u16, value, h | .u32, value, h | .u64, value, h | .guid, value, h => by
    cases value <;> first | rfl | cases h
  | .pointer target, value, h => by
    cases value with
    | pointer slot => cases slot <;> rfl
    | _ => cases h
  | .array element, value, h => by
    cases value with
    | array values =>
      rw [fits, List.all_eq_true] at h
      rw [pointers, Value.slots]
      induction values with
      | nil => rfl
      | cons value values ih =>
        rw [Value.slotsOf, List.flatMap_cons, List.map_append, ← ih fun value hmem =>
          h value (List.mem_cons_of_mem _ hmem),
          slots_eq element value (h value List.mem_cons_self)]
    | _ => cases h
  | .struct members, value, h => by
    cases value with
    | struct values =>
      rw [fits] at h
      rw [pointers, Value.slots, slotsOf_eq members values h]
    | _ => cases h

theorem slotsOf_eq : (members : List Shape) → (values : List Value) →
    membersFit members values = true →
    Value.slotsOf values = (memberPointers members values).map (·.slot)
  | [], values, h => by
    cases values with
    | nil => rfl
    | cons value values => cases h
  | member :: members, values, h => by
    cases values with
    | nil => cases h
    | cons value values =>
      rw [membersFit, Bool.and_eq_true] at h
      rw [Value.slotsOf, memberPointers, List.map_append, slots_eq member value h.1,
        slotsOf_eq members values h.2]

end

theorem slots_of_pieces {shape : Shape} {value : Value} {written : List Piece}
    (h : shape.pieces value = .ok written) :
    value.slots = (Piece.references written).map (·.slot) := by
  rw [references_eq_pointers h, slots_eq shape value (fits_of_pieces h)]

end Shape

end OrpcWire
