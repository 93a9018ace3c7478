import OrpcWire.Graph.Queue

/-!
# Values that can be written

`Shape.pieces_induction` is the induction on how a value is written by a shape, with one case for
each way that can go well: a leaf, a null pointer, a pointer, an array, a structure, and for the
members of a structure none, a last array without its count, and one member in front of others. It
leaves out all combinations of shape and value that do not fit, so proofs by it are about writing
that succeeds.

`Rows W` is what a list of values is written as when each of them is written as `W` says.
-/

namespace OrpcWire

variable {α : Type}

/-- Values written one after the other. -/
inductive Rows (W : α → List Piece → Prop) : List α → List Piece → Prop
  | nil : Rows W [] []
  | cons {a : α} {as : List α} {first second : List Piece} :
      W a first → Rows W as second → Rows W (a :: as) (first ++ second)

theorem Rows.imp {V W : α → List Piece → Prop} {as : List α} {written : List Piece}
    (h : Rows V as written) (himp : ∀ a ∈ as, ∀ written, V a written → W a written) :
    Rows W as written := by
  induction h with
  | nil => exact .nil
  | cons hfirst _ ih =>
    refine .cons (himp _ List.mem_cons_self _ hfirst) (ih fun a ha =>
      himp a (List.mem_cons_of_mem _ ha))

theorem Rows.eq_flatMap {β : Type} {f : List Piece → List β} {g : α → List β} (hnil : f [] = [])
    (happend : ∀ first second, f (first ++ second) = f first ++ f second) {as : List α}
    {written : List Piece} (h : Rows (fun a written => f written = g a) as written) :
    f written = as.flatMap g := by
  induction h with
  | nil => exact hnil
  | cons hfirst _ ih => rw [happend, hfirst, ih, List.flatMap_cons]

namespace Shape

theorem rows_iff {element : Shape} {values : List Value} {written : List Piece} :
    Rows (fun value written => element.pieces value = .ok written) values written ↔
      ∃ groups, values.mapM element.pieces = .ok groups ∧ written = groups.flatten := by
  constructor
  · intro h
    induction h with
    | nil => exact ⟨[], rfl, rfl⟩
    | cons hfirst _ ih =>
      obtain ⟨groups, hgroups, rfl⟩ := ih
      exact ⟨_ :: groups, mapM_cons_eq_ok_iff.2 ⟨_, groups, hfirst, hgroups, rfl⟩, rfl⟩
  · rintro ⟨groups, hgroups, rfl⟩
    induction values generalizing groups with
    | nil =>
      cases hgroups
      exact .nil
    | cons value values ih =>
      obtain ⟨first, others, hfirst, hothers, rfl⟩ := mapM_cons_eq_ok_iff.1 hgroups
      exact .cons hfirst (ih others hothers)

theorem mapM_pieces_eq {element : Shape} {value : α → Value} {piece : α → Piece}
    (h : ∀ a, element.pieces (value a) = .ok [piece a]) (as : List α) :
    ∃ groups, (as.map value).mapM element.pieces = .ok groups ∧ groups.flatten = as.map piece := by
  refine ⟨as.map fun a => [piece a], ?_, ?_⟩
  · rw [List.mapM_map]
    exact mapM_eq_pure fun a _ => h a
  · rw [← List.flatMap_def, ← List.map_eq_flatMap]

theorem countField_eq_ok_iff {count : Nat} {piece : Piece} :
    countField count = .ok piece ↔ count < UInt32.size ∧ piece = .field (.u32 (.ofNat count)) := by
  unfold countField
  split <;> simp [*, eq_comm]

theorem pieces_array_eq_ok_iff {element : Shape} {value : α → Value} {piece : α → Piece}
    (h : ∀ a, element.pieces (value a) = .ok [piece a]) {as : List α} {written : List Piece} :
    pieces (.array element) (.array (as.map value)) = .ok written ↔
      as.length < UInt32.size ∧ written = .field (.u32 (.ofNat as.length)) :: as.map piece := by
  obtain ⟨groups, hgroups, hflatten⟩ := mapM_pieces_eq h as
  rw [pieces, List.length_map, ← hflatten]
  constructor
  · intro heq
    obtain ⟨count, hcount, heq⟩ := bind_eq_ok_iff.1 heq
    obtain ⟨hlength, rfl⟩ := countField_eq_ok_iff.1 hcount
    rw [hgroups] at heq
    cases heq
    exact ⟨hlength, rfl⟩
  · rintro ⟨hlength, rfl⟩
    exact bind_eq_ok_iff.2 ⟨_, countField_eq_ok_iff.2 ⟨hlength, rfl⟩,
      bind_eq_ok_iff.2 ⟨groups, hgroups, rfl⟩⟩

theorem memberPieces_eq {member : Shape} {members : List Shape}
    (hmember : members = [] → ∀ element, member ≠ .array element) (value : Value)
    (values : List Value) :
    memberPieces (member :: members) (value :: values) = do
      let first ← member.pieces value
      let others ← memberPieces members values
      return first ++ others := by
  rw [memberPieces]
  intro element _ helement hnil _ _
  exact hmember hnil element helement

theorem memberPieces_cons_eq {member : Shape} {members : List Shape} {value : Value}
    {values : List Value} {first others : List Piece}
    (hmember : members = [] → ∀ element, member ≠ .array element)
    (hfirst : member.pieces value = .ok first)
    (hothers : memberPieces members values = .ok others) :
    memberPieces (member :: members) (value :: values) = .ok (first ++ others) := by
  rw [memberPieces_eq hmember]
  exact bind_eq_ok_iff.2 ⟨first, hfirst, bind_eq_ok_iff.2 ⟨others, hothers, rfl⟩⟩

theorem pieces_struct_eq {members : List Shape} {values : List Value} {count content : List Piece}
    (hlength : members.length = values.length) (hcount : hoistedCount members values = .ok count)
    (hcontent : memberPieces members values = .ok content) :
    pieces (.struct members) (.struct values) =
      .ok (count ++ .field (.align (alignment (.struct members))) :: content) := by
  rw [pieces, if_pos hlength]
  exact bind_eq_ok_iff.2 ⟨count, hcount, bind_eq_ok_iff.2 ⟨content, hcontent, rfl⟩⟩

theorem isConformant_cons_cons (first second : Shape) (members : List Shape) :
    isConformant (first :: second :: members) = isConformant (second :: members) := by
  simp [isConformant]

theorem isConformant_cons {member : Shape} {members : List Shape}
    (hmember : members = [] → ∀ element, member ≠ .array element) :
    isConformant (member :: members) = isConformant members := by
  cases members with
  | nil => cases member <;> first | rfl | exact absurd rfl (hmember rfl _)
  | cons second members => exact isConformant_cons_cons member second members

theorem hoistedCount_eq_ok_iff {members : List Shape} {values : List Value} {written : List Piece} :
    hoistedCount members values = .ok written ↔
      ∃ count : Option Nat, count.isSome = isConformant members ∧
        (∀ n, count = some n → n < UInt32.size ∧ ∃ elements,
          values.getLast? = some (.array elements) ∧ elements.length = n) ∧
        written = (count.toList.map fun n => Field.u32 (.ofNat n)).map .field := by
  unfold hoistedCount
  constructor
  · intro h
    by_cases hconformant : isConformant members = true
    · rw [if_pos hconformant] at h
      split at h
      · rename_i elements hlast
        obtain ⟨field, hfield, rfl⟩ := map_eq_ok_iff.1 h
        by_cases hlt : elements.length < UInt32.size
        · rw [countField, if_pos hlt] at hfield
          cases hfield
          refine ⟨some elements.length, hconformant.symm, fun n hn => ?_, rfl⟩
          cases hn
          exact ⟨hlt, elements, hlast, rfl⟩
        · rw [countField, if_neg hlt] at hfield
          cases hfield
      · cases h
    · rw [if_neg hconformant] at h
      cases h
      exact ⟨none, (Bool.eq_false_iff.2 hconformant).symm, fun n hn => (by cases hn), rfl⟩
  · rintro ⟨count, hcount, hlast, rfl⟩
    cases count with
    | none => rw [← hcount]; rfl
    | some n =>
      obtain ⟨hlt, elements, hvalues, rfl⟩ := hlast n rfl
      rw [← hcount, Option.isSome_some, if_pos rfl, hvalues]
      simp only [countField, if_pos hlt]
      rfl

/-- A value without parts, as it is written. -/
inductive Leaf : Shape → Value → Layout → Prop
  | u8 (word : UInt8) : Leaf .u8 (.u8 word) [.u8 word]
  | u16 (word : UInt16) : Leaf .u16 (.u16 word) [.u16 word]
  | u32 (word : UInt32) : Leaf .u32 (.u32 word) [.u32 word]
  | u64 (word : UInt64) : Leaf .u64 (.u64 word) [.u64 word]
  | guid (id : Guid) : Leaf .guid (.guid id) id.layout

section

-- Each of the two theorems hands the cases of the other one on.
set_option linter.unusedSectionVars false

variable {P : Shape → Value → List Piece → Prop} {Q : List Shape → List Value → List Piece → Prop}
  (leaf : ∀ shape value layout, Leaf shape value layout → P shape value (layout.map .field))
  (null : ∀ target, P (.pointer target) .null [.field (.u32 nullId)])
  (pointer : ∀ target slot, P (.pointer target) (.pointer (some slot)) [.reference ⟨slot, target⟩])
  (array : ∀ element values written, values.length < UInt32.size →
    Rows (fun value written => element.pieces value = .ok written ∧ P element value written)
      values written →
    P (.array element) (.array values) (.field (.u32 (.ofNat values.length)) :: written))
  (struct : ∀ members values count written, members.length = values.length →
    hoistedCount members values = .ok count → Q members values written →
    P (.struct members) (.struct values)
      (count ++ .field (.align (alignment (.struct members))) :: written))
  (nil : Q [] [] [])
  (tail : ∀ element values written,
    Rows (fun value written => element.pieces value = .ok written ∧ P element value written)
      values written →
    Q [.array element] [.array values] written)
  (cons : ∀ member members value values first second,
    (members = [] → ∀ element, member ≠ .array element) → member.pieces value = .ok first →
    P member value first → Q members values second →
    Q (member :: members) (value :: values) (first ++ second))

include leaf null pointer array struct nil tail cons

mutual

/-- Induction on how a value is written. -/
theorem pieces_induction : (shape : Shape) → (value : Value) → (written : List Piece) →
    shape.pieces value = .ok written → P shape value written
  | .u8, value, written, h | .u16, value, written, h | .u32, value, written, h
  | .u64, value, written, h => by
    cases value <;> cases h
    exact leaf _ _ [_] (by constructor)
  | .guid, value, written, h => by
    cases value <;> cases h
    exact leaf _ _ _ (.guid _)
  | .pointer target, value, written, h => by
    cases value with
    | pointer slot =>
      cases slot with
      | none =>
        cases h
        exact null target
      | some slot =>
        cases h
        exact pointer target slot
    | _ => cases h
  | .array element, value, written, h => by
    cases value with
    | array values =>
      rw [pieces] at h
      obtain ⟨count, hcount, h⟩ := bind_eq_ok_iff.1 h
      obtain ⟨groups, hgroups, h⟩ := bind_eq_ok_iff.1 h
      cases h
      by_cases hlt : values.length < UInt32.size
      · rw [countField, if_pos hlt] at hcount
        cases hcount
        exact array element values _ hlt ((rows_iff.2 ⟨groups, hgroups, rfl⟩).imp
          fun value _ written h => ⟨h, pieces_induction element value written h⟩)
      · rw [countField, if_neg hlt] at hcount
        cases hcount
    | _ => cases h
  | .struct members, value, written, h => by
    cases value with
    | struct values =>
      rw [pieces] at h
      split at h
      · rename_i hlength
        obtain ⟨count, hcount, h⟩ := bind_eq_ok_iff.1 h
        obtain ⟨content, hcontent, h⟩ := bind_eq_ok_iff.1 h
        cases h
        exact struct members values count content hlength hcount
          (memberPieces_induction members values content hlength hcontent)
      · cases h
    | _ => cases h

theorem memberPieces_induction : (members : List Shape) → (values : List Value) →
    (written : List Piece) → members.length = values.length →
    memberPieces members values = .ok written → Q members values written
  | [], values, written, hlength, h => by
    cases values with
    | nil =>
      cases h
      exact nil
    | cons value values => cases hlength
  | member :: members, [], written, hlength, h => by cases hlength
  | member :: members, value :: values, written, hlength, h => by
    have hrest : members.length = values.length := Nat.succ_inj.1 hlength
    by_cases hspecial : members = [] ∧ ∃ element, member = .array element
    · obtain ⟨rfl, element, rfl⟩ := hspecial
      cases List.length_eq_zero_iff.1 hrest.symm
      cases value with
      | array elements =>
        rw [memberPieces] at h
        obtain ⟨groups, hgroups, h⟩ := bind_eq_ok_iff.1 h
        cases h
        exact tail element elements _ ((rows_iff.2 ⟨groups, hgroups, rfl⟩).imp
          fun value _ written h => ⟨h, pieces_induction element value written h⟩)
      | _ => cases h
    · have hmember : members = [] → ∀ element, member ≠ .array element :=
        fun hnil element helement => hspecial ⟨hnil, element, helement⟩
      rw [memberPieces_eq hmember] at h
      obtain ⟨first, hfirst, h⟩ := bind_eq_ok_iff.1 h
      obtain ⟨second, hsecond, h⟩ := bind_eq_ok_iff.1 h
      cases h
      exact cons member members value values first second hmember hfirst
        (pieces_induction member value first hfirst)
        (memberPieces_induction members values second hrest hsecond)

end

end

end Shape

end OrpcWire
