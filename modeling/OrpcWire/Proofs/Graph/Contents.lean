import OrpcWire.Proofs.Graph.Levels
import OrpcWire.Proofs.Wire.Stretches

/-!
# What a graph sends

`shape.contents value` is what a value sends by a shape, padding left out: its numbers, in a GUID
the first three fields, its octets, the count of each array (in front of the structure if the array
ends one), null ids, and a place for the id of each pointer that is not null. It says of every octet
on the wire whether it belongs to a number.

The layout of a graph has the contents of the root and of the referents in the order in which they
are served (`Graph.sends_of_encode`). All boundaries in it divide eight, because those of structures
are the largest of some among 1, 2, 4 and 8 (`Shape.alignment_dvd`).
-/

namespace OrpcWire

def Guid.contents (id : Guid) : List Stretch :=
  [.word 4 id.data1.toNat, .word 2 id.data2.toNat, .word 2 id.data3.toNat, .raw id.data4.octets]

@[simp] theorem Guid.contents_layout (id : Guid) : id.layout.contents = id.contents := rfl

@[simp] theorem Guid.octal_layout (id : Guid) : id.layout.Octal := by
  simp [layout, Field.boundary]

theorem max_dvd {a b n : Nat} (ha : a ∣ n) (hb : b ∣ n) : max a b ∣ n := by
  rw [Nat.max_def]
  split
  · exact hb
  · exact ha

namespace Shape

/-- The count in front of a structure that ends in an array. -/
def hoistedContents (members : List Shape) (values : List Value) : List (Option Stretch) :=
  match members.getLast?, values.getLast? with
  | some (.array _), some (.array elements) => [some (.word 4 elements.length)]
  | _, _ => []

mutual

/-- What a value sends, with none where the id of a pointer goes. -/
def contents : Shape → Value → List (Option Stretch)
  | .u8, .u8 word => [some (.raw [word])]
  | .u16, .u16 word => [some (.word 2 word.toNat)]
  | .u32, .u32 word => [some (.word 4 word.toNat)]
  | .u64, .u64 word => [some (.word 8 word.toNat)]
  | .guid, .guid id => id.contents.map some
  | .pointer _, .pointer none => [some (.word 4 0)]
  | .pointer _, .pointer (some _) => [none]
  | .array element, .array values =>
    some (.word 4 values.length) :: values.flatMap (contents element)
  | .struct members, .struct values =>
    hoistedContents members values ++ memberContents members values
  | _, _ => []

/-- What the members of a structure send, a last array without its count. -/
def memberContents : List Shape → List Value → List (Option Stretch)
  | [.array element], [.array values] => values.flatMap (contents element)
  | member :: members, value :: values => contents member value ++ memberContents members values
  | _, _ => []

end

theorem memberContents_cons {member : Shape} {members : List Shape}
    (hmember : members = [] → ∀ element, member ≠ .array element) (value : Value)
    (values : List Value) :
    memberContents (member :: members) (value :: values) =
      contents member value ++ memberContents members values := by
  rw [memberContents]
  intro element _ helement hnil _ _
  exact hmember hnil element helement

mutual

/-- The boundary of a shape is 1, 2, 4 or 8. -/
theorem alignment_dvd : (shape : Shape) → shape.alignment ∣ 8
  | .u8 | .u16 | .u32 | .guid | .pointer _ | .u64 => by simp [alignment]
  | .array element => by
    rw [alignment]
    exact max_dvd (alignment_dvd element) (by decide)
  | .struct members => by
    rw [alignment]
    exact membersAlignment_dvd members

theorem membersAlignment_dvd : (members : List Shape) → membersAlignment members ∣ 8
  | [] => by simp [membersAlignment]
  | member :: members => by
    rw [membersAlignment.eq_def]
    split
    · trivial
    · rename_i element _ heq
      cases heq
      exact max_dvd (alignment_dvd element) (membersAlignment_dvd members)
    · rename_i heq
      cases heq
      exact max_dvd (alignment_dvd member) (membersAlignment_dvd members)

end

end Shape

namespace Piece

def boundary : Piece → Nat
  | .field content => content.boundary
  | .reference _ => 4

def content : Piece → List (Option Stretch)
  | .field content => content.content.map some
  | .reference _ => [none]

/-- What pieces send, with none where the id of a reference goes. -/
def contents (pieces : List Piece) : List (Option Stretch) := pieces.flatMap content

def Octal (pieces : List Piece) : Prop := ∀ piece ∈ pieces, piece.boundary ∣ 8

@[simp] theorem contents_nil : contents [] = [] := rfl

@[simp] theorem contents_cons (piece : Piece) (pieces : List Piece) :
    contents (piece :: pieces) = piece.content ++ contents pieces := rfl

@[simp] theorem contents_append (first second : List Piece) :
    contents (first ++ second) = contents first ++ contents second :=
  List.flatMap_append

@[simp] theorem octal_append {first second : List Piece} :
    Octal (first ++ second) ↔ Octal first ∧ Octal second :=
  List.forall_mem_append

@[simp] theorem octal_cons {piece : Piece} {pieces : List Piece} :
    Octal (piece :: pieces) ↔ piece.boundary ∣ 8 ∧ Octal pieces :=
  List.forall_mem_cons

@[simp] theorem octal_nil : Octal [] := List.forall_mem_nil _

theorem contents_withIds (ids : List UInt32) (pieces : List Piece) :
    (withIds ids pieces).contents = Stretch.withIds ids (contents pieces) := by
  induction pieces generalizing ids with
  | nil => cases ids <;> rfl
  | cons piece pieces ih =>
    cases piece with
    | field content =>
      rw [withIds, Layout.contents_cons, ih, contents_cons]
      exact (Stretch.withIds_map_some_append ids content.content (contents pieces)).symm
    | reference ref =>
      rw [withIds, Layout.contents_cons, ih]
      rfl

theorem octal_withIds {pieces : List Piece} (h : Octal pieces) (ids : List UInt32) :
    (withIds ids pieces).Octal := by
  induction pieces generalizing ids with
  | nil =>
    rw [withIds_nil]
    exact Layout.octal_nil
  | cons piece pieces ih =>
    obtain ⟨hpiece, hpieces⟩ := octal_cons.1 h
    cases piece with
    | field content => exact Layout.octal_cons.2 ⟨hpiece, ih hpieces ids⟩
    | reference ref => exact Layout.octal_cons.2 ⟨hpiece, ih hpieces ids.tail⟩

end Piece

namespace Shape

variable {shape element : Shape} {members : List Shape} {value : Value} {values : List Value}
  {written : List Piece}

theorem content_count {count : Nat} (h : count < UInt32.size) :
    Piece.content (.field (.u32 (.ofNat count))) = [some (.word 4 count)] :=
  congrArg (List.map some) (Field.content_ofNat h)

theorem contents_hoistedCount (h : hoistedCount members values = .ok written) :
    Piece.contents written = hoistedContents members values := by
  rw [hoistedContents]
  unfold hoistedCount isConformant at h
  cases hmember : members.getLast? with
  | none =>
    rw [hmember] at h
    cases h
    rfl
  | some member =>
    rw [hmember] at h
    cases member with
    | array element =>
      simp only [if_true] at h
      split at h
      · rename_i elements hvalue
        obtain ⟨count, hcount, rfl⟩ := map_eq_ok_iff.1 h
        rw [hvalue]
        unfold countField at hcount
        split at hcount <;> cases hcount
        exact content_count ‹_›
      · cases h
    | _ =>
      cases h
      rfl

theorem octal_of_rows (h : Rows (fun _ written => Piece.Octal written) values written) :
    Piece.Octal written := by
  induction h with
  | nil => exact Piece.octal_nil
  | cons hfirst _ ih => exact Piece.octal_append.2 ⟨hfirst, ih⟩

theorem contents_of_pieces (h : shape.pieces value = .ok written) :
    Piece.contents written = shape.contents value := by
  refine pieces_induction
    (P := fun shape value written => Piece.contents written = shape.contents value)
    (Q := fun members values written => Piece.contents written = memberContents members values)
    ?leaf ?null ?pointer ?array ?struct ?nil ?tail ?cons shape value written h
  case leaf => rintro _ _ _ ⟨⟩ <;> rfl
  case null => intro _; rfl
  case pointer => intro _ _; rfl
  case array =>
    intro element values written hlt h
    have hrows := h.imp fun _ _ _ h => h.2
    rw [Piece.contents_cons, content_count hlt,
      hrows.eq_flatMap Piece.contents_nil Piece.contents_append, contents]
    rfl
  case struct =>
    intro members values count written _ hcount h
    rw [Piece.contents_append, contents_hoistedCount hcount, Piece.contents_cons, h, contents]
    rfl
  case nil => rfl
  case tail =>
    intro element values written h
    have hrows := h.imp fun _ _ _ h => h.2
    rw [hrows.eq_flatMap Piece.contents_nil Piece.contents_append, memberContents]
  case cons =>
    intro member members value values first second hmember _ hfirst hsecond
    rw [Piece.contents_append, hfirst, hsecond, memberContents_cons hmember]

theorem octal_of_pieces (h : shape.pieces value = .ok written) : Piece.Octal written := by
  refine pieces_induction (P := fun _ _ written => Piece.Octal written)
    (Q := fun _ _ written => Piece.Octal written)
    ?leaf ?null ?pointer ?array ?struct ?nil ?tail ?cons shape value written h
  case leaf => rintro _ _ _ ⟨⟩ <;> simp [Piece.boundary, Guid.layout, Field.boundary]
  case null => simp [Piece.boundary, Field.boundary]
  case pointer => simp [Piece.boundary]
  case array =>
    intro element values written _ h
    exact Piece.octal_cons.2 ⟨(by decide : 4 ∣ 8), octal_of_rows (h.imp fun _ _ _ h => h.2)⟩
  case struct =>
    intro members values count written _ hcount h
    obtain ⟨count, _, _, rfl⟩ := hoistedCount_eq_ok_iff.1 hcount
    refine Piece.octal_append.2 ⟨?_, Piece.octal_cons.2 ⟨alignment_dvd (.struct members), h⟩⟩
    cases count <;> simp [Piece.boundary, Field.boundary]
  case nil => exact Piece.octal_nil
  case tail =>
    intro element values written h
    exact octal_of_rows (h.imp fun _ _ _ h => h.2)
  case cons =>
    intro member members value values first second _ _ hfirst hsecond
    exact Piece.octal_append.2 ⟨hfirst, hsecond⟩

end Shape

namespace Graph

variable {graph : Graph} {shape : Shape} {ids : IdSupply} {encoded : Encoded}

/-- What a graph sends: the root and, in the order in which they are served, the referents, with the
given ids in front of them. -/
def Sends (graph : Graph) (shape : Shape) (ids : List UInt32) (contents : List Stretch) : Prop :=
  ∃ served, Serves graph (shape.pointers graph.root) served ∧
    contents = Stretch.withIds ids
      (shape.contents graph.root ++ served.flatMap fun one => one.ref.target.contents one.value)

theorem contents_served {queue : List Reference} {served : List Served}
    (h : Serves graph queue served) :
    Piece.contents (Served.pieces served) = served.flatMap fun one =>
      one.ref.target.contents one.value := by
  induction h with
  | nil => rfl
  | cons _ hwritten _ ih =>
    rw [Served.pieces_cons, Piece.contents_append, Shape.contents_of_pieces hwritten, ih,
      List.flatMap_cons]

theorem octal_served {queue : List Reference} {served : List Served}
    (h : Serves graph queue served) : Piece.Octal (Served.pieces served) := by
  induction h with
  | nil => exact Piece.octal_nil
  | cons _ hwritten _ ih => exact Piece.octal_append.2 ⟨Shape.octal_of_pieces hwritten, ih⟩

/-- A graph is written as what it sends. -/
theorem sends_of_encode (h : graph.encode shape ids = .ok encoded) :
    graph.Sends shape encoded.referentIds encoded.layout.contents := by
  obtain ⟨written, served, hwritten, hserves, rfl⟩ := serves_of_encode h
  rw [Shape.references_eq_pointers hwritten] at hserves
  refine ⟨served, hserves, ?_⟩
  rw [Piece.number_eq, Piece.contents_withIds, Piece.contents_append,
    Shape.contents_of_pieces hwritten, contents_served hserves]

theorem octal_of_encode (h : graph.encode shape ids = .ok encoded) : encoded.layout.Octal := by
  obtain ⟨written, served, hwritten, hserves, rfl⟩ := serves_of_encode h
  rw [Piece.number_eq]
  exact Piece.octal_withIds (Piece.octal_append.2 ⟨Shape.octal_of_pieces hwritten,
    octal_served hserves⟩) _

end Graph

end OrpcWire
