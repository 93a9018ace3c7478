import OrpcWire.Proofs.Wire.Between
import OrpcWire.Wire.IdSupply

/-!
# Stretches of octets

A layout at a position is a row of stretches: padding, numbers and octets that stand as they are.
The row does not depend on the byte order, which only says how each number is put down
(`Stretch.octets`), so two byte orders differ in nothing but the octets of numbers, and these are
reversed.

Where every boundary divides eight, the row depends on the position modulo eight only.
`Layout.Regular` puts this together, with the content of the stretches as a parameter, and
`Layout.regular` says that all such layouts are regular.
-/

namespace OrpcWire

theorem padding_eq_of_mod_eq {boundary p q : Nat} (hboundary : boundary ∣ 8) (h : p % 8 = q % 8) :
    padding boundary p = padding boundary q := by
  have hmod : p % boundary = q % boundary := by
    rw [← Nat.mod_mod_of_dvd p hboundary, h, Nat.mod_mod_of_dvd q hboundary]
  rw [padding, padding, hmod]

/-- Octets that stand together on the wire. -/
inductive Stretch where
  /-- Zero octets in front of something that would not be aligned. -/
  | padding (count : Nat)
  /-- A number, in the byte order of the stream. -/
  | word (size number : Nat)
  /-- Octets that are the same in either byte order. -/
  | raw (octets : List UInt8)
  deriving DecidableEq, Repr

namespace Stretch

/-- The octets of a stretch. The byte orders differ in those of numbers, and these are reversed. -/
def octets (order : ByteOrder) : Stretch → List UInt8
  | .padding count => List.replicate count 0
  | .word size number =>
    match order with
    | .little => lowOctets size number
    | .big => (lowOctets size number).reverse
  | .raw octets => octets

def size : Stretch → Nat
  | .padding count => count
  | .word size _ => size
  | .raw octets => octets.length

/-- Whether the stretch is part of what is sent and not padding. -/
def isContent : Stretch → Bool
  | .padding _ => false
  | _ => true

/-- Of the stretches that start at a position, every number stands at a multiple of its size. -/
def Aligned : Nat → List Stretch → Prop
  | _, [] => True
  | position, stretch :: stretches =>
    (∀ size number, stretch = .word size number → size ∣ position) ∧
    Aligned (position + stretch.size) stretches

@[simp] theorem length_octets (order : ByteOrder) (stretch : Stretch) :
    (stretch.octets order).length = stretch.size := by
  cases stretch with
  | word => cases order <;> simp [octets, size]
  | _ => simp [octets, size]

/-- Content in which the places of ids are left open, with the given ids in them. -/
def withIds : List UInt32 → List (Option Stretch) → List Stretch
  | _, [] => []
  | ids, some content :: contents => content :: withIds ids contents
  | ids, none :: contents => .word 4 (ids.headD nullId).toNat :: withIds ids.tail contents

theorem withIds_map_some_append (ids : List UInt32) (content : List Stretch)
    (contents : List (Option Stretch)) :
    withIds ids (content.map some ++ contents) = content ++ withIds ids contents := by
  induction content with
  | nil => rfl
  | cons first content ih => exact congrArg (first :: ·) ih

end Stretch

namespace Field

/-- What a field sends behind its padding. -/
def content : Field → List Stretch
  | .u8 word => [.raw [word]]
  | .u16 word => [.word 2 word.toNat]
  | .u32 word => [.word 4 word.toNat]
  | .u64 word => [.word 8 word.toNat]
  | .raw octets => [.raw octets]
  | .align _ => []

def stretches (position : Nat) (field : Field) : List Stretch :=
  .padding (padding field.boundary position) :: field.content

theorem content_ofNat {count : Nat} (h : count < UInt32.size) :
    content (.u32 (.ofNat count)) = [.word 4 count] := by
  rw [content, UInt32.toNat_ofNat_of_lt' h]

theorem octets_content (order : ByteOrder) (field : Field) :
    field.content.flatMap (·.octets order) = field.body order := by
  cases field <;> cases order <;>
    simp [content, Stretch.octets, body, ByteOrder.octets, ByteOrder.arrange, lowOctets]

theorem octets_stretches (order : ByteOrder) (position : Nat) (field : Field) :
    (field.stretches position).flatMap (·.octets order) = field.octets order position := by
  rw [stretches, List.flatMap_cons, octets_content, octets]
  rfl

theorem filter_stretches (position : Nat) (field : Field) :
    (field.stretches position).filter (·.isContent) = field.content := by
  cases field <;> rfl

theorem aligned_stretches {position : Nat} {field : Field} {later : List Stretch}
    (h : Stretch.Aligned (position + padding field.boundary position + field.size) later) :
    Stretch.Aligned position (field.stretches position ++ later) := by
  -- The padding brings the field to a multiple of its boundary, and that is the size of a number.
  have hboundary : 0 < field.boundary →
      field.boundary ∣ position + padding field.boundary position := fun hpos =>
    Nat.dvd_of_mod_eq_zero (add_padding_mod field.boundary position hpos)
  rw [stretches, List.cons_append, Stretch.Aligned]
  refine ⟨nofun, ?_⟩
  cases field with
  | align boundary => exact h
  | u8 | raw => exact ⟨nofun, h⟩
  | _ =>
    refine ⟨fun size number heq => ?_, h⟩
    cases heq
    exact hboundary (Nat.succ_pos _)

end Field

namespace Layout

/-- The stretches of a layout that starts at a position. -/
def stretches : Nat → Layout → List Stretch
  | _, [] => []
  | position, field :: fields =>
    field.stretches position ++
      stretches (position + padding field.boundary position + field.size) fields

/-- What a layout sends, without any padding. -/
def contents (layout : Layout) : List Stretch := layout.flatMap Field.content

@[simp] theorem contents_nil : contents [] = [] := rfl

@[simp] theorem contents_cons (field : Field) (fields : Layout) :
    contents (field :: fields) = field.content ++ contents fields :=
  rfl

@[simp] theorem contents_append (first second : Layout) :
    contents (first ++ second) = contents first ++ contents second :=
  List.flatMap_append

theorem render_eq (order : ByteOrder) (position : Nat) (layout : Layout) :
    layout.render order position = (layout.stretches position).flatMap (·.octets order) := by
  induction layout generalizing position with
  | nil => rfl
  | cons field fields ih =>
    have hlength : (field.octets order position).length =
        padding field.boundary position + field.size := by
      simp [Field.octets]
    rw [render_cons, ih, stretches, List.flatMap_append, Field.octets_stretches, hlength,
      Nat.add_assoc]

theorem filter_stretches (position : Nat) (layout : Layout) :
    (layout.stretches position).filter (·.isContent) = layout.contents := by
  induction layout generalizing position with
  | nil => rfl
  | cons field fields ih =>
    rw [stretches, List.filter_append, Field.filter_stretches, ih, contents_cons]

theorem aligned_stretches (position : Nat) (layout : Layout) :
    Stretch.Aligned position (layout.stretches position) := by
  induction layout generalizing position with
  | nil => trivial
  | cons field fields ih => exact Field.aligned_stretches (ih _)

/-- Every field asks for a boundary that divides eight. -/
def Octal (layout : Layout) : Prop := ∀ field ∈ layout, field.boundary ∣ 8

@[simp] theorem octal_nil : Octal [] := List.forall_mem_nil _

@[simp] theorem octal_cons {field : Field} {fields : Layout} :
    Octal (field :: fields) ↔ field.boundary ∣ 8 ∧ fields.Octal :=
  List.forall_mem_cons

@[simp] theorem octal_append {first second : Layout} :
    Octal (first ++ second) ↔ first.Octal ∧ second.Octal :=
  List.forall_mem_append

theorem stretches_eq_of_mod_eq {layout : Layout} {p q : Nat} (hlayout : layout.Octal)
    (h : p % 8 = q % 8) : layout.stretches p = layout.stretches q := by
  induction layout generalizing p q with
  | nil => rfl
  | cons field fields ih =>
    obtain ⟨hfield, hfields⟩ := octal_cons.1 hlayout
    have hpadding := padding_eq_of_mod_eq hfield h
    have hnext : (p + padding field.boundary p + field.size) % 8 =
        (q + padding field.boundary q + field.size) % 8 := by
      rw [hpadding]
      omega
    rw [stretches, stretches, Field.stretches, Field.stretches, ih hfields hnext, hpadding]

/-- The octets of a layout depend on its content, on the byte order, and on the position modulo
eight.

The same octets are written from positions that agree modulo eight. In the two byte orders, the
octets are those of one and the same row of stretches: the padding stands at the same places and
consists of zeros, numbers are aligned and reversed, and the rest is the same. -/
structure Regular (layout : Layout) (contents : List Stretch) : Prop where
  periodic : ∀ order p q, p % 8 = q % 8 → layout.render order p = layout.render order q
  stretched : ∀ position, ∃ stretches : List Stretch,
    stretches.filter (·.isContent) = contents ∧ Stretch.Aligned position stretches ∧
      ∀ order, layout.render order position = stretches.flatMap (·.octets order)
  length_eq : ∀ position, (layout.render .big position).length =
    (layout.render .little position).length

theorem Octal.regular {layout : Layout} (h : layout.Octal) : layout.Regular layout.contents where
  periodic order p q hmod := by rw [render_eq, render_eq, stretches_eq_of_mod_eq h hmod]
  stretched position :=
    ⟨layout.stretches position, filter_stretches position layout, aligned_stretches position layout,
      fun order => render_eq order position layout⟩
  length_eq position := by simp [render_eq, List.length_flatMap]

end Layout

end OrpcWire
