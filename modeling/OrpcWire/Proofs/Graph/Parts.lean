import Mathlib.Data.List.Forall2
import OrpcWire.Proofs.Graph.Ids

/-!
# Parts of a message

The octets of a message fall into padding, ids and the rest. A reader is free to skip padding and to
take any id that is not null; a writer puts zeros and the ids of its counter. `Part.rewrite` is the
message as that writer would put it, and two messages are alike (`Part.Alike`) if they differ in
padding octets and ids only.

`Parted order position pieces parts`: the parts are those of a message with the given pieces that
starts at `position`.
-/

namespace OrpcWire

/-- A stretch of the octets of a message. -/
inductive Part where
  | padding (octets : List UInt8)
  | content (octets : List UInt8)
  | id (word : UInt32)

namespace Part

def octets (order : ByteOrder) : Part → List UInt8
  | .padding octets | .content octets => octets
  | .id word => order.octets 4 word.toNat

/-- The octets of a message. -/
def message (order : ByteOrder) (parts : List Part) : List UInt8 := parts.flatMap (octets order)

/-- The ids in a message from left to right. -/
def ids (parts : List Part) : List UInt32 :=
  parts.filterMap fun
    | .id word => some word
    | _ => none

/-- The same message with zeros as padding and with the given ids. -/
def rewrite : List UInt32 → List Part → List Part
  | _, [] => []
  | ids, .padding octets :: parts => .padding (List.replicate octets.length 0) :: rewrite ids parts
  | ids, .content octets :: parts => .content octets :: rewrite ids parts
  | ids, .id _ :: parts => .id (ids.headD nullId) :: rewrite ids.tail parts

/-- Padding may have other octets and ids may be others, but not null. -/
inductive Alike : Part → Part → Prop
  | padding {octets octets' : List UInt8} :
      octets'.length = octets.length → Alike (.padding octets) (.padding octets')
  | content (octets : List UInt8) : Alike (.content octets) (.content octets)
  | id (word : UInt32) {word' : UInt32} : word' ≠ nullId → Alike (.id word) (.id word')

@[simp] theorem message_cons (order : ByteOrder) (part : Part) (parts : List Part) :
    message order (part :: parts) = part.octets order ++ message order parts := rfl

@[simp] theorem ids_padding (octets : List UInt8) (parts : List Part) :
    ids (.padding octets :: parts) = ids parts := rfl

@[simp] theorem ids_content (octets : List UInt8) (parts : List Part) :
    ids (.content octets :: parts) = ids parts := rfl

@[simp] theorem ids_id (word : UInt32) (parts : List Part) :
    ids (.id word :: parts) = word :: ids parts := rfl

theorem length_message_rewrite (order : ByteOrder) (newIds : List UInt32) (parts : List Part) :
    (message order (rewrite newIds parts)).length = (message order parts).length := by
  induction parts generalizing newIds with
  | nil => rfl
  | cons part parts ih =>
    cases part <;> simp [rewrite, octets, ih]

theorem rewrite_ids_self {parts : List Part}
    (h : ∀ octets, .padding octets ∈ parts → ∀ octet ∈ octets, octet = 0) :
    rewrite (ids parts) parts = parts := by
  induction parts with
  | nil => rfl
  | cons part parts ih =>
    have hothers := ih fun octets hmem => h octets (List.mem_cons_of_mem _ hmem)
    cases part with
    | padding octets =>
      have hzero : List.replicate octets.length 0 = octets :=
        (List.eq_replicate_of_mem (h octets List.mem_cons_self)).symm
      rw [ids_padding, rewrite, hothers, hzero]
    | content octets => rw [ids_content, rewrite, hothers]
    | id word =>
      rw [ids_id, rewrite, List.tail_cons, hothers]
      rfl

theorem length_message_alike (order : ByteOrder) {parts parts' : List Part}
    (h : List.Forall₂ Alike parts parts') :
    (message order parts').length = (message order parts).length := by
  induction h with
  | nil => rfl
  | cons hpart _ ih =>
    rw [message_cons, message_cons, List.length_append, List.length_append, ih]
    cases hpart with
    | padding hlength => rw [octets, octets, hlength]
    | content _ => rfl
    | id _ _ => rw [octets, octets, ByteOrder.length_octets, ByteOrder.length_octets]

theorem ids_alike {parts parts' : List Part} (h : List.Forall₂ Alike parts parts')
    (hne : ∀ id ∈ ids parts, id ≠ nullId) :
    (ids parts').length = (ids parts).length ∧ ∀ id ∈ ids parts', id ≠ nullId := by
  induction h with
  | nil => exact ⟨rfl, hne⟩
  | cons hpart _ ih =>
    cases hpart with
    | padding _ => exact ih hne
    | content _ => exact ih hne
    | id word hword =>
      obtain ⟨hlength, hothers⟩ := ih fun id hid => hne id (List.mem_cons_of_mem _ hid)
      refine ⟨by rw [ids_id, ids_id, List.length_cons, List.length_cons, hlength], fun id hid => ?_⟩
      rcases List.mem_cons.1 hid with rfl | hid
      · exact hword
      · exact hothers id hid

end Part

/-- The message with these pieces, put at `position`, has these parts. -/
inductive Parted (order : ByteOrder) : Nat → List Piece → List Part → Prop
  | nil {position : Nat} : Parted order position [] []
  | field {position : Nat} {content : Field} {skipped : List UInt8} {pieces : List Piece}
    {parts : List Part} :
      skipped.length = padding content.boundary position →
      Parted order (position + padding content.boundary position + content.size) pieces parts →
      Parted order position (.field content :: pieces)
        (.padding skipped :: .content (content.body order) :: parts)
  | reference {position : Nat} {ref : Reference} {skipped : List UInt8} {word : UInt32}
    {pieces : List Piece}
      {parts : List Part} :
      skipped.length = padding 4 position →
      Parted order (position + padding 4 position + 4) pieces parts →
      Parted order position (.reference ref :: pieces) (.padding skipped :: .id word :: parts)

namespace Parted

variable {order : ByteOrder} {position : Nat} {pieces : List Piece} {parts parts' : List Part}
  {ids : List UInt32} {cursor next : Cursor}

theorem of_between (hids : ids.length = (Piece.references pieces).length)
    (h : (Piece.withIds ids pieces).Between order cursor next) :
    ∃ parts, Parted order cursor.position pieces parts ∧ Part.ids parts = ids ∧
      cursor.rest = Part.message order parts ++ next.rest := by
  induction pieces generalizing ids cursor with
  | nil =>
    obtain rfl := List.length_eq_zero_iff.1 hids
    cases Layout.between_nil.1 h
    exact ⟨[], .nil, rfl, rfl⟩
  | cons piece pieces ih =>
    cases piece with
    | field content =>
      obtain ⟨middle, ⟨skipped, hskipped, hrest, hposition⟩, hothers⟩ := h
      obtain ⟨parts, hparts, hpartIds, hmiddle⟩ := ih hids hothers
      rw [hposition] at hparts
      refine ⟨_, .field hskipped hparts, hpartIds, ?_⟩
      rw [hrest, hmiddle]
      simp [Part.octets]
    | reference ref =>
      obtain ⟨id, ids, rfl⟩ := List.exists_cons_of_length_eq_add_one hids
      obtain ⟨middle, ⟨skipped, hskipped, hrest, hposition⟩, hothers⟩ := h
      obtain ⟨parts, hparts, hpartIds, hmiddle⟩ := ih (Nat.succ_inj.1 hids) hothers
      rw [hposition] at hparts
      refine ⟨.padding skipped :: .id id :: parts, .reference hskipped hparts, ?_, ?_⟩
      · rw [Part.ids_padding, Part.ids_id, hpartIds]
      · rw [hrest, hmiddle]
        simp [Part.octets, Field.body]

theorem between (h : Parted order position pieces parts) (rest : List UInt8) :
    (Piece.withIds (Part.ids parts) pieces).Between order
      ⟨position, Part.message order parts ++ rest⟩
      ⟨position + (Part.message order parts).length, rest⟩ := by
  induction h with
  | nil => exact Layout.between_nil.2 rfl
  | @field position content skipped pieces parts hskipped _ ih =>
    have hlength :
        position +
          (Part.message order (.padding skipped :: .content (content.body order) :: parts)).length =
            position + padding content.boundary position + content.size +
              (Part.message order parts).length := by
      simp only [Part.message_cons, Part.octets, List.length_append, hskipped, Field.length_body]
      omega
    rw [hlength]
    refine ⟨_, ⟨skipped, hskipped, ?_, rfl⟩, ih⟩
    simp [Part.octets]
  | @reference position ref skipped word pieces parts hskipped _ ih =>
    have hlength : position + (Part.message order (.padding skipped :: .id word :: parts)).length =
        position + padding 4 position + 4 + (Part.message order parts).length := by
      simp only [Part.message_cons, Part.octets, List.length_append, hskipped,
        ByteOrder.length_octets]
      omega
    rw [hlength]
    refine ⟨_, ⟨skipped, hskipped, ?_, rfl⟩, ih⟩
    simp [Part.octets, Field.body]

theorem render_eq (h : Parted order position pieces parts) (ids : List UInt32) :
    (Piece.withIds ids pieces).render order position =
      Part.message order (Part.rewrite ids parts) := by
  induction h generalizing ids with
  | nil => simp [Part.rewrite, Part.message]
  | @field position content skipped pieces parts hskipped _ ih =>
    have hlength : position + (content.octets order position).length =
        position + padding content.boundary position + content.size := by
      rw [Field.octets, List.length_append, List.length_replicate, Field.length_body, Nat.add_assoc]
    rw [Piece.withIds, Layout.render_cons, hlength, ih]
    simp [Part.rewrite, Part.octets, Field.octets, hskipped]
  | @reference position ref skipped word pieces parts hskipped _ ih =>
    have hlength : position + ((Field.u32 (ids.headD nullId)).octets order position).length =
        position + padding 4 position + 4 := by
      rw [Field.octets, List.length_append, List.length_replicate, Field.length_body, Nat.add_assoc]
      rfl
    rw [Piece.withIds, Layout.render_cons, hlength, ih]
    simp [Part.rewrite, Part.octets, Field.octets, Field.body, Field.boundary, hskipped]

theorem alike (h : Parted order position pieces parts)
    (halike : List.Forall₂ Part.Alike parts parts') : Parted order position pieces parts' := by
  induction h generalizing parts' with
  | nil =>
    cases halike
    exact .nil
  | field hskipped _ ih =>
    obtain _ | ⟨hpadding, _ | ⟨hcontent, hothers⟩⟩ := halike
    cases hpadding with
    | padding hlength =>
      cases hcontent
      exact .field (hlength.trans hskipped) (ih hothers)
  | reference hskipped _ ih =>
    obtain _ | ⟨hpadding, _ | ⟨hid, hothers⟩⟩ := halike
    cases hpadding with
    | padding hlength =>
      cases hid
      exact .reference (hlength.trans hskipped) (ih hothers)

theorem forall₂_alike (h : Parted order position pieces parts)
    (h' : Parted order position pieces parts') (hne : ∀ id ∈ Part.ids parts', id ≠ nullId) :
    List.Forall₂ Part.Alike parts parts' := by
  induction h generalizing parts' with
  | nil =>
    cases h'
    exact .nil
  | field hskipped _ ih =>
    cases h' with
    | field hskipped' hothers =>
      exact .cons (.padding (hskipped'.trans hskipped.symm)) (.cons (.content _) (ih hothers hne))
  | reference hskipped _ ih =>
    cases h' with
    | reference hskipped' hothers =>
      have hid := hne _ List.mem_cons_self
      have hids := ih hothers fun id hid => hne id (List.mem_cons_of_mem _ hid)
      exact .cons (.padding (hskipped'.trans hskipped.symm)) (.cons (.id _ hid) hids)

end Parted

end OrpcWire
