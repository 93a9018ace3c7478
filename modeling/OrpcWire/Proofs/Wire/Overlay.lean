import OrpcWire.Proofs.Wire.Between

/-!
# Octets taken for words

Octets do not say what fields they were written as. At a multiple of four any four of them are a
word (`Field.between_word`), so a GUID can be taken for four words (`Guid.between_words`). The word
over two numbers is 0 exactly if both are, in either byte order (`Guid.middleWord_eq_zero_iff`).
-/

namespace OrpcWire

theorem ofLowOctets_eq_zero_iff {octets : List UInt8} :
    ofLowOctets octets = 0 ↔ ∀ octet ∈ octets, octet = 0 := by
  induction octets with
  | nil => simp [ofLowOctets]
  | cons octet octets ih =>
    have hoctet : octet.toNat = 0 ↔ octet = 0 := UInt8.toNat_inj (b := 0)
    rw [ofLowOctets, List.forall_mem_cons, ← ih, ← hoctet]
    omega

namespace ByteOrder

variable (order : ByteOrder) {octets first second : List UInt8}

theorem value_eq_zero_iff : order.value octets = 0 ↔ ∀ octet ∈ octets, octet = 0 := by
  have hmem : ∀ octet, octet ∈ order.arrange octets ↔ octet ∈ octets := by
    cases order <;> simp [arrange]
  rw [value, ofLowOctets_eq_zero_iff]
  simp only [hmem]

theorem value_append_eq_zero_iff :
    order.value (first ++ second) = 0 ↔ order.value first = 0 ∧ order.value second = 0 := by
  rw [value_eq_zero_iff, value_eq_zero_iff, value_eq_zero_iff, List.forall_mem_append]

end ByteOrder

variable {order : ByteOrder} {cursor middle next : Cursor}

namespace Field

theorem Between.position_mod {word : UInt32} (h : (Field.u32 word).Between order cursor next) :
    next.position % 4 = 0 := by
  obtain ⟨_, _, _, hposition⟩ := h
  have haligned := add_padding_mod 4 cursor.position (by omega)
  simp only [boundary, size] at hposition
  omega

theorem between_word {position : Nat} {octets : List UInt8} (haligned : position % 4 = 0)
    (hlength : octets.length = 4) (rest : List UInt8) :
    (Field.u32 (.ofNat (order.value octets))).Between order ⟨position, octets ++ rest⟩
      ⟨position + 4, rest⟩ := by
  have hlt := order.value_lt octets
  have hbody := order.octets_value octets
  rw [hlength] at hlt hbody
  refine ⟨[], (padding_eq_zero haligned).symm, ?_, ?_⟩
  · rw [body, UInt32.toNat_ofNat_of_lt' hlt, hbody, List.nil_append]
  · rw [boundary, padding_eq_zero haligned]
    rfl

theorem Between.of_aligned {field : Field} (h : field.Between order cursor next)
    (haligned : padding field.boundary cursor.position = 0) :
    cursor.rest = field.body order ++ next.rest ∧ next.position = cursor.position + field.size := by
  obtain ⟨skipped, hskipped, hrest, hposition⟩ := h
  rw [haligned, List.length_eq_zero_iff] at hskipped
  subst hskipped
  exact ⟨hrest, by rw [hposition, haligned, Nat.add_zero]⟩

end Field

namespace Guid

variable {id : Guid}

/-- The word over the second and the third number. -/
def middleWord (id : Guid) (order : ByteOrder) : UInt32 :=
  .ofNat (order.value (order.octets 2 id.data2.toNat ++ order.octets 2 id.data3.toNat))

/-- The number over the first four of the last eight octets. -/
def thirdWord (id : Guid) (order : ByteOrder) : Nat := order.value (id.data4.octets.take 4)

theorem thirdWord_lt (id : Guid) (order : ByteOrder) : id.thirdWord order < UInt32.size := by
  have h := order.value_lt (id.data4.octets.take 4)
  rwa [List.length_take_of_le (by rw [Block.length_eq]; omega)] at h

theorem middleWord_eq_zero_iff : id.middleWord order = 0 ↔ id.data2 = 0 ∧ id.data3 = 0 := by
  have hlt := order.value_lt (order.octets 2 id.data2.toNat ++ order.octets 2 id.data3.toNat)
  rw [List.length_append, ByteOrder.length_octets, ByteOrder.length_octets] at hlt
  have hnumber : ∀ number : UInt16, order.value (order.octets 2 number.toNat) = 0 ↔ number = 0 := by
    intro number
    rw [order.value_octets_of_lt number.toNat_lt, ← UInt16.toNat_inj]
    rfl
  rw [← hnumber, ← hnumber id.data3, ← ByteOrder.value_append_eq_zero_iff,
    ← UInt32.toNat_inj, middleWord, UInt32.toNat_ofNat_of_lt' hlt]
  rfl

theorem between_words (h : id.layout.Between order cursor next) :
    ∃ middle last, Layout.Between order [.u32 id.data1, .u32 (id.middleWord order)] cursor middle ∧
      Layout.Between order [.u32 (.ofNat (id.thirdWord order))] middle last := by
  obtain ⟨⟨position, rest⟩, hdata1, second, hdata2, third, hdata3, hdata4⟩ := h
  have haligned : position % 4 = 0 := hdata1.position_mod
  obtain ⟨hrest, hsecond⟩ := hdata2.of_aligned (padding_eq_zero (by show position % 2 = 0; omega))
  simp only [Field.body, Field.size] at hrest hsecond
  obtain ⟨hrest2, hthird⟩ :=
    hdata3.of_aligned (padding_eq_zero (by rw [hsecond]; show (position + 2) % 2 = 0; omega))
  obtain ⟨hrest3, _⟩ := (Layout.between_singleton.1 hdata4).of_aligned rfl
  simp only [Field.body] at hrest2 hrest3
  have hwords : rest = (order.octets 2 id.data2.toNat ++ order.octets 2 id.data3.toNat) ++
      (id.data4.octets.take 4 ++ (id.data4.octets.drop 4 ++ next.rest)) := by
    rw [hrest, hrest2, hrest3, List.append_assoc, ← List.append_assoc (List.take 4 _),
      List.take_append_drop]
  have htake : (id.data4.octets.take 4).length = 4 :=
    List.length_take_of_le (by rw [Block.length_eq]; omega)
  have hmiddle : (Field.u32 (id.middleWord order)).Between order ⟨position, rest⟩
      ⟨position + 4, id.data4.octets.take 4 ++ (id.data4.octets.drop 4 ++ next.rest)⟩ := by
    rw [hwords]
    exact Field.between_word haligned (by simp) _
  exact ⟨_, _, ⟨_, hdata1, Layout.between_singleton.2 hmiddle⟩,
    Layout.between_singleton.2 (Field.between_word (by omega) htake _)⟩

end Guid

end OrpcWire
