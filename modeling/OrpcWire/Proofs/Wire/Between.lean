import OrpcWire.Result
import OrpcWire.Wire.Reader

/-!
# Layouts between cursors

`layout.Between order cursor next`: the octets from `cursor` to `next` are the fields of the layout
in order, each behind its padding. The padding octets themselves are left open. A writer puts zeros
there (`Layout.between_render`), a reader does not look.

Positions are independent of the octets: `Layout.endFrom` says where a layout ends, and
`Between.position_eq` that cursors agree with it.

The readers of words, GUIDs and blocks are exact (`Reader.Exact`): they answer just where their
fields stand. Sequences of exact readers are taken apart with `Reader.Exact.run_bind_eq_ok`.
-/

namespace OrpcWire

namespace Field

/-- How many octets the body of the field has, in either order. -/
def size : Field → Nat
  | .u8 _ => 1
  | .u16 _ => 2
  | .u32 _ => 4
  | .u64 _ => 8
  | .raw octets => octets.length
  | .align _ => 0

@[simp] theorem length_body (order : ByteOrder) (field : Field) :
    (field.body order).length = field.size := by
  cases field <;> simp [body, size]

theorem length_octets (order : ByteOrder) (position : Nat) (field : Field) :
    (field.octets order position).length = padding field.boundary position + field.size := by
  rw [octets, List.length_append, List.length_replicate, length_body]

/-- The octets from `cursor` to `next` are the field behind its padding, whatever octets that is. -/
def Between (order : ByteOrder) (field : Field) (cursor next : Cursor) : Prop :=
  ∃ skipped : List UInt8, skipped.length = padding field.boundary cursor.position ∧
    cursor.rest = skipped ++ (field.body order ++ next.rest) ∧
    next.position = cursor.position + padding field.boundary cursor.position + field.size

end Field

namespace Layout

/-- The octets from `cursor` to `next` are the fields of the layout. -/
def Between (order : ByteOrder) : Layout → Cursor → Cursor → Prop
  | [], cursor, next => cursor = next
  | field :: fields, cursor, next =>
    ∃ middle, field.Between order cursor middle ∧ Between order fields middle next

/-- The position behind a layout that starts at `position`. -/
def endFrom : Nat → Layout → Nat
  | position, [] => position
  | position, field :: fields =>
    endFrom (position + padding field.boundary position + field.size) fields

@[simp] theorem endFrom_nil (position : Nat) : endFrom position [] = position := rfl

theorem le_endFrom (position : Nat) (layout : Layout) : position ≤ endFrom position layout := by
  induction layout generalizing position with
  | nil => exact Nat.le_refl _
  | cons field fields ih =>
    have := ih (position + padding field.boundary position + field.size)
    rw [endFrom]
    omega

theorem endFrom_append (position : Nat) (first second : Layout) :
    endFrom position (first ++ second) = endFrom (endFrom position first) second := by
  induction first generalizing position with
  | nil => rfl
  | cons field fields ih => exact ih _

/-- The most octets that a layout takes, wherever it starts. -/
def room : Layout → Nat
  | [] => 0
  | field :: fields => field.boundary - 1 + field.size + room fields

theorem room_append (first second : Layout) :
    room (first ++ second) = room first + room second := by
  induction first with
  | nil => exact (Nat.zero_add _).symm
  | cons field fields ih => rw [List.cons_append, room, room, ih, ← Nat.add_assoc]

theorem endFrom_le (position : Nat) (layout : Layout) :
    endFrom position layout ≤ position + layout.room := by
  induction layout generalizing position with
  | nil => exact Nat.le_refl _
  | cons field fields ih =>
    have hpadding : padding field.boundary position ≤ field.boundary - 1 := by
      rcases Nat.eq_zero_or_pos field.boundary with hzero | hpos
      · rw [hzero]
        exact Nat.le_refl _
      · exact Nat.le_sub_one_of_lt (padding_lt hpos position)
    have hfields := ih (position + padding field.boundary position + field.size)
    rw [endFrom, room]
    omega

variable {order : ByteOrder} {first second layout : Layout} {field : Field} {cursor next : Cursor}

@[simp] theorem between_nil : Between order [] cursor next ↔ cursor = next := Iff.rfl

theorem between_cons : Between order (field :: layout) cursor next ↔
    ∃ middle, field.Between order cursor middle ∧ layout.Between order middle next := Iff.rfl

@[simp] theorem between_singleton : Between order [field] cursor next ↔
    field.Between order cursor next := by
  constructor
  · rintro ⟨middle, hfield, rfl⟩
    exact hfield
  · intro hfield
    exact ⟨next, hfield, rfl⟩

theorem between_append : Between order (first ++ second) cursor next ↔
    ∃ middle, first.Between order cursor middle ∧ second.Between order middle next := by
  induction first generalizing cursor with
  | nil => simp
  | cons field fields ih =>
    constructor
    · rintro ⟨inner, hfield, hrest⟩
      obtain ⟨middle, hfirst, hsecond⟩ := ih.1 hrest
      exact ⟨middle, ⟨inner, hfield, hfirst⟩, hsecond⟩
    · rintro ⟨middle, ⟨inner, hfield, hfirst⟩, hsecond⟩
      exact ⟨inner, hfield, ih.2 ⟨middle, hfirst, hsecond⟩⟩

theorem Between.position_eq (h : layout.Between order cursor next) :
    next.position = endFrom cursor.position layout := by
  induction layout generalizing cursor with
  | nil => rw [between_nil.1 h, endFrom]
  | cons field fields ih =>
    obtain ⟨middle, ⟨skipped, hskipped, hrest, hposition⟩, hfields⟩ := h
    rw [ih hfields, endFrom, hposition]

/-- As many octets are used up as positions are passed. -/
theorem Between.length_eq (h : layout.Between order cursor next) :
    cursor.position + cursor.rest.length = next.position + next.rest.length := by
  induction layout generalizing cursor with
  | nil => rw [between_nil.1 h]
  | cons field fields ih =>
    obtain ⟨middle, ⟨skipped, hskipped, hrest, hposition⟩, hfields⟩ := h
    rw [← ih hfields, hposition, hrest, List.length_append, List.length_append,
      Field.length_body, hskipped]
    omega

theorem Between.rest_le (h : layout.Between order cursor next) :
    next.rest.length ≤ cursor.rest.length := by
  have hlength := h.length_eq
  have hposition := le_endFrom cursor.position layout
  rw [← h.position_eq] at hposition
  omega

theorem Between.exists_used (h : layout.Between order cursor next) :
    ∃ used, cursor.rest = used ++ next.rest ∧ next.position = cursor.position + used.length := by
  induction layout generalizing cursor with
  | nil => exact ⟨[], by rw [between_nil.1 h]; exact ⟨rfl, rfl⟩⟩
  | cons field fields ih =>
    obtain ⟨middle, ⟨skipped, hskipped, hrest, hposition⟩, hfields⟩ := h
    obtain ⟨used, hmiddle, hnext⟩ := ih hfields
    refine ⟨skipped ++ (field.body order ++ used), ?_, ?_⟩
    · rw [hrest, hmiddle, List.append_assoc, List.append_assoc]
    · rw [hnext, hposition, List.length_append, List.length_append, Field.length_body, hskipped]
      omega

/-- A layout as it is written stands between its ends. -/
theorem between_render (order : ByteOrder) (position : Nat) (layout : Layout) (rest : List UInt8) :
    layout.Between order ⟨position, layout.render order position ++ rest⟩
      ⟨position + (layout.render order position).length, rest⟩ := by
  induction layout generalizing position with
  | nil => exact between_nil.2 rfl
  | cons field fields ih =>
    have hnext := ih (position + (field.octets order position).length)
    rw [Nat.add_assoc, ← List.length_append, ← render_cons] at hnext
    refine ⟨_, ⟨List.replicate (padding field.boundary position) 0, by simp, ?_, ?_⟩, hnext⟩
    · simp [render_cons, Field.octets, List.append_assoc]
    · show position + (field.octets order position).length = _
      rw [Field.length_octets, Nat.add_assoc]

theorem add_length_render (order : ByteOrder) (position : Nat) (layout : Layout) :
    position + (layout.render order position).length = endFrom position layout :=
  (between_render order position layout []).position_eq

theorem render_word_cons (order : ByteOrder) (position : Nat) (word : UInt32) (fields : Layout) :
    render order position (.u32 word :: fields) = List.replicate (padding 4 position) 0 ++
      (order.octets 4 word.toNat ++ render order (position + padding 4 position + 4) fields) := by
  rw [render_cons, Field.octets, List.length_append, List.length_replicate, Field.length_body,
    List.append_assoc, ← Nat.add_assoc]
  rfl

theorem render_aligned_word_cons (order : ByteOrder) {position : Nat} (h : position % 4 = 0)
    (word : UInt32) (fields : Layout) :
    render order position (.u32 word :: fields) = order.octets 4 word.toNat ++
      render order (position + 4) fields := by
  rw [render_word_cons, padding_eq_zero h, List.replicate_zero, List.nil_append, Nat.add_zero]

end Layout

/-! ## exact readers -/

namespace Reader

variable {ε ε' α β : Type} {order : ByteOrder} {cursor next : Cursor}

/-- The reader answers `a` just where the layout of `a` stands, and stops behind it. -/
def Exact (reader : Reader ε α) (layout : α → Layout) : Prop :=
  ∀ order cursor a next,
    reader.run order cursor = .ok (a, next) ↔ (layout a).Between order cursor next

/-- The same for the answers that can stand on the wire at all. -/
def ExactOn (reader : Reader ε α) (valid : α → Prop) (layout : α → Layout) : Prop :=
  ∀ order cursor a next,
    reader.run order cursor = .ok (a, next) ↔ valid a ∧ (layout a).Between order cursor next

theorem Exact.exactOn {reader : Reader ε α} {layout : α → Layout} (h : reader.Exact layout) :
    reader.ExactOn (fun _ => True) layout := by
  intro order cursor a next
  rw [h, true_and]

/-- A sequence that begins with an exact reader. -/
theorem Exact.run_bind_eq_ok {reader : Reader ε α} {layout : α → Layout} (h : reader.Exact layout)
    {f : α → Reader ε β} {b : β} :
    (reader >>= f).run order cursor = .ok (b, next) ↔
      ∃ a middle, (layout a).Between order cursor middle ∧
        (f a).run order middle = .ok (b, next) := by
  rw [Reader.run_bind_eq_ok]
  constructor
  · rintro ⟨a, middle, ha, hb⟩
    exact ⟨a, middle, (h order cursor a middle).1 ha, hb⟩
  · rintro ⟨a, middle, ha, hb⟩
    exact ⟨a, middle, (h order cursor a middle).2 ha, hb⟩

theorem Exact.run_bind {reader : Reader ε α} {layout : α → Layout} (h : reader.Exact layout)
    (f : α → Reader ε β) {a : α} (ha : (layout a).Between order cursor next) :
    (reader >>= f).run order cursor = (f a).run order next := by
  rw [Reader.run_bind, (h order cursor a next).2 ha]

theorem Exact.map {reader : Reader ε α} {layout : α → Layout} (h : reader.Exact layout) (f : α → β)
    (g : β → α) (hfg : ∀ b, f (g b) = b) (hgf : ∀ a, g (f a) = a) :
    (reader >>= fun a => pure (f a)).Exact fun b => layout (g b) := by
  intro order cursor b next
  rw [h.run_bind_eq_ok]
  constructor
  · rintro ⟨a, middle, ha, hb⟩
    cases hb
    show (layout (g (f a))).Between order cursor next
    rwa [hgf]
  · intro hb
    refine ⟨g b, next, hb, ?_⟩
    rw [run_pure, hfg]

theorem block_exact (n : Nat) : (block n).Exact fun taken => [.raw taken.octets] := by
  intro order cursor taken next
  rw [run_block, Layout.between_singleton]
  constructor
  · intro h
    split at h
    · cases h
      refine ⟨[], rfl, ?_, ?_⟩
      · simp [Field.body]
      · simp only [Field.boundary, padding_one, Field.size, List.length_take]
        omega
    · cases h
  · rintro ⟨skipped, hskipped, hrest, hposition⟩
    simp only [Field.boundary, padding_one, List.length_eq_zero_iff, Field.body, Field.size,
      Block.length_eq] at hskipped hrest hposition
    subst hskipped
    rw [List.nil_append] at hrest
    have hlength := taken.length_eq
    rw [dif_pos (by rw [hrest, List.length_append]; omega)]
    simp only [Except.ok.injEq, Prod.mk.injEq]
    constructor
    · ext1
      simp [hrest, List.take_left' hlength]
    · cases next
      simp_all [List.drop_left' hlength]

theorem run_octets_eq_ok {n : Nat} {taken : List UInt8} :
    (octets n).run order cursor = .ok (taken, next) ↔
      taken.length = n ∧ cursor.rest = taken ++ next.rest ∧
      next.position = cursor.position + n := by
  rw [octets, (block_exact n).run_bind_eq_ok]
  constructor
  · rintro ⟨found, middle, hfound, hpure⟩
    cases hpure
    obtain ⟨skipped, hskipped, hrest, hposition⟩ := Layout.between_singleton.1 hfound
    simp only [Field.boundary, padding_one, List.length_eq_zero_iff, Field.body, Field.size,
      Block.length_eq] at hskipped hrest hposition
    subst hskipped
    exact ⟨found.length_eq, hrest, hposition⟩
  · rintro ⟨hlength, hrest, hposition⟩
    refine ⟨⟨taken, hlength⟩, next, Layout.between_singleton.2 ⟨[], rfl, hrest, ?_⟩, rfl⟩
    simp only [Field.boundary, padding_one, Field.size]
    omega

theorem run_aligned_eq_ok {boundary size : Nat} {taken : List UInt8} :
    (aligned boundary size).run order cursor = .ok (taken, next) ↔
      ∃ skipped : List UInt8, skipped.length = padding boundary cursor.position ∧
        taken.length = size ∧ cursor.rest = skipped ++ (taken ++ next.rest) ∧
        next.position = cursor.position + padding boundary cursor.position + size := by
  simp only [aligned]
  rw [map_eq_ok_iff]
  constructor
  · rintro ⟨⟨both, middle⟩, hboth, heq⟩
    cases heq
    obtain ⟨hlength, hrest, hposition⟩ := run_octets_eq_ok.1 hboth
    refine ⟨both.take (padding boundary cursor.position), by simp [hlength], by
      simp [hlength], ?_, ?_⟩
    · rw [hrest, ← List.append_assoc, List.take_append_drop]
    · rw [hposition, Nat.add_assoc]
  · rintro ⟨skipped, hskipped, htaken, hrest, hposition⟩
    refine ⟨(skipped ++ taken, next), run_octets_eq_ok.2 ⟨?_, ?_, ?_⟩, ?_⟩
    · rw [List.length_append, hskipped, htaken]
    · rw [hrest, List.append_assoc]
    · rw [hposition, Nat.add_assoc]
    · rw [List.drop_left' hskipped]

theorem run_word_eq_ok {size n : Nat} : (word size).run order cursor = .ok (n, next) ↔
    n < wordValues size ∧ ∃ skipped : List UInt8, skipped.length = padding size cursor.position ∧
      cursor.rest = skipped ++ (order.octets size n ++ next.rest) ∧
      next.position = cursor.position + padding size cursor.position + size := by
  simp only [word]
  rw [map_eq_ok_iff]
  constructor
  · rintro ⟨⟨taken, middle⟩, htaken, heq⟩
    cases heq
    obtain ⟨skipped, hskipped, hlength, hrest, hposition⟩ := run_aligned_eq_ok.1 htaken
    subst hlength
    refine ⟨?_, skipped, hskipped, ?_, hposition⟩
    · exact order.value_lt taken
    · rw [ByteOrder.octets_value, hrest]
  · rintro ⟨hn, skipped, hskipped, hrest, hposition⟩
    refine ⟨(order.octets size n, next), ?_, ?_⟩
    · exact run_aligned_eq_ok.2 ⟨skipped, hskipped, by simp, hrest, hposition⟩
    · rw [order.value_octets_of_lt hn]

theorem word_exact {size : Nat} {ofNat : Nat → α} {toNat : α → Nat} {field : α → Field}
    (hto : ∀ a, toNat a < wordValues size) (hof : ∀ a, ofNat (toNat a) = a)
    (hback : ∀ n, n < wordValues size → toNat (ofNat n) = n)
    (hboundary : ∀ a, (field a).boundary = size) (hsize : ∀ a, (field a).size = size)
    (hbody : ∀ order a, (field a).body order = order.octets size (toNat a)) :
    (word size >>= fun n => pure (ofNat n)).Exact fun a => [field a] := by
  intro order cursor a next
  rw [run_bind_eq_ok, Layout.between_singleton, Field.Between, hboundary, hsize, hbody]
  constructor
  · rintro ⟨n, middle, hword, hpure⟩
    cases hpure
    obtain ⟨hn, skipped, hskipped, hrest, hposition⟩ := run_word_eq_ok.1 hword
    refine ⟨skipped, hskipped, ?_, hposition⟩
    rw [hback n hn, hrest]
  · rintro ⟨skipped, hskipped, hrest, hposition⟩
    refine ⟨toNat a, next, run_word_eq_ok.2 ⟨hto a, skipped, hskipped, hrest, hposition⟩, ?_⟩
    rw [run_pure, hof]

theorem u8_exact : u8.Exact fun word => [.u8 word] :=
  word_exact UInt8.toNat_lt (fun _ => UInt8.ofNat_toNat) (fun _ => UInt8.toNat_ofNat_of_lt')
    (fun _ => rfl) (fun _ => rfl) (fun _ _ => rfl)

theorem u16_exact : u16.Exact fun word => [.u16 word] :=
  word_exact UInt16.toNat_lt (fun _ => UInt16.ofNat_toNat) (fun _ => UInt16.toNat_ofNat_of_lt')
    (fun _ => rfl) (fun _ => rfl) (fun _ _ => rfl)

theorem u32_exact : u32.Exact fun word => [.u32 word] :=
  word_exact UInt32.toNat_lt (fun _ => UInt32.ofNat_toNat) (fun _ => UInt32.toNat_ofNat_of_lt')
    (fun _ => rfl) (fun _ => rfl) (fun _ _ => rfl)

theorem u64_exact : u64.Exact fun word => [.u64 word] :=
  word_exact UInt64.toNat_lt (fun _ => UInt64.ofNat_toNat) (fun _ => UInt64.toNat_ofNat_of_lt')
    (fun _ => rfl) (fun _ => rfl) (fun _ _ => rfl)

theorem i32_exact : i32.Exact fun word => [.u32 word.toUInt32] :=
  u32_exact.map UInt32.toInt32 Int32.toUInt32 (fun _ => rfl) (fun _ => rfl)

theorem guid_exact : guid.Exact Guid.layout := by
  intro order cursor guid next
  unfold Reader.guid
  rw [u32_exact.run_bind_eq_ok]
  constructor
  · rintro ⟨data1, first, h1, h⟩
    obtain ⟨data2, second, h2, h⟩ := u16_exact.run_bind_eq_ok.1 h
    obtain ⟨data3, third, h3, h⟩ := u16_exact.run_bind_eq_ok.1 h
    obtain ⟨data4, fourth, h4, h⟩ := (block_exact 8).run_bind_eq_ok.1 h
    cases h
    exact ⟨first, Layout.between_singleton.1 h1, second, Layout.between_singleton.1 h2, third,
      Layout.between_singleton.1 h3, h4⟩
  · rintro ⟨first, h1, second, h2, third, h3, h4⟩
    refine ⟨guid.data1, first, Layout.between_singleton.2 h1, ?_⟩
    rw [u16_exact.run_bind _ (Layout.between_singleton.2 h2),
      u16_exact.run_bind _ (Layout.between_singleton.2 h3), (block_exact 8).run_bind _ h4]
    rfl

theorem align_exact (boundary : Nat) : (align boundary).Exact fun _ => [.align boundary] := by
  intro order cursor done next
  rw [align, run_bind_eq_ok, Layout.between_singleton]
  constructor
  · rintro ⟨taken, middle, htaken, hpure⟩
    cases hpure
    obtain ⟨skipped, hskipped, hlength, hrest, hposition⟩ := run_aligned_eq_ok.1 htaken
    rw [List.length_eq_zero_iff] at hlength
    subst hlength
    exact ⟨skipped, hskipped, hrest, hposition⟩
  · rintro ⟨skipped, hskipped, hrest, hposition⟩
    exact ⟨[], next, run_aligned_eq_ok.2 ⟨skipped, hskipped, rfl, hrest, hposition⟩, rfl⟩

end Reader

end OrpcWire
