import OrpcWire.Proofs.Wire.Between

/-!
# 16-bit units

Only the first of several units can have padding in front of it (`between_units_iff`,
`between_units_behind_padding_iff`), so the units behind it can be cut anywhere and each part read
on its own. The units are determined by their octets (`unitOctets_eq_append_iff`), and an even
number of octets are always those of some (`exists_unitOctets`).
-/

namespace OrpcWire

namespace Layout

/-- The octets of 16-bit units. -/
def unitOctets (order : ByteOrder) (units : List UInt16) : List UInt8 :=
  units.flatMap fun unit => order.octets 2 unit.toNat

theorem unitOctets_cons (order : ByteOrder) (unit : UInt16) (units : List UInt16) :
    unitOctets order (unit :: units) = order.octets 2 unit.toNat ++ unitOctets order units := rfl

theorem length_unitOctets (order : ByteOrder) (units : List UInt16) :
    (unitOctets order units).length = 2 * units.length := by
  induction units with
  | nil => rfl
  | cons unit units ih =>
    rw [unitOctets_cons, List.length_append, ih, ByteOrder.length_octets, List.length_cons]
    omega

theorem field_between_u16_iff {order : ByteOrder} {unit : UInt16} {cursor next : Cursor}
    (heven : cursor.position % 2 = 0) :
    (Field.u16 unit).Between order cursor next ↔
      cursor.rest = order.octets 2 unit.toNat ++ next.rest ∧
      next.position = cursor.position + 2 := by
  have hpadding : padding 2 cursor.position = 0 := padding_eq_zero heven
  rw [Field.Between, Field.boundary, hpadding]
  constructor
  · rintro ⟨skipped, hskipped, hrest, hposition⟩
    rw [List.length_eq_zero_iff.1 hskipped] at hrest
    exact ⟨hrest, hposition⟩
  · rintro ⟨hrest, hposition⟩
    exact ⟨[], rfl, hrest, hposition⟩

theorem even_of_between_u16 {order : ByteOrder} {unit : UInt16} {cursor next : Cursor}
    (h : (Field.u16 unit).Between order cursor next) : next.position % 2 = 0 := by
  obtain ⟨_, _, _, hposition⟩ := h
  have haligned : (cursor.position + padding 2 cursor.position) % 2 = 0 :=
    add_padding_mod 2 _ (by decide)
  change next.position = cursor.position + padding 2 cursor.position + 2 at hposition
  omega

theorem between_units_iff {order : ByteOrder} {units : List UInt16} {cursor next : Cursor}
    (heven : cursor.position % 2 = 0) :
    Between order (units.map .u16) cursor next ↔
      cursor.rest = unitOctets order units ++ next.rest ∧
      next.position = cursor.position + 2 * units.length := by
  induction units generalizing cursor with
  | nil =>
    rw [List.map_nil, between_nil]
    constructor
    · rintro rfl
      exact ⟨rfl, rfl⟩
    · rintro ⟨hrest, hposition⟩
      cases cursor
      cases next
      simp_all [unitOctets]
  | cons unit units ih =>
    rw [List.map_cons, between_cons, unitOctets_cons, List.append_assoc, List.length_cons]
    constructor
    · rintro ⟨middle, hfirst, hothers⟩
      obtain ⟨hrest, hposition⟩ := (field_between_u16_iff heven).1 hfirst
      obtain ⟨hmiddle, hnext⟩ := (ih (by omega)).1 hothers
      exact ⟨by rw [hrest, hmiddle], by omega⟩
    · rintro ⟨hrest, hposition⟩
      refine ⟨⟨cursor.position + 2, unitOctets order units ++ next.rest⟩,
        (field_between_u16_iff heven).2 ⟨hrest, rfl⟩, (ih ?_).2 ⟨rfl, ?_⟩⟩
      · show (cursor.position + 2) % 2 = 0
        omega
      · show next.position = cursor.position + 2 + 2 * units.length
        omega

theorem between_unitOctets (order : ByteOrder) (units : List UInt16) {position : Nat}
    (heven : position % 2 = 0) (rest : List UInt8) :
    Between order (units.map .u16) ⟨position, unitOctets order units ++ rest⟩
      ⟨position + 2 * units.length, rest⟩ :=
  (between_units_iff heven).2 ⟨rfl, rfl⟩

theorem render_units (order : ByteOrder) (units : List UInt16) {position : Nat}
    (heven : position % 2 = 0) :
    render order position (units.map .u16) = unitOctets order units := by
  have hbetween := between_render order position (units.map .u16) []
  obtain ⟨hrest, -⟩ := (between_units_iff heven).1 hbetween
  rwa [List.append_nil, List.append_nil] at hrest

theorem endFrom_units (units : List UInt16) {position : Nat} (heven : position % 2 = 0) :
    endFrom position (units.map .u16) = position + 2 * units.length :=
  (between_unitOctets .little units heven []).position_eq.symm

theorem between_units_behind_padding_iff {order : ByteOrder} {unit : UInt16} {units : List UInt16}
    {cursor next : Cursor} :
    Between order ((unit :: units).map .u16) cursor next ↔ ∃ skipped : List UInt8,
      skipped.length = padding 2 cursor.position ∧
      cursor.rest = skipped ++ (unitOctets order (unit :: units) ++ next.rest) ∧
      next.position = cursor.position + padding 2 cursor.position + 2 * (units.length + 1) := by
  rw [List.map_cons, between_cons, unitOctets_cons]
  constructor
  · rintro ⟨middle, hunit, hunits⟩
    obtain ⟨hrest, hposition⟩ := (between_units_iff (even_of_between_u16 hunit)).1 hunits
    obtain ⟨skipped, hskipped, hfirst, hmiddle⟩ := hunit
    change skipped.length = padding 2 cursor.position at hskipped
    change cursor.rest = skipped ++ (order.octets 2 unit.toNat ++ middle.rest) at hfirst
    change middle.position = cursor.position + padding 2 cursor.position + 2 at hmiddle
    refine ⟨skipped, hskipped, ?_, by omega⟩
    rw [hfirst, hrest, List.append_assoc]
  · rintro ⟨skipped, hskipped, hrest, hposition⟩
    rw [List.append_assoc] at hrest
    have hunit : (Field.u16 unit).Between order cursor
        ⟨cursor.position + padding 2 cursor.position + 2, unitOctets order units ++ next.rest⟩ :=
      ⟨skipped, hskipped, hrest, rfl⟩
    refine ⟨_, hunit, (between_units_iff (even_of_between_u16 hunit)).2 ⟨rfl, ?_⟩⟩
    show next.position = cursor.position + padding 2 cursor.position + 2 + 2 * units.length
    omega

/-! ### units and octets -/

theorem unitOctets_append (order : ByteOrder) (first second : List UInt16) :
    unitOctets order (first ++ second) = unitOctets order first ++ unitOctets order second :=
  List.flatMap_append

theorem value_take_unitOctets (order : ByteOrder) (unit : UInt16) (units : List UInt16) :
    order.value ((unitOctets order (unit :: units)).take 2) = unit.toNat := by
  rw [unitOctets_cons, List.take_left' (order.length_octets 2 _),
    order.value_octets_of_lt unit.toNat_lt]

@[simp] theorem unitOctets_eq_nil_iff {order : ByteOrder} {units : List UInt16} :
    unitOctets order units = [] ↔ units = [] := by
  rw [← List.length_eq_zero_iff, length_unitOctets, ← List.length_eq_zero_iff]
  omega

theorem take_drop_unitOctets (order : ByteOrder) (units : List UInt16) (n : Nat) :
    (unitOctets order units).take (2 * n) = unitOctets order (units.take n) ∧
      (unitOctets order units).drop (2 * n) = unitOctets order (units.drop n) := by
  by_cases hn : n ≤ units.length
  · have hlength : (unitOctets order (units.take n)).length = 2 * n := by
      rw [length_unitOctets, List.length_take_of_le hn]
    have hunits : unitOctets order units = unitOctets order (units.take n) ++
        unitOctets order (units.drop n) := by
      rw [← unitOctets_append, List.take_append_drop]
    rw [hunits]
    exact ⟨List.take_left' hlength, List.drop_left' hlength⟩
  · have hlength := length_unitOctets order units
    rw [List.take_of_length_le (by omega), List.take_of_length_le (by omega : units.length ≤ n),
      List.drop_of_length_le (by omega), List.drop_of_length_le (by omega : units.length ≤ n)]
    exact ⟨rfl, rfl⟩

theorem octets_unit_inj {order : ByteOrder} {first second : UInt16}
    (h : order.octets 2 first.toNat = order.octets 2 second.toNat) : first = second := by
  have hvalue := congrArg order.value h
  rw [order.value_octets_of_lt first.toNat_lt, order.value_octets_of_lt second.toNat_lt] at hvalue
  exact UInt16.toNat_inj.1 hvalue

theorem unitOctets_eq_append_iff {order : ByteOrder} {units first : List UInt16}
    {rest : List UInt8} :
    unitOctets order units = unitOctets order first ++ rest ↔
      ∃ more, units = first ++ more ∧ rest = unitOctets order more := by
  constructor
  · intro h
    induction first generalizing units with
    | nil => exact ⟨units, rfl, h.symm⟩
    | cons unit first ih =>
      cases units with
      | nil =>
        have hlength := congrArg List.length h
        rw [List.length_append, length_unitOctets, length_unitOctets, List.length_nil,
          List.length_cons] at hlength
        omega
      | cons unit' units =>
        have hcons : order.octets 2 unit'.toNat ++ unitOctets order units =
            order.octets 2 unit.toNat ++ (unitOctets order first ++ rest) := by
          rw [← List.append_assoc]
          exact h
        obtain ⟨hunit, hunits⟩ :=
          List.append_inj hcons (by rw [ByteOrder.length_octets, ByteOrder.length_octets])
        obtain ⟨more, rfl, hrest⟩ := ih hunits
        exact ⟨more, by rw [octets_unit_inj hunit, List.cons_append], hrest⟩
  · rintro ⟨more, rfl, rfl⟩
    exact unitOctets_append order first more

theorem between_units_in_units_iff {order : ByteOrder} {units : List UInt16} (first : List UInt16)
    {position : Nat} {next : Cursor} (heven : position % 2 = 0) :
    Between order (first.map .u16) ⟨position, unitOctets order units⟩ next ↔
      ∃ more, units = first ++ more ∧
        next = ⟨position + 2 * first.length, unitOctets order more⟩ := by
  rw [between_units_iff heven, unitOctets_eq_append_iff]
  constructor
  · rintro ⟨⟨more, hunits, hrest⟩, hposition⟩
    refine ⟨more, hunits, ?_⟩
    cases next
    simp_all
  · rintro ⟨more, hunits, rfl⟩
    exact ⟨⟨more, hunits, rfl⟩, rfl⟩

theorem exists_unitOctets (order : ByteOrder) {n : Nat} {octets : List UInt8}
    (h : octets.length = 2 * n) :
    ∃ units : List UInt16, units.length = n ∧ octets = unitOctets order units := by
  induction n generalizing octets with
  | zero => exact ⟨[], rfl, List.length_eq_zero_iff.1 h⟩
  | succ n ih =>
    have hdrop : (octets.drop 2).length = 2 * n := by
      rw [List.length_drop]
      omega
    obtain ⟨units, hlength, hunits⟩ := ih hdrop
    have htwo : (octets.take 2).length = 2 := List.length_take_of_le (by omega)
    have hvalue := order.value_lt (octets.take 2)
    have hfirst := order.octets_value (octets.take 2)
    rw [htwo] at hvalue hfirst
    refine ⟨.ofNat (order.value (octets.take 2)) :: units, by rw [List.length_cons, hlength], ?_⟩
    show octets = order.octets 2 (UInt16.ofNat (order.value (octets.take 2))).toNat ++
      unitOctets order units
    rw [UInt16.toNat_ofNat_of_lt' hvalue, hfirst, ← hunits, List.take_append_drop]

end Layout

end OrpcWire
