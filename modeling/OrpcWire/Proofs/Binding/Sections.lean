import OrpcWire.Binding.DualStringArray
import OrpcWire.Proofs.Text.Surrogates
import OrpcWire.Proofs.Wire.Items
import OrpcWire.Proofs.Wire.Units

/-!
# Sections of bindings

A binding can be written if it does not begin with the zero unit that ends a section and its text
has no U+0000 in it (`StringBinding.Encodable`, `SecurityBinding.Encodable`), and its reader answers
it just where it stands (`StringBinding.read_items`, `SecurityBinding.read_items`). A section is the
units of its bindings and a zero unit. One without bindings has two, of which only the first is
read.
-/

namespace OrpcWire

/-! ### Texts -/

namespace Reader

/-- The units of a text and the zero unit. -/
def terminated (text : String) : List UInt16 := Utf16.units text ++ [0]

theorem nulTerminated_eq (text : String) : nulTerminated text = (terminated text).map .u16 := by
  rw [nulTerminated, terminated, List.map_append]
  rfl

section

variable {ε α : Type} {first : Reader ε UInt16} {others : UInt16 → Reader ε (Option α)}

theorem items_of_unit (hfirst : first.Exact fun unit => [.u16 unit]) (head : α → UInt16)
    (valid : α → Prop) (behind : α → Layout)
    (hothers : ∀ unit order cursor a next, (others unit).run order cursor = .ok (some a, next) ↔
      head a = unit ∧ valid a ∧ (behind a).Between order cursor next) :
    (first >>= fun unit => if unit = 0 then pure none
      else others unit).Items (fun a => head a ≠ 0 ∧ valid a)
      fun a => [.u16 (head a)] ++ behind a := by
  intro order cursor a next
  rw [hfirst.run_bind_eq_ok, Layout.between_append]
  constructor
  · rintro ⟨unit, middle, hunit, h⟩
    by_cases hzero : unit = 0
    · rw [if_pos hzero] at h
      cases h
    · rw [if_neg hzero] at h
      obtain ⟨rfl, hvalid, hbehind⟩ := (hothers unit order middle a next).1 h
      exact ⟨⟨hzero, hvalid⟩, middle, hunit, hbehind⟩
  · rintro ⟨⟨hhead, hvalid⟩, middle, hunit, hbehind⟩
    refine ⟨head a, middle, hunit, ?_⟩
    rw [if_neg hhead]
    exact (hothers _ order middle a next).2 ⟨rfl, hvalid, hbehind⟩

theorem run_eq_none_iff_of_unit (hfirst : first.Exact fun unit => [.u16 unit])
    (hothers : ∀ unit order cursor next, (others unit).run order cursor ≠ .ok (none, next))
    {order : ByteOrder} {cursor next : Cursor} :
    (first >>= fun unit => if unit = 0 then pure none
      else others unit).run order cursor = .ok (none, next) ↔
        Layout.Between order [.u16 0] cursor next := by
  rw [hfirst.run_bind_eq_ok]
  constructor
  · rintro ⟨unit, middle, hunit, h⟩
    by_cases hzero : unit = 0
    · rw [hzero] at h hunit
      cases h
      exact hunit
    · rw [if_neg hzero] at h
      exact absurd h (hothers unit order middle next)
  · intro h
    exact ⟨0, next, h, rfl⟩

end

theorem unit?_eq : unit? = u16 >>= fun unit => if unit = 0 then pure none
    else pure (some unit) := by
  unfold unit?
  congr 1
  funext unit
  split <;> rfl

theorem unit?_items : unit?.Items (· ≠ 0) fun unit => [.u16 unit] := by
  have h : unit?.Items (fun unit => unit ≠ 0 ∧ True) fun unit => [.u16 unit] ++ [] := by
    rw [unit?_eq]
    refine items_of_unit u16_exact id _ _ fun unit order cursor a next => ?_
    rw [run_pure, Layout.between_nil]
    grind
  simpa only [and_true, List.append_nil] using h

theorem run_unit?_eq_none_iff {order : ByteOrder} {cursor next : Cursor} :
    unit?.run order cursor = .ok (none, next) ↔ Layout.Between order [.u16 0] cursor next := by
  rw [unit?_eq]
  exact run_eq_none_iff_of_unit u16_exact fun unit order cursor next h => by cases h

theorem unitsToNul_exact :
    unitsToNul.ExactOn (fun units => ∀ unit ∈ units, unit ≠ 0) fun units =>
      (units ++ [0]).map .u16 := by
  intro order cursor units next
  have hlayout : (units ++ [0]).map Field.u16 = units.flatMap (fun unit => [.u16 unit]) ++
      [.u16 0] := by
    rw [List.map_append, ← List.map_eq_flatMap]
    rfl
  show _ ↔ _ ∧ Layout.Between order ((units ++ [0]).map .u16) cursor next
  rw [hlayout]
  exact unit?_items.collect_exactOn (fun _ _ _ => run_unit?_eq_none_iff) order cursor units next

theorem textToNul_exact (error : OrpcError) :
    (textToNul error).ExactOn (fun text => '\x00' ∉ text.toList) fun text =>
      (terminated text).map .u16 := by
  intro order cursor text next
  unfold textToNul
  rw [run_bind_eq_ok]
  constructor
  · rintro ⟨units, middle, hunits, htext⟩
    obtain ⟨hnonzero, hbetween⟩ := (unitsToNul_exact _ _ _ _).1 (run_lift_eq_ok_iff.1 hunits)
    obtain ⟨hdecoded, rfl⟩ := run_ofExcept_eq_ok_iff.1 htext
    cases hsome : Utf16.text? units with
    | none =>
      rw [hsome] at hdecoded
      cases hdecoded
    | some found =>
      rw [hsome] at hdecoded
      cases hdecoded
      obtain rfl := Utf16.text?_eq_some_iff.1 hsome
      exact ⟨Utf16.forall_ne_zero_iff.1 hnonzero, hbetween⟩
  · rintro ⟨htext, hbetween⟩
    refine ⟨Utf16.units text, next,
      run_lift_eq_ok_iff.2 ((unitsToNul_exact _ _ _ _).2 ⟨?_, hbetween⟩), ?_⟩
    · exact Utf16.forall_ne_zero_iff.2 htext
    · rw [Utf16.text?_units]
      rfl

theorem run_textToNul_of_unpaired (error : OrpcError) {units : List UInt16} {order : ByteOrder}
    {cursor next : Cursor} (hnonzero : ∀ unit ∈ units, unit ≠ 0) (hunpaired : Utf16.Unpaired units)
    (hbetween : Layout.Between order ((units ++ [0]).map .u16) cursor next) :
    (textToNul error).run order cursor = .error error := by
  have hunits := run_lift ((unitsToNul_exact _ _ _ _).2 ⟨hnonzero, hbetween⟩)
  unfold textToNul
  rw [run_bind, hunits]
  simp only [Utf16.text?_eq_none_iff.2 hunpaired]
  rfl

end Reader

/-! ### Bindings -/

theorem hasNul_eq_false_iff {text : String} : hasNul text = false ↔ '\x00' ∉ text.toList := by
  rw [hasNul, ← Bool.not_eq_true, List.contains_iff_mem]

theorem checked_eq_ok_iff {first : UInt16} {text : String} {reserved nul : OrpcError}
    {sent layout : Layout} :
    (if first = 0 then .error reserved else if hasNul text then .error nul
      else .ok sent : Except OrpcError Layout) = .ok layout ↔
        (first ≠ 0 ∧ '\x00' ∉ text.toList) ∧ layout = sent := by
  rw [← hasNul_eq_false_iff]
  by_cases hfirst : first = 0
  · simp [hfirst]
  · cases hasNul text <;> simp [hfirst, eq_comm]

namespace StringBinding

/-- The tower is not the end of a section, and the address can be sent. -/
def Encodable (binding : StringBinding) : Prop :=
  binding.towerId ≠ 0 ∧ '\x00' ∉ binding.networkAddr.toList

/-- What the binding is written as. -/
def wireUnits (binding : StringBinding) : List UInt16 :=
  binding.towerId :: Reader.terminated binding.networkAddr

theorem length_wireUnits (binding : StringBinding) : binding.wireUnits.length = binding.units := by
  rw [wireUnits, Reader.terminated, List.length_cons, List.length_append, List.length_singleton,
    units, Utf16.length]
  omega

theorem encode_eq_ok_iff (binding : StringBinding) (layout : Layout) :
    binding.encode = .ok layout ↔ binding.Encodable ∧ layout = binding.wireUnits.map .u16 := by
  rw [wireUnits, List.map_cons, ← Reader.nulTerminated_eq]
  exact checked_eq_ok_iff

/-- A binding is read just where one that can be written stands. -/
theorem read_items : read.Items Encodable fun binding => binding.wireUnits.map .u16 := by
  refine Reader.items_of_unit Reader.u16_exact.lift towerId (fun binding =>
    '\x00' ∉ binding.networkAddr.toList)
    (fun binding => (Reader.terminated binding.networkAddr).map .u16) ?_
  intro tower order cursor binding next
  rw [(Reader.textToNul_exact _).run_bind_eq_ok]
  constructor
  · rintro ⟨text, middle, htext, hbetween, h⟩
    cases h
    exact ⟨rfl, htext, hbetween⟩
  · rintro ⟨rfl, htext, hbetween⟩
    exact ⟨_, next, htext, hbetween, rfl⟩

theorem run_read_eq_none_iff {order : ByteOrder} {cursor next : Cursor} :
    read.run order cursor = .ok (none, next) ↔ Layout.Between order [.u16 0] cursor next := by
  refine Reader.run_eq_none_iff_of_unit Reader.u16_exact.lift fun tower order cursor next h => ?_
  obtain ⟨text, middle, _, h⟩ := Reader.run_bind_eq_ok.1 h
  cases h

end StringBinding

namespace SecurityBinding

/-- The authentication service is not the end of a chain, and the name can be sent. -/
def Encodable (binding : SecurityBinding) : Prop :=
  binding.authnService ≠ 0 ∧ '\x00' ∉ binding.principalName.toList

/-- What the binding is written as. -/
def wireUnits (binding : SecurityBinding) : List UInt16 :=
  binding.authnService :: binding.authzService :: Reader.terminated binding.principalName

theorem length_wireUnits (binding : SecurityBinding) :
    binding.wireUnits.length = binding.units := by
  rw [wireUnits, Reader.terminated, List.length_cons, List.length_cons, List.length_append,
    List.length_singleton, units, length, nameUnits, Utf16.length, servicesSize]
  omega

theorem encode_eq_ok_iff (binding : SecurityBinding) (layout : Layout) :
    binding.encode = .ok layout ↔ binding.Encodable ∧ layout = binding.wireUnits.map .u16 := by
  rw [wireUnits, List.map_cons, List.map_cons, ← Reader.nulTerminated_eq]
  exact checked_eq_ok_iff

/-- A binding is read just where one that can be written stands. -/
theorem read_items : read.Items Encodable fun binding => binding.wireUnits.map .u16 := by
  refine Reader.items_of_unit Reader.u16_exact.lift authnService (fun binding =>
    '\x00' ∉ binding.principalName.toList)
    (fun binding =>
      [.u16 binding.authzService] ++ (Reader.terminated binding.principalName).map .u16) ?_
  intro service order cursor binding next
  rw [Reader.u16_exact.lift.run_bind_eq_ok, Layout.between_append]
  constructor
  · rintro ⟨authz, middle, hauthz, h⟩
    obtain ⟨name, last, hname, hbetween, h⟩ := (Reader.textToNul_exact _).run_bind_eq_ok.1 h
    cases h
    exact ⟨rfl, hname, middle, hauthz, hbetween⟩
  · rintro ⟨rfl, hname, middle, hauthz, hbetween⟩
    exact ⟨_, middle, hauthz,
      (Reader.textToNul_exact _).run_bind_eq_ok.2 ⟨_, next, hname, hbetween, rfl⟩⟩

theorem run_read_eq_none_iff {order : ByteOrder} {cursor next : Cursor} :
    read.run order cursor = .ok (none, next) ↔ Layout.Between order [.u16 0] cursor next := by
  refine Reader.run_eq_none_iff_of_unit Reader.u16_exact.lift fun service order cursor next h => ?_
  obtain ⟨authz, middle, _, h⟩ := Reader.run_bind_eq_ok.1 h
  obtain ⟨name, last, _, h⟩ := Reader.run_bind_eq_ok.1 h
  cases h

end SecurityBinding

/-! ### Sections -/

section

variable {α : Type} {units : α → List UInt16} {bindings : List α}

/-- The bindings of a section and the zero unit behind them. -/
def closedUnits (units : α → List UInt16) (bindings : List α) : List UInt16 :=
  bindings.flatMap units ++ [0]

/-- A section as it is written. -/
def sectionUnits (units : α → List UInt16) (bindings : List α) : List UInt16 :=
  if bindings.isEmpty then [0, 0] else closedUnits units bindings

theorem length_closedUnits {count : α → Nat} (hcount : ∀ a, (units a).length = count a) :
    (closedUnits units bindings).length = bindings.foldr (count · + ·) 0 + 1 := by
  induction bindings with
  | nil => rfl
  | cons a as ih =>
    have hclosed : closedUnits units (a :: as) = units a ++ closedUnits units as := by
      rw [closedUnits, List.flatMap_cons, List.append_assoc, closedUnits]
    rw [hclosed, List.length_append, ih, hcount, List.foldr_cons, Nat.add_assoc]

theorem length_sectionUnits {count : α → Nat} (hcount : ∀ a, (units a).length = count a) :
    (sectionUnits units bindings).length = if bindings.isEmpty then 2
      else bindings.foldr (count · + ·) 0 + 1 := by
  rw [sectionUnits]
  split
  · rfl
  · exact length_closedUnits hcount

theorem exists_sectionUnits (units : α → List UInt16) (bindings : List α) :
    ∃ ignored, sectionUnits units bindings = bindings.flatMap units ++ 0 :: ignored := by
  cases bindings with
  | nil => exact ⟨[0], rfl⟩
  | cons a as => exact ⟨[], rfl⟩

theorem closedUnits_layout :
    (closedUnits units bindings).map Field.u16 =
      bindings.flatMap (fun a => (units a).map Field.u16) ++ [.u16 0] := by
  rw [closedUnits, List.map_append, List.map_flatMap]
  rfl

theorem encodeClosed_eq_ok_iff {encode : α → Except OrpcError Layout} {P : α → Prop}
    (h : ∀ a layout, encode a = .ok layout ↔ P a ∧ layout = (units a).map .u16) {layout : Layout} :
    (do
      let layouts ← bindings.mapM encode
      return layouts.flatten ++ [.u16 0] : Except OrpcError Layout) = .ok layout ↔
      (∀ a ∈ bindings, P a) ∧ layout = (closedUnits units bindings).map .u16 := by
  rw [closedUnits_layout, List.flatMap_def, bind_eq_ok_iff]
  constructor
  · rintro ⟨layouts, hlayouts, hlayout⟩
    obtain ⟨hall, rfl⟩ := (mapM_eq_ok_iff h).1 hlayouts
    cases hlayout
    exact ⟨hall, rfl⟩
  · rintro ⟨hall, rfl⟩
    exact ⟨_, (mapM_eq_ok_iff h).2 ⟨hall, rfl⟩, rfl⟩

theorem encodeSection_eq_ok_iff {encode : α → Except OrpcError Layout} {P : α → Prop}
    (h : ∀ a layout, encode a = .ok layout ↔ P a ∧ layout = (units a).map .u16) {layout : Layout} :
    (if bindings.isEmpty then .ok [.u16 0, .u16 0] else do
      let layouts ← bindings.mapM encode
      return layouts.flatten ++ [.u16 0] : Except OrpcError Layout) = .ok layout ↔
      (∀ a ∈ bindings, P a) ∧ layout = (sectionUnits units bindings).map .u16 := by
  cases bindings with
  | nil => simp [sectionUnits, eq_comm]
  | cons a as =>
    rw [sectionUnits, List.isEmpty_cons, if_neg Bool.false_ne_true, if_neg Bool.false_ne_true]
    exact encodeClosed_eq_ok_iff h

end

end OrpcWire
