import OrpcWire.Proofs.Graph.Accounting
import OrpcWire.Proofs.Graph.Fits
import OrpcWire.Proofs.Graph.Taking
import OrpcWire.Proofs.Graph.Tree

/-!
# Values that have been written are read back

Where the pieces of a value stand, under whatever ids, a reader without a limit finds the value
again, except that its pointers are numbered in the order of their ids (`Shape.read_delivers`).

Two conditions are the reader's: it refuses arrays with too many elements, and arrays with more
elements than octets left. The second one is met if elements take octets.
-/

namespace OrpcWire

namespace Value

mutual

/-- The value with its pointers numbered from `first` on. -/
def numbered : Nat → Value → Value
  | first, .pointer (some _) => .pointer (some first)
  | first, .struct members => .struct (numberedAll first members)
  | first, .array elements => .array (numberedAll first elements)
  | _, value => value

/-- The same for several values, one after the other. -/
def numberedAll : Nat → List Value → List Value
  | _, [] => []
  | first, value :: values =>
    value.numbered first :: numberedAll (first + value.slots.length) values

end

end Value

/-- Where the pieces stand the reader finds the value, in which pointers are numbered from the slots
taken on. -/
def Delivers {α : Type} (reader : Nat → Reader WireError (Found α)) (value : Nat → α)
    (written : List Piece) : Prop :=
  ∀ taken ids order cursor next, ids.length = (Piece.references written).length →
    (∀ id ∈ ids, id ≠ nullId) → (Piece.withIds ids written).Between order cursor next →
    (reader taken).run order cursor =
      .ok (⟨value taken, Announcement.ofReferences ids (Piece.references written)⟩, next)

namespace Delivers

variable {α β γ : Type} {reader : Nat → Reader WireError (Found α)} {value : Nat → α}
  {written : List Piece}

theorem leaf {field : Reader WireError α} {layout : α → Layout} (h : field.Exact layout)
    (f : α → β) (a : α) :
    Delivers (fun _ => field >>= fun a => Pure.pure ⟨f a, []⟩) (fun _ => f a)
      ((layout a).map .field) := by
  intro taken ids order cursor next hlength _ hbetween
  rw [Piece.withIds_fields] at hbetween
  rw [h.run_bind _ hbetween, Piece.references_fields]
  simp [Announcement.ofReferences]

theorem nil : Delivers (fun _ => pure ⟨[], []⟩) (fun _ => ([] : List α)) [] := by
  intro taken ids order cursor next hlength _ hbetween
  rw [Piece.withIds_nil, Layout.between_nil] at hbetween
  rw [hbetween, Reader.run_pure]
  simp [Announcement.ofReferences]

theorem bind {field : Reader WireError γ} {valid : γ → Prop} {layout : γ → Layout}
    (h : field.ExactOn valid layout) {next : γ → Nat → Reader WireError (Found α)} (c : γ)
    (hvalid : valid c) (hnext : Delivers (next c) value written) :
    Delivers (fun taken => field >>= fun c => next c taken) value
      ((layout c).map .field ++ written) := by
  intro taken ids order cursor last hlength hids hbetween
  rw [Piece.withIds_fields_append, Layout.between_append] at hbetween
  obtain ⟨middle, hfields, hbetween⟩ := hbetween
  rw [Piece.references_append, Piece.references_fields, List.nil_append] at hlength ⊢
  rw [Reader.run_bind, (h order cursor c middle).2 ⟨hvalid, hfields⟩]
  exact hnext taken ids order middle last hlength hids hbetween

theorem map (h : Delivers reader value written) (f : α → β) :
    Delivers (fun taken => reader taken >>= fun found => pure (found.map f))
      (fun taken => f (value taken)) written := by
  intro taken ids order cursor next hlength hids hbetween
  rw [Reader.run_bind, h taken ids order cursor next hlength hids hbetween]
  rfl

theorem cons {others : Nat → Reader WireError (Found (List α))} {values : Nat → List α}
    {first second : List Piece} (h : Delivers reader value first)
    (hothers : Delivers others values second) :
    Delivers (fun taken => do
      let first ← reader taken
      let others ← others (taken + first.announced.length)
      return ⟨first.value :: others.value, first.announced ++ others.announced⟩)
      (fun taken =>
        value taken :: values (taken + (Piece.references first).length)) (first ++ second) := by
  intro taken ids order cursor next hlength hids hbetween
  rw [Piece.references_append, List.length_append] at hlength
  obtain ⟨ids1, ids2, middle, rfl, hids1, hids2, hbetween1, hbetween2⟩ :=
    Piece.exists_between_append hlength rfl hbetween
  rw [Reader.run_bind,
    h taken ids1 order cursor middle hids1 (fun id hid => hids id (List.mem_append_left _ hid))
    hbetween1]
  simp only [Announcement.length_ofReferences hids1]
  rw [Reader.run_bind,
    hothers _ ids2 order middle next hids2 (fun id hid => hids id (List.mem_append_right _ hid))
    hbetween2, Piece.references_append, Announcement.ofReferences_append hids1]
  rfl

end Delivers

namespace Shape

variable {element : Shape} {values : List Value} {written : List Piece}

theorem length_slots {shape : Shape} {value : Value} (h : shape.pieces value = .ok written) :
    value.slots.length = (Piece.references written).length := by
  rw [slots_of_pieces h, List.length_map]

theorem delivers_row {reader : Nat → Reader WireError (Found Value)}
    (h : Rows (fun value written => element.pieces value = .ok written ∧
      Delivers reader (fun taken => value.numbered taken) written) values written) :
    Delivers (readRow reader values.length) (fun taken => Value.numberedAll taken values)
      written := by
  induction h with
  | nil => exact Delivers.nil
  | cons hfirst _ ih =>
    have hrow := hfirst.2.cons ih
    rw [← length_slots hfirst.1] at hrow
    exact hrow

theorem delivers_elements {reader : Nat → Reader WireError (Found Value)}
    (htakes : element.takesNothing = false)
    (h : Rows (fun value written => element.pieces value = .ok written ∧
      Delivers reader (fun taken => value.numbered taken) written) values written) :
    Delivers (readElements reader values.length)
      (fun taken => Value.numberedAll taken values) written := by
  intro taken ids order cursor next hlength hids hbetween
  have hroom : values.length ≤ cursor.rest.length := by
    have hend :=
      length_le_of_rows (h.imp fun _ _ _ h => takes_of_pieces h.1 htakes) ids cursor.position
    have hposition := hbetween.position_eq
    have hrest := hbetween.length_eq
    omega
  rw [run_readElements, if_pos hroom]
  exact delivers_row h taken ids order cursor next hlength hids hbetween

theorem delivers_pointer (target : Shape) (slot : Nat) :
    Delivers (read none (.pointer target)) (fun taken => .pointer (some taken))
      [.reference ⟨slot, target⟩] := by
  intro taken ids order cursor next hlength hids hbetween
  obtain ⟨id, rfl⟩ := List.length_eq_one_iff.1 hlength
  have hne : some id ≠ some nullId := by simpa using hids
  rw [read, Reader.run_bind, (Reader.referentId_exact _ _ _ _).2 ⟨hne, hbetween⟩]
  rfl

theorem delivers_null (target : Shape) :
    Delivers (read none (.pointer target)) (fun _ => .null) [.field (.u32 nullId)] := by
  intro taken ids order cursor next hlength hids hbetween
  have hnull : (none : Option UInt32) ≠ some nullId := by simp
  rw [read, Reader.run_bind, (Reader.referentId_exact _ _ _ _).2 ⟨hnull, hbetween⟩]
  simp [Announcement.ofReferences, Value.null]

/-- The count in front of a structure, if there is one, is that of its last value. -/
def CountsLast (count : Option Nat) (values : List Value) : Prop :=
  ∀ n, count = some n → ∃ elements, values.getLast? = some (.array elements) ∧ elements.length = n

/-- The members of a conformant structure have a last value, so a first value in front of them is
not the last one. -/
theorem CountsLast.tail {members : List Shape} {value : Value} {count : Option Nat}
    (h : CountsLast count (value :: values)) (hlength : members.length = values.length)
    (hcount : count.isSome = isConformant members) : CountsLast count values := by
  intro n hn
  obtain ⟨elements, hlast, helements⟩ := h n hn
  refine ⟨elements, ?_, helements⟩
  cases values with
  | nil =>
    rw [List.length_eq_zero_iff.1 hlength, hn] at hcount
    cases hcount
  | cons second values => rwa [List.getLast?_cons_cons] at hlast

/-- Where a value has been written it is found again. -/
theorem read_delivers {shape : Shape} {value : Value} (h : shape.pieces value = .ok written)
    (htake : shape.elementsTake = true) (hwithin : value.arraysWithin elementLimit = true) :
    Delivers (read none shape) (fun taken => value.numbered taken) written := by
  refine pieces_induction
    (P := fun shape value written =>
      shape.elementsTake = true → value.arraysWithin elementLimit = true →
      Delivers (read none shape) (fun taken => value.numbered taken) written)
    (Q := fun members values written =>
      members.length = values.length → allElementsTake members = true →
      Value.allWithin elementLimit values = true →
      ∀ count : Option Nat, count.isSome = isConformant members → CountsLast count values →
      Delivers (readMembers none members count)
      (fun taken => Value.numberedAll taken values) written)
    ?leaf ?null ?pointer ?array ?struct ?nil ?tail ?cons shape value written h htake hwithin
  case leaf =>
    rintro _ _ _ ⟨⟩ _ _
    · exact Delivers.leaf Reader.u8_exact Value.u8 _
    · exact Delivers.leaf Reader.u16_exact Value.u16 _
    · exact Delivers.leaf Reader.u32_exact Value.u32 _
    · exact Delivers.leaf Reader.u64_exact Value.u64 _
    · exact Delivers.leaf Reader.guid_exact Value.guid _
  case null => exact fun target _ _ => delivers_null target
  case pointer => exact fun target slot _ _ => delivers_pointer target slot
  case array =>
    intro element values written _ hrows htake hwithin
    rw [elementsTake, Bool.and_eq_true, Bool.not_eq_true'] at htake
    rw [Value.arraysWithin, Bool.and_eq_true, decide_eq_true_eq, Value.allWithin_iff] at hwithin
    have helements := delivers_elements htake.1 (hrows.imp fun value hmem _ h =>
      ⟨h.1, h.2 htake.2 (hwithin.2 value hmem)⟩)
    exact Delivers.bind readCount_exact values.length hwithin.1 (helements.map Value.array)
  case struct =>
    intro members values count written hlength hcount hmembers htake hwithin
    obtain ⟨count, hconformant, hlast, rfl⟩ := hoistedCount_eq_ok_iff.1 hcount
    have hvalid : HoistedCountValid members count := by
      refine ⟨hconformant, fun n hn => ?_⟩
      obtain ⟨_, elements, hvalues, rfl⟩ := hlast n hn
      rw [Value.arraysWithin, Value.allWithin_iff] at hwithin
      have harray := hwithin _ (List.mem_of_getLast? hvalues)
      rw [Value.arraysWithin, Bool.and_eq_true, decide_eq_true_eq] at harray
      exact harray.1
    have hcontent := hmembers hlength htake hwithin count hconformant fun n hn => (hlast n hn).2
    exact Delivers.bind (readHoistedCount_exact members) count hvalid
      (Delivers.bind (Reader.align_exact _).exactOn () trivial (hcontent.map Value.struct))
  case nil =>
    intro _ _ _ count _ _
    simp only [readMembers]
    exact Delivers.nil
  case tail =>
    intro element values written hrows _ htake hwithin count hcount hlast
    obtain ⟨n, rfl⟩ := Option.isSome_iff_exists.1 (hcount.trans rfl)
    obtain ⟨elements, hvalues, rfl⟩ := hlast n rfl
    cases hvalues
    rw [allElementsTake, elementsTake, Bool.and_eq_true, Bool.and_eq_true,
      Bool.not_eq_true'] at htake
    rw [Value.allWithin, Value.arraysWithin, Bool.and_eq_true, Bool.and_eq_true,
      Value.allWithin_iff] at hwithin
    have helements := delivers_elements htake.1.1 (hrows.imp fun value hmem _ h =>
      ⟨h.1, h.2 htake.1.2 (hwithin.1.2 value hmem)⟩)
    simp only [readMembers]
    exact helements.map ([Value.array ·])
  case cons =>
    intro member members value values first second hmember hpieces hfirst hsecond hlength htake
      hwithin count hcount hlast
    rw [allElementsTake, Bool.and_eq_true] at htake
    rw [Value.allWithin, Bool.and_eq_true] at hwithin
    rw [isConformant_cons hmember] at hcount
    have hrest : members.length = values.length := Nat.succ_inj.1 hlength
    have hlast_rest : CountsLast count values := hlast.tail hrest hcount
    have hboth :=
      (hfirst htake.1 hwithin.1).cons (hsecond hrest htake.2 hwithin.2 count hcount hlast_rest)
    rw [← length_slots hpieces] at hboth
    intro taken
    rw [readMembers_cons none hmember]
    exact hboth taken

end Shape

end OrpcWire
