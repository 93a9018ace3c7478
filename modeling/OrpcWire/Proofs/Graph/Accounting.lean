import OrpcWire.Proofs.Graph.Row

/-!
# Values read in place are accounted for

The induction over shapes behind `Shape.read_accounts`, with a case for each construct. Members of a
structure are read with the count that was hoisted in front of it, so for them the statement also
says that the last value has as many elements as the count.
-/

namespace OrpcWire

theorem readCount_exact : readCount.ExactOn (· ≤ elementLimit) fun count =>
    [.u32 (.ofNat count)] := by
  intro order cursor count next
  rw [readCount, Reader.u32_exact.run_bind_eq_ok]
  constructor
  · rintro ⟨word, middle, hword, heq⟩
    split at heq
    · cases heq
      rename_i hle
      refine ⟨hle, ?_⟩
      show Layout.Between order [.u32 (.ofNat word.toNat)] cursor next
      rwa [UInt32.ofNat_toNat]
    · cases heq
  · rintro ⟨hle, hword⟩
    refine ⟨.ofNat count, next, hword, ?_⟩
    have hcount : (UInt32.ofNat count).toNat = count :=
      UInt32.toNat_ofNat_of_lt' (Nat.lt_of_le_of_lt hle (by decide))
    rw [if_pos (by rwa [hcount]), hcount]
    rfl

/-- A count is there exactly if the members are those of a conformant structure. -/
def HoistedCountValid (members : List Shape) (count : Option Nat) : Prop :=
  count.isSome = Shape.isConformant members ∧ ∀ n, count = some n → n ≤ elementLimit

theorem readHoistedCount_exact (members : List Shape) :
    (readHoistedCount members).ExactOn (HoistedCountValid members)
      fun count => count.toList.map fun n => .u32 (.ofNat n) := by
  intro order cursor count next
  unfold readHoistedCount HoistedCountValid
  by_cases hconformant : Shape.isConformant members = true
  · rw [if_pos hconformant, ← bind_pure_comp, Reader.run_bind_eq_ok, hconformant]
    constructor
    · rintro ⟨n, middle, hn, hpure⟩
      cases hpure
      obtain ⟨hle, hword⟩ := (readCount_exact order cursor n _).1 hn
      refine ⟨⟨rfl, ?_⟩, hword⟩
      rintro _ ⟨⟩
      exact hle
    · rintro ⟨⟨hsome, hle⟩, hword⟩
      obtain ⟨n, rfl⟩ := Option.isSome_iff_exists.1 hsome
      exact ⟨n, next, (readCount_exact order cursor n next).2 ⟨hle n rfl, hword⟩, rfl⟩
  · rw [if_neg hconformant]
    rw [Bool.not_eq_true] at hconformant
    rw [hconformant]
    constructor
    · intro hpure
      cases hpure
      exact ⟨⟨rfl, by simp⟩, Layout.between_nil.2 rfl⟩
    · rintro ⟨⟨hnone, _⟩, hword⟩
      cases count with
      | some n => cases hnone
      | none => rw [Layout.between_nil.1 hword]; rfl

namespace Shape

/-- How the values of members are written, the last of them without its count if one was hoisted. -/
def MembersWritten (members : List Shape) (count : Option Nat) (values : List Value)
    (written : List Piece) : Prop :=
  values.length = members.length ∧ memberPieces members values = .ok written ∧
    ∀ n, count = some n → ∃ elements, values.getLast? = some (.array elements) ∧ elements.length = n

theorem readMembers_cons (limit : Option Nat) {member : Shape} {members : List Shape}
    (hmember : members = [] → ∀ element, member ≠ .array element) (count : Option Nat)
    (taken : Nat) :
    readMembers limit (member :: members) count taken = do
      let first ← read limit member taken
      let others ← readMembers limit members count (taken + first.announced.length)
      return ⟨first.value :: others.value, first.announced ++ others.announced⟩ := by
  rw [readMembers]
  intro element n _ helement hnil
  exact hmember hnil element helement

theorem pieces_struct {members : List Shape} {count : Option Nat} {values : List Value}
    {written : List Piece} (hcount : HoistedCountValid members count)
    (h : MembersWritten members count values written) :
    pieces (.struct members) (.struct values) =
      .ok ((count.toList.map fun n => Field.u32 (.ofNat n)).map Piece.field ++
        ([Field.align (alignment (.struct members))].map Piece.field ++ written)) := by
  obtain ⟨hlength, hmembers, hlast⟩ := h
  have hhoisted : hoistedCount members values =
      .ok ((count.toList.map fun n => Field.u32 (.ofNat n)).map Piece.field) := by
    refine hoistedCount_eq_ok_iff.2 ⟨count, hcount.1, fun n hn => ⟨?_, hlast n hn⟩, rfl⟩
    exact Nat.lt_of_le_of_lt (hcount.2 n hn) (by decide)
  exact pieces_struct_eq hlength.symm hhoisted hmembers

theorem read_pointer_accounts (limit : Option Nat) (target : Shape) (taken : Nat) :
    Accounts (fun value written => pieces (.pointer target) value = .ok written) taken
      (read limit (.pointer target) taken) := by
  intro order cursor found next heq
  rw [read] at heq ⊢
  obtain ⟨id, middle, hid, heq⟩ := Reader.run_bind_eq_ok.1 heq
  obtain ⟨hne, hword⟩ := (Reader.referentId_exact _ _ _ _).1 hid
  cases id with
  | none =>
    cases heq
    refine ⟨[.field (.u32 nullId)], rfl, rfl, by simp, hword, ?_⟩
    intro ids cursor' next' _ _ _ _ hbetween
    rw [Reader.run_bind, (Reader.referentId_exact _ _ _ _).2 ⟨hne, hbetween⟩]
    simp [Announcement.renamed]
  | some id =>
    obtain ⟨_, last, hslots, heq⟩ := Reader.run_bind_eq_ok.1 heq
    cases hcheck : checkSlots limit taken with
    | error error => simp [Reader.ofExcept, hcheck, Except.map] at hslots
    | ok done =>
      simp only [Reader.ofExcept, hcheck, Except.map, Except.ok.injEq, Prod.mk.injEq] at hslots
      rw [← hslots.2] at heq
      cases heq
      refine ⟨[.reference ⟨taken, target⟩], rfl, rfl, ?_, hword, ?_⟩
      · simpa using hne
      · intro ids cursor' next' hlength hids _ _ hbetween
        obtain ⟨id', rfl⟩ := List.length_eq_one_iff.1 hlength
        have hne' : some id' ≠ some nullId := by simpa using hids
        rw [Reader.run_bind, (Reader.referentId_exact _ _ _ _).2 ⟨hne', hbetween⟩]
        simp only
        rw [Reader.run_bind]
        simp [Reader.ofExcept, Except.map, Announcement.renamed]

mutual

/-- Whatever is read in place by a shape is written back as the octets it was read from. -/
theorem read_accounts (limit : Option Nat) : (shape : Shape) → (taken : Nat) →
    Accounts (fun value written => shape.pieces value = .ok written) taken (read limit shape taken)
  | .u8, taken => by rw [read]; exact Accounts.leaf Reader.u8_exact fun _ => rfl
  | .u16, taken => by rw [read]; exact Accounts.leaf Reader.u16_exact fun _ => rfl
  | .u32, taken => by rw [read]; exact Accounts.leaf Reader.u32_exact fun _ => rfl
  | .u64, taken => by rw [read]; exact Accounts.leaf Reader.u64_exact fun _ => rfl
  | .guid, taken => by rw [read]; exact Accounts.leaf Reader.guid_exact fun _ => rfl
  | .pointer target, taken => read_pointer_accounts limit target taken
  | .array element, taken => by
    rw [read]
    refine Accounts.bind readCount_exact (V :=
      fun count value written => ∃ elements, value = .array elements ∧ elements.length = count ∧
      Rows (fun value written => element.pieces value = .ok written) elements written)
      (fun count _ => ?_) ?_
    · exact Accounts.map (Accounts.elements (read_accounts limit element) count taken) Value.array
        fun elements written h => ⟨elements, rfl, h⟩
    · rintro count _ written hle ⟨elements, rfl, rfl, hrows⟩
      obtain ⟨groups, hgroups, rfl⟩ := rows_iff.1 hrows
      have hcount : countField elements.length = .ok (.field (.u32 (.ofNat elements.length))) := by
        rw [countField, if_pos (Nat.lt_of_le_of_lt hle (by decide))]
      exact bind_eq_ok_iff.2 ⟨_, hcount, bind_eq_ok_iff.2 ⟨groups, hgroups, rfl⟩⟩
  | .struct members, taken => by
    rw [read]
    refine Accounts.bind (readHoistedCount_exact members)
      (V := fun count value written => ∃ values content, value = .struct values ∧
        MembersWritten members count values content ∧
        written = [Field.align (alignment (.struct members))].map Piece.field ++ content)
      (fun count hcount => ?_) ?_
    · refine Accounts.bind (Reader.align_exact _).exactOn
        (V := fun _ value content =>
          ∃ values, value = .struct values ∧ MembersWritten members count values content)
        (fun _ _ => ?_) ?_
      · exact Accounts.map (readMembers_accounts limit members count taken hcount.1) Value.struct
          fun values content h => ⟨values, rfl, h⟩
      · rintro _ _ content _ ⟨values, rfl, h⟩
        exact ⟨values, content, rfl, h, rfl⟩
    · rintro count _ _ hcount ⟨values, content, rfl, h, rfl⟩
      exact pieces_struct hcount h

theorem readMembers_accounts (limit : Option Nat) : (members : List Shape) → (count : Option Nat) →
    (taken : Nat) → count.isSome = isConformant members →
    Accounts (MembersWritten members count) taken (readMembers limit members count taken)
  | [], count, taken, hcount => by
    rw [readMembers]
    refine Accounts.pure ⟨rfl, rfl, ?_⟩
    rintro n rfl
    cases hcount
  | member :: members, count, taken, hcount => by
    by_cases hspecial : ∃ element n, member = .array element ∧ members = [] ∧ count = some n
    · obtain ⟨element, n, rfl, rfl, rfl⟩ := hspecial
      rw [readMembers]
      refine Accounts.map (Accounts.elements (read_accounts limit element) n taken)
        ([Value.array ·]) ?_
      rintro elements written ⟨hlength, hrows⟩
      obtain ⟨groups, hgroups, rfl⟩ := rows_iff.1 hrows
      refine ⟨rfl, bind_eq_ok_iff.2 ⟨groups, hgroups, rfl⟩, ?_⟩
      rintro _ ⟨⟩
      exact ⟨elements, rfl, hlength⟩
    · -- An array at the end would have had its count hoisted.
      have hmember : members = [] → ∀ element, member ≠ .array element := by
        rintro rfl element rfl
        obtain ⟨n, rfl⟩ := Option.isSome_iff_exists.1 (hcount.trans rfl)
        exact hspecial ⟨element, n, rfl, rfl, rfl⟩
      rw [readMembers_cons limit hmember]
      rw [isConformant_cons hmember] at hcount
      refine Accounts.cons (read_accounts limit member taken)
        (fun taken => readMembers_accounts limit members count taken hcount) ?_
      rintro value values first second hfirst ⟨hlength, hsecond, hlast⟩
      refine ⟨by rw [List.length_cons, hlength, List.length_cons],
        memberPieces_cons_eq hmember hfirst hsecond, ?_⟩
      intro n hn
      obtain ⟨elements, hvalues, hn⟩ := hlast n hn
      refine ⟨elements, ?_, hn⟩
      rw [List.getLast?_cons, hvalues]
      rfl

end

end Shape

end OrpcWire
