import OrpcWire.Proofs.Graph.Limit
import OrpcWire.Proofs.Graph.Size
import OrpcWire.Proofs.Graph.Taking

/-!
# What octets pay for

Each referent that is read has been paid for with the four octets of its id word, whatever the
shape. Elements of arrays are counted against the octets that are left, as if each of them took one.
Those that do are paid for with an octet each (`Shape.elementCount_le`). Structures that have
nothing in them take none, so the octets that were counted once can be counted again: nested arrays
of such structures have more elements than the octets they were read from (`Graph.elements_unpaid`).
What is left in general is that each count word pays for as many elements as there are octets
(`Graph.read_affords`).

`Affords` is a budget that goes along with a reader, with one lemma for each way to build readers. A
hoisted count is spent later than it is read, so a reader may start with something in advance.
-/

namespace OrpcWire

namespace Value

mutual

/-- How many elements the arrays in a value have, nested arrays included. -/
def elementCount : Value → Nat
  | .array elements => elements.length + elementCounts elements
  | .struct members => elementCounts members
  | _ => 0

/-- The same for several values. -/
def elementCounts : List Value → Nat
  | [] => 0
  | value :: values => value.elementCount + elementCounts values

end

end Value

/-- How many elements the arrays in a graph have, in its root and in all referents. -/
def Graph.elementCount (graph : Graph) : Nat :=
  graph.root.elementCount + Value.elementCounts (graph.referents.map (·.value))

/-! ### Elements that take octets -/

theorem Piece.four_mul_references_le (written : List Piece) :
    4 * (references written).length ≤ sizes written := by
  induction written with
  | nil => exact Nat.zero_le _
  | cons piece written ih =>
    cases piece with
    | field content =>
      rw [references_field, sizes_cons]
      omega
    | reference ref =>
      rw [references_reference, sizes_cons, size, List.length_cons]
      omega

theorem Shape.elementCounts_le_of_rows {values : List Value} {written : List Piece}
    (h : Rows (fun value written => value.elementCount + 1 ≤ Piece.sizes written) values written) :
    values.length + Value.elementCounts values ≤ Piece.sizes written := by
  induction h with
  | nil => exact Nat.zero_le _
  | cons hfirst _ ih =>
    rw [List.length_cons, Value.elementCounts, Piece.sizes_append]
    omega

/-- There are no more elements than octets. Where the value is itself an element that takes octets,
there is one left for it. -/
theorem Shape.elementCount_le {shape : Shape} {value : Value} {written : List Piece}
    (h : shape.pieces value = .ok written) (htake : shape.elementsTake = true) :
    value.elementCount + (if shape.takesNothing then 0 else 1) ≤ Piece.sizes written := by
  refine pieces_induction
    (P := fun shape value written => shape.elementsTake = true →
      value.elementCount + (if shape.takesNothing then 0 else 1) ≤ Piece.sizes written)
    (Q := fun members values written => allElementsTake members = true →
      Value.elementCounts values +
        (if isConformant members || allTakeNothing members then 0 else 1) ≤
      Piece.sizes written)
    ?leaf ?null ?pointer ?array ?struct ?nil ?tail ?cons shape value written h htake
  case leaf =>
    intro shape value layout hleaf _
    cases hleaf <;> simp [Value.elementCount, takesNothing, Piece.sizes, Piece.size, Field.size,
      Guid.layout]
  case null => exact fun target _ => (by decide : 1 ≤ 4)
  case pointer => exact fun target slot _ => (by decide : 1 ≤ 4)
  case array =>
    intro element values written _ hrows htake
    rw [elementsTake, Bool.and_eq_true, Bool.not_eq_true'] at htake
    have helements := elementCounts_le_of_rows (hrows.imp fun value _ written hvalue => by
      have := hvalue.2 htake.2
      rwa [htake.1, if_neg Bool.false_ne_true] at this)
    show values.length + Value.elementCounts values + 1 ≤ 4 + Piece.sizes written
    omega
  case struct =>
    intro members values count written _ hcount hmembers htake
    have hmembers := hmembers htake
    have hsizes := Piece.sizes_hoistedCount hcount
    have halign : (Piece.field (.align (alignment (.struct members)))).size = 0 := rfl
    rw [Piece.sizes_append, Piece.sizes_cons, halign, hsizes, Value.elementCount, takesNothing]
    cases hconformant : isConformant members with
    | true =>
      rw [hconformant] at hmembers
      simp only [Bool.true_or, if_true] at hmembers ⊢
      split <;> omega
    | false =>
      rw [hconformant, Bool.false_or] at hmembers
      simp only [Bool.false_eq_true, if_false]
      omega
  case nil => exact fun _ => Nat.le_refl _
  case tail =>
    intro element values written hrows htake
    rw [allElementsTake, elementsTake, Bool.and_eq_true, Bool.and_eq_true,
      Bool.not_eq_true'] at htake
    have helements := elementCounts_le_of_rows (hrows.imp fun value _ written hvalue => by
      have := hvalue.2 htake.1.2
      rwa [htake.1.1, if_neg Bool.false_ne_true] at this)
    exact helements
  case cons =>
    intro member members value values first second hmember _ hfirst hsecond htake
    rw [allElementsTake, Bool.and_eq_true] at htake
    have hfirst := hfirst htake.1
    have hsecond := hsecond htake.2
    have hone :
        (if isConformant members || (member.takesNothing && allTakeNothing members) then 0 else 1) ≤
        (if member.takesNothing then 0 else 1) +
          (if isConformant members || allTakeNothing members then 0 else 1) := by
      cases isConformant members <;> cases member.takesNothing
        <;> cases allTakeNothing members <;> decide
    rw [isConformant_cons hmember, allTakeNothing, Value.elementCounts, Piece.sizes_append]
    omega

theorem Drains.elementCounts_le {limit : Option Nat} {order : ByteOrder} {slot : Nat}
    {queue : List Announcement} {cursor last : Cursor} {resolved : List Resolved}
    (h : Drains limit order slot queue cursor resolved last)
    (htake : ∀ announcement ∈ queue, announcement.target.elementsTake = true) :
    Value.elementCounts (resolved.map (·.found.value)) ≤
      Piece.sizes (Resolved.pieces resolved) := by
  induction h with
  | nil => exact Nat.le_refl _
  | cons hwritten account _ ih =>
    obtain ⟨hfirst, hqueue⟩ := List.forall_mem_cons.1 htake
    have hvalue := Shape.elementCount_le hwritten hfirst
    have hothers := ih fun later hmem => (List.mem_append.1 hmem).elim (hqueue later)
      (account.elementsTake hwritten hfirst later)
    rw [List.map_cons, Value.elementCounts, Resolved.pieces_cons, Piece.sizes_append]
    exact Nat.add_le_add (Nat.le_trans (Nat.le_add_right _ _) hvalue) hothers

/-! ### Elements that are counted against the octets left -/

/-- Four times the weight of what is read is no more than the octets used up, each of them as often
as there is room, and what the reader was given in advance. -/
def Affords {α : Type} (room advance : Nat) (weight : α → Nat)
    (reader : Reader WireError (Found α)) : Prop :=
  ∀ order cursor found next, reader.run order cursor = .ok (found, next) →
    cursor.rest.length ≤ room →
      4 * weight found.value + room * next.rest.length ≤ room * cursor.rest.length + advance

namespace Affords

variable {α β : Type} {room advance : Nat} {weight : α → Nat} {weight' : β → Nat}
  {reader : Reader WireError (Found α)}

theorem mono {advance' : Nat} (h : Affords room advance weight reader) (hle : advance ≤ advance') :
    Affords room advance' weight reader := by
  intro order cursor found next heq hroom
  exact Nat.le_trans (h order cursor found next heq hroom) (Nat.add_le_add_left hle _)

theorem pure {found : Found α} (h : weight found.value = 0) :
    Affords room advance weight (pure found) := by
  intro order cursor found' next heq _
  cases heq
  rw [h]
  omega

theorem front {γ : Type} {first : Reader WireError γ} {n : Nat}
    {next : γ → Reader WireError (Found α)} (h : first.Uses n)
    (hnext : ∀ c, Affords room (advance + room * n) weight (next c)) :
    Affords room advance weight (first >>= next) := by
  intro order cursor found last heq hroom
  obtain ⟨c, middle, hfirst, hrest⟩ := Reader.run_bind_eq_ok.1 heq
  have hused := h order cursor c middle hfirst
  have hlater := hnext c order middle found last hrest (by omega)
  have hmul := Nat.mul_le_mul_left room hused
  rw [Nat.mul_add] at hmul
  omega

theorem leaf {γ : Type} {first : Reader WireError γ} {n : Nat} (h : first.Uses n) {f : γ → α}
    (hweight : ∀ c, weight (f c) = 0) :
    Affords room advance weight (first >>= fun c => Pure.pure ⟨f c, []⟩) :=
  front h fun c => pure (hweight c)

theorem map (h : Affords room advance weight reader) {f : α → β}
    (hweight : ∀ a, weight' (f a) = weight a) :
    Affords room advance weight' (reader >>= fun found => Pure.pure (found.map f)) := by
  intro order cursor found last heq hroom
  obtain ⟨found, middle, hfound, hpure⟩ := Reader.run_bind_eq_ok.1 heq
  cases hpure
  show 4 * weight' (f found.value) + _ ≤ _
  rw [hweight]
  exact h order cursor found _ hfound hroom

theorem cons {weights : List α → Nat} {others : Nat → Reader WireError (Found (List α))}
    {taken : Nat} (h : Affords room 0 weight reader)
    (hothers : ∀ taken, Affords room advance weights (others taken))
    (hweights : ∀ a as, weights (a :: as) = weight a + weights as) (hpays : Pays reader) :
    Affords room advance weights (do
      let first ← reader
      let others ← others (taken + first.announced.length)
      return ⟨first.value :: others.value, first.announced ++ others.announced⟩) := by
  intro order cursor found last heq hroom
  obtain ⟨first, middle, hfirst, heq⟩ := Reader.run_bind_eq_ok.1 heq
  obtain ⟨more, last', hmore, hpure⟩ := Reader.run_bind_eq_ok.1 heq
  cases hpure
  have hrest := hpays order cursor first middle hfirst
  have hvalue := h order cursor first middle hfirst hroom
  have hvalues := hothers _ order middle more _ hmore (by omega)
  show 4 * weights (first.value :: more.value) + _ ≤ _
  rw [hweights]
  omega

theorem elements {reader : Nat → Reader WireError (Found α)} (weights : List α → Nat)
    (h : ∀ taken, Affords room 0 weight (reader taken)) (hnil : weights [] = 0)
    (hweights : ∀ a as, weights (a :: as) = weight a + weights as)
    (hpays : ∀ taken, Pays (reader taken)) (count taken : Nat) :
    Affords room (4 * room) (fun as => as.length + weights as)
      (readElements reader count taken) := by
  have hrow : ∀ taken, Affords room 0 weights (readRow reader count taken) := by
    induction count with
    | zero => exact fun taken => pure hnil
    | succ count ih => exact fun taken => cons (h taken) ih hweights (hpays taken)
  intro order cursor found next heq hroom
  rw [run_readElements] at heq
  split at heq
  · have hvalues := hrow taken order cursor found next heq hroom
    have hlength := length_of_readRow heq
    show 4 * (found.value.length + weights found.value) + _ ≤ _
    omega
  · cases heq

end Affords

namespace Shape

variable (limit : Option Nat) (room : Nat)

mutual

/-- Reading in place affords the elements found. -/
theorem read_affords : (shape : Shape) → (taken : Nat) →
    Affords room 0 Value.elementCount (read limit shape taken)
  | .u8, _ => by
    rw [read]
    exact Affords.leaf Reader.u8_uses fun _ => rfl
  | .u16, _ => by
    rw [read]
    exact Affords.leaf Reader.u16_uses fun _ => rfl
  | .u32, _ => by
    rw [read]
    exact Affords.leaf Reader.u32_uses fun _ => rfl
  | .u64, _ => by
    rw [read]
    exact Affords.leaf Reader.u64_uses fun _ => rfl
  | .guid, _ => by
    rw [read]
    exact Affords.leaf Reader.guid_uses fun _ => rfl
  | .pointer target, taken => by
    rw [read]
    refine Affords.front Reader.referentId_uses fun id => ?_
    cases id with
    | none => exact Affords.pure rfl
    | some id => exact Affords.front (Reader.Uses.ofExcept _) fun _ => Affords.pure rfl
  | .array element, taken => by
    rw [read]
    refine Affords.front readCount_uses fun count => ?_
    have helements :=
      Affords.elements Value.elementCounts (read_affords element) rfl (fun _ _ => rfl)
        (read_pays limit element) count taken
    refine (helements.map fun _ => rfl).mono ?_
    omega
  | .struct members, taken => by
    have hbehind : ∀ count,
        Affords room (if count.isSome then 4 * room else 0) Value.elementCount (do
        Reader.align (alignment (.struct members))
        let found ← readMembers limit members count taken
        return found.map .struct) := by
      intro count
      refine Affords.front (Reader.align_uses _) fun _ => Affords.map ?_ fun _ => rfl
      exact readMembers_affords members count taken
    rw [read, readHoistedCount]
    split
    · rw [map_eq_pure_bind, bind_assoc]
      refine Affords.front readCount_uses fun count => (hbehind (some count)).mono ?_
      show 4 * room ≤ _
      omega
    · exact hbehind none

theorem readMembers_affords : (members : List Shape) → (count : Option Nat) → (taken : Nat) →
    Affords room (if count.isSome then 4 * room else 0) Value.elementCounts
      (readMembers limit members count taken)
  | [], count, taken => by
    rw [readMembers]
    exact Affords.pure rfl
  | member :: members, count, taken => by
    by_cases hspecial : ∃ element n, member = .array element ∧ members = [] ∧ count = some n
    · obtain ⟨element, n, rfl, rfl, rfl⟩ := hspecial
      rw [readMembers]
      have helements :=
        Affords.elements Value.elementCounts (read_affords element) rfl (fun _ _ => rfl)
          (read_pays limit element) n taken
      exact helements.map fun _ => rfl
    · have hmember : ∀ element n, count = some n → member = .array element → members = [] → False :=
        fun element n hcount hmember hmembers => hspecial ⟨element, n, hmember, hmembers, hcount⟩
      rw [readMembers.eq_3 _ _ _ _ _ hmember]
      exact Affords.cons (read_affords member _) (readMembers_affords members _) (fun _ _ => rfl)
        (read_pays limit member _)

end

end Shape

/-! ### The whole graph -/

variable {limit : Option Nat} {order : ByteOrder} {shape : Shape} {cursor next : Cursor}
  {graph : Graph}

theorem readReferents_affords (room : Nat) {taken : Nat} {queue : List Announcement}
    {referents : List Referent}
    (h : readReferents limit order queue taken cursor = .ok (referents, next))
    (hroom : cursor.rest.length ≤ room) :
    4 * Value.elementCounts (referents.map (·.value)) + room * next.rest.length ≤
      room * cursor.rest.length := by
  induction queue, taken, cursor using queue_induction limit order generalizing referents with
  | nil taken cursor =>
    rw [readReferents] at h
    cases h
    exact Nat.le_of_eq (Nat.zero_add _)
  | cons announcement queue taken cursor ih =>
    rw [readReferents_cons_bind] at h
    obtain ⟨⟨found, middle⟩, hfound, h⟩ := bind_eq_ok_iff.1 h
    obtain ⟨⟨others, last⟩, hothers, hpure⟩ := bind_eq_ok_iff.1 h
    cases hpure
    have hrest := Shape.read_pays limit announcement.target taken order cursor found middle hfound
    have hvalue :=
      Shape.read_affords limit room announcement.target taken order cursor found middle hfound hroom
    have hvalues := ih found middle hfound hothers (by omega)
    show 4 * (found.value.elementCount + Value.elementCounts (others.map (·.value))) + _ ≤ _
    omega

namespace Graph

/-- Each four of the octets used up pay for as many elements as there were octets. -/
theorem read_affords (h : (read limit shape).run order cursor = .ok (graph, next)) :
    4 * graph.elementCount + cursor.rest.length * next.rest.length ≤
      cursor.rest.length * cursor.rest.length := by
  obtain ⟨⟨found, middle⟩, hfound, h⟩ := bind_eq_ok_iff.1 h
  obtain ⟨⟨referents, last⟩, hreferents, hpure⟩ := bind_eq_ok_iff.1 h
  cases hpure
  have hrest := Shape.read_pays limit shape 0 order cursor found middle hfound
  have hroot :=
    Shape.read_affords limit cursor.rest.length shape 0 order cursor found middle hfound
      (Nat.le_refl _)
  have hreferents := readReferents_affords cursor.rest.length hreferents (by omega)
  show 4 * (found.value.elementCount + Value.elementCounts (referents.map (·.value))) + _ ≤ _
  omega

theorem pieces_paid (h : (read limit shape).run order cursor = .ok (graph, next)) :
    ∃ used, cursor.rest = used ++ next.rest ∧ next.position = cursor.position + used.length ∧
      4 * graph.referents.length ≤ used.length ∧
      (shape.elementsTake = true → graph.elementCount ≤ used.length) := by
  obtain ⟨found, written, middle, resolved, hwritten, account, hresolved, rfl⟩ := drains_of_read h
  obtain ⟨first, hfirst, hmiddle⟩ := account.between.exists_used
  obtain ⟨later, hlater, hnext⟩ := hresolved.between.exists_used
  have hroot := Piece.add_sizes_le_endFrom (found.announced.map (·.id)) written cursor.position
  have hreferents :=
    Piece.add_sizes_le_endFrom ((Resolved.announced resolved).map (·.id)) (Resolved.pieces resolved)
      middle.position
  rw [← account.between.position_eq] at hroot
  rw [← hresolved.between.position_eq] at hreferents
  refine ⟨first ++ later, by rw [hfirst, hlater, List.append_assoc], by
    rw [hnext, hmiddle, List.length_append, Nat.add_assoc], ?_, fun htake => ?_⟩
  · have hannounced := Piece.four_mul_references_le written
    have hlaterAnnounced := Piece.four_mul_references_le (Resolved.pieces resolved)
    rw [account.length_references] at hannounced
    rw [hresolved.references_eq, Announcement.length_references] at hlaterAnnounced
    rw [List.length_map, hresolved.length_eq, List.length_append]
    omega
  · have hvalue := Shape.elementCount_le hwritten htake
    have hvalues := hresolved.elementCounts_le (account.elementsTake hwritten htake)
    have hmap : (resolved.map Resolved.referent).map (·.value) = resolved.map (·.found.value) :=
      List.map_map
    rw [elementCount, hmap, List.length_append]
    dsimp only
    omega

/-- A graph that has been read, whatever the limit, has no more referents than a quarter of the
octets used up. If the elements of all arrays of its shape take octets, it has no more elements than
octets were used up, those of nested arrays and of referents included. By any shape, each four
octets used up pay for no more elements than there were octets. -/
theorem read_paid (h : (read limit shape).run order cursor = .ok (graph, next)) :
    ∃ used, cursor.rest = used ++ next.rest ∧ next.position = cursor.position + used.length ∧
      4 * graph.referents.length ≤ used.length ∧
      (shape.elementsTake = true → graph.elementCount ≤ used.length) ∧
      4 * graph.elementCount ≤ used.length * cursor.rest.length := by
  obtain ⟨used, hrest, hposition, hreferents, helements⟩ := pieces_paid h
  refine ⟨used, hrest, hposition, hreferents, helements, ?_⟩
  have hall := read_affords h
  have hlength : cursor.rest.length = used.length + next.rest.length := by
    rw [hrest, List.length_append]
  have hsplit : cursor.rest.length * cursor.rest.length =
      used.length * cursor.rest.length + cursor.rest.length * next.rest.length := by
    rw [Nat.mul_comm used.length, ← Nat.mul_add, ← hlength]
  omega

/-- Two referents, one of which holds two arrays. -/
theorem read_paid_nested :
    let shape : Shape := .struct [.pointer .u8, .pointer (.array (.array .u8))]
    let graph : Graph := ⟨.struct [.pointer (some 0), .pointer (some 1)],
      [⟨1, .u8 7⟩, ⟨2, .array [.array [.u8 8], .array []]⟩]⟩
    let wire : List UInt8 :=
      [1, 0, 0, 0, 2, 0, 0, 0, 7, 0, 0, 0, 2, 0, 0, 0, 1, 0, 0, 0, 8, 0, 0, 0, 0, 0, 0, 0]
    (read none shape).run .little ⟨0, wire⟩ = .ok (graph, ⟨28, []⟩) ∧ shape.elementsTake = true ∧
      graph.elementCount = 3 ∧ ∃ used, wire = used ++ [] ∧
        4 * graph.referents.length ≤ used.length ∧ graph.elementCount ≤ used.length := by
  intro shape graph wire
  have hread : (read none shape).run .little ⟨0, wire⟩ = .ok (graph, ⟨28, []⟩) := by
    unfold shape graph wire
    cbv
  have htake : shape.elementsTake = true := by
    unfold shape
    cbv
  refine ⟨hread, htake, by unfold graph; cbv, ?_⟩
  obtain ⟨used, hrest, _, hreferents, helements, _⟩ := read_paid hread
  exact ⟨used, hrest, hreferents, helements htake⟩

/-- Twenty octets, all of which are used up, make twenty-eight elements: four arrays whose counts
are checked against twelve, eight, four and no octets left, and the empty structures in them, which
leave those octets to the arrays behind. -/
theorem elements_unpaid :
    ∃ graph : Graph, (read none (.array (.array (.struct [])))).run .little
        ⟨0, [4, 0, 0, 0, 12, 0, 0, 0, 8, 0, 0, 0, 4, 0, 0, 0, 0, 0, 0, 0]⟩ = .ok (graph, ⟨20, []⟩) ∧
      graph.elementCount = 28 := by
  refine ⟨⟨.array [.array (List.replicate 12 (.struct [])), .array (List.replicate 8 (.struct [])),
    .array (List.replicate 4 (.struct [])), .array []], []⟩, ?_, ?_⟩
  · cbv
  · cbv

end Graph

end OrpcWire
