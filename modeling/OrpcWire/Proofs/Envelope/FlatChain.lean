import OrpcWire.Proofs.Envelope.FlatReader
import OrpcWire.Proofs.Envelope.Request
import OrpcWire.Proofs.Graph.SelfDelimiting
import OrpcWire.Proofs.Graph.Size
import OrpcWire.Proofs.Wire.Overlay

/-!
# Chains without pointers, as they are read

The layout without pointers is only ever written, and a reader takes it for the other one. Its count
passes for the id of a header and the zero behind it for the count in that header. The identifier of
the first extension passes for the reserved word, the id of the array and the count of the slots
(`Chain.words_of_encodeFlat`). A header that counts no extensions goes with any array, a missing one
included (`Chain.run_read_empty`).

Whatever is received is not what was sent, because it would not have had room: extensions without
pointers take fewer octets than the same extensions behind pointers
(`Chain.length_le_of_encodeFlat`, `Chain.footprint_le_of_read`).
-/

namespace OrpcWire

variable {order : ByteOrder} {cursor middle next last : Cursor}

/-! ### Reading the words in front -/

/-- The pointer that an id word stands for, behind `taken` slots. -/
def pointerFound (id : UInt32) (target : Shape) (taken : Nat) : Found Value :=
  if id = nullId then ⟨.null, []⟩ else ⟨.pointer (some taken), [⟨id, target⟩]⟩

theorem run_read_pointer {id : UInt32} (target : Shape) (taken : Nat)
    (h : Layout.Between order [.u32 id] cursor next) :
    (Shape.read none (.pointer target) taken).run order cursor =
      .ok (pointerFound id target taken, next) := by
  rw [Shape.read, Reader.referentId, bind_assoc, Reader.u32_exact.run_bind _ h]
  unfold pointerFound
  split <;> rfl

theorem Graph.run_read_of_root {limit : Option Nat} {shape : Shape} {found : Found Value}
    (h : (shape.read limit 0).run order cursor = .ok (found, middle)) :
    (Graph.read limit shape).run order cursor =
      (readReferents limit order found.announced found.announced.length middle).map
        fun (referents, last) =>
        (⟨found.value, referents⟩, last) := by
  simp only [Graph.read]
  rw [h]
  show (readReferents limit order found.announced found.announced.length middle >>= _) = _
  cases readReferents limit order found.announced found.announced.length middle <;> rfl

namespace Chain

theorem run_read_header {count reserved pointer : UInt32} (haligned : cursor.position % 4 = 0)
    (h : Layout.Between order [.u32 count, .u32 reserved, .u32 pointer] cursor next) (taken : Nat) :
    (headerShape.read none taken).run order cursor =
      .ok ((pointerFound pointer arrayShape taken).map fun value =>
      .struct [.u32 count, .u32 reserved, value], next) := by
  obtain ⟨first, hcount, second, hreserved, hpointer⟩ := h
  have halign : Layout.Between order [.align 4] cursor cursor :=
    Layout.between_singleton.2 ⟨[], (padding_eq_zero haligned).symm, rfl, by
      rw [Field.boundary, padding_eq_zero haligned]
      rfl⟩
  have hnone : readHoistedCount [.u32, .u32, .pointer arrayShape] = pure none := rfl
  have halignment : (Shape.struct [.u32, .u32, .pointer arrayShape]).alignment = 4 := rfl
  have hword : ∀ taken, Shape.read none .u32 taken = Reader.u32 >>= fun word =>
      pure ⟨.u32 word, []⟩ :=
    fun _ => by rw [Shape.read]
  rw [headerShape, Shape.read, hnone, pure_bind, halignment,
    (Reader.align_exact _).run_bind (a := ()) _ halign]
  simp only [Shape.readMembers, hword, bind_assoc, pure_bind]
  rw [Reader.u32_exact.run_bind _ (Layout.between_singleton.2 hcount),
    Reader.u32_exact.run_bind _ (Layout.between_singleton.2 hreserved), Reader.run_bind,
    run_read_pointer _ _ hpointer]
  simp [Found.map]

theorem run_readSlots {count : Nat} (hcount : count < UInt32.size) (taken : Nat)
    (h : Layout.Between order [.u32 (.ofNat count)] cursor next) :
    (arrayShape.read none taken).run order cursor = if count ≤ elementLimit then
      ((readElements (Shape.read none (.pointer Extension.shape)) count taken).run order next).map
        fun (found, last) =>
        (found.map .array, last)
    else .error (.limitExceeded count elementLimit) := by
  rw [arrayShape, Shape.read, Reader.run_bind, run_readCount hcount h]
  by_cases hle : count ≤ elementLimit
  · rw [if_pos hle, if_pos hle]
    show ((readElements _ count taken) >>= _).run order next = _
    rw [Reader.run_bind]
    cases (readElements (Shape.read none (.pointer Extension.shape)) count taken).run order next
      <;> rfl
  · rw [if_neg hle, if_neg hle]

/-- The words in front of the slots. -/
def words (root count reserved pointer : UInt32) : Layout :=
  [.u32 root, .u32 count, .u32 reserved, .u32 pointer]

theorem run_read_words {root count reserved pointer : UInt32} (hroot : root ≠ nullId)
    (h : (words root count reserved pointer).Between order cursor next) :
    (Graph.read none shape).run order cursor =
      (readReferents none order (pointerFound pointer arrayShape 1).announced
        (1 + (pointerFound pointer arrayShape 1).announced.length) next).map
          fun (referents, last) =>
          (⟨.pointer (some 0),
            ⟨root, .struct [.u32 count, .u32 reserved,
              (pointerFound pointer arrayShape 1).value]⟩ :: referents⟩, last) := by
  obtain ⟨first, hfirst, hheader⟩ := h
  have hfound : pointerFound root headerShape 0 = ⟨.pointer (some 0), [⟨root, headerShape⟩]⟩ :=
    if_neg hroot
  have hroot_read : (shape.read none 0).run order cursor =
      .ok (⟨.pointer (some 0), [⟨root, headerShape⟩]⟩, first) := by
    rw [← hfound]
    exact run_read_pointer headerShape 0 (Layout.between_singleton.2 hfirst)
  have hheader_read := run_read_header hfirst.position_mod hheader 1
  rw [Graph.run_read_of_root hroot_read]
  show (readReferents none order [⟨root, headerShape⟩] 1 first).map _ = _
  rw [readReferents_cons, hheader_read]
  show ((readReferents none order (pointerFound pointer arrayShape 1).announced _ next).map
    _).map _ = _
  rw [Found.map]
  cases readReferents none order (pointerFound pointer arrayShape 1).announced
    (1 + (pointerFound pointer arrayShape 1).announced.length) next <;> rfl

variable {root count reserved pointer : UInt32} {limit slots : Nat}

theorem run_read_slots (hroot : root ≠ nullId) (hpointer : pointer ≠ nullId)
    (h : (words root count reserved pointer).Between order cursor middle)
    (hcount : slots < UInt32.size)
    (hslots : Layout.Between order [.u32 (.ofNat slots)] middle next) :
    (Graph.read none shape).run order cursor = if slots ≤ elementLimit then
      ((readElements (Shape.read none (.pointer Extension.shape)) slots 2).run order next) >>=
        fun (found, behind) =>
        (readReferents none order found.announced (2 + found.announced.length) behind).map
          fun (referents, last) =>
          (⟨.pointer (some 0), ⟨root, .struct [.u32 count, .u32 reserved, .pointer (some 1)]⟩ ::
            ⟨pointer, .array found.value⟩ :: referents⟩, last)
    else .error (.limitExceeded slots elementLimit) := by
  have hfound : pointerFound pointer arrayShape 1 = ⟨.pointer (some 1), [⟨pointer, arrayShape⟩]⟩ :=
    if_neg hpointer
  have htaken : 1 + [(⟨pointer, arrayShape⟩ : Announcement)].length = 2 := rfl
  rw [run_read_words hroot h, hfound, htaken, readReferents_cons, run_readSlots hcount 2 hslots]
  by_cases hle : slots ≤ elementLimit
  · rw [if_pos hle, if_pos hle]
    rcases (readElements (Shape.read none (.pointer Extension.shape)) slots 2).run order next
      with error | ⟨found, behind⟩
    · rfl
    · show Except.map _ (Except.map _
          (readReferents none order found.announced (2 + found.announced.length) behind)) =
        Except.map _ (readReferents none order found.announced (2 + found.announced.length) behind)
      cases readReferents none order found.announced (2 + found.announced.length) behind <;> rfl
  · rw [if_neg hle, if_neg hle]
    rfl

theorem run_read_of_graph {graph : Graph} {chain : Chain}
    (h : (Graph.read none shape).run order cursor = .ok (graph, next))
    (hcount : graph.referents.length ≤ 2) (hchain : ofGraph limit graph = .ok chain) :
    (read limit).run order cursor = .ok (chain, next) := by
  have hlimited :=
    Graph.run_read_some_eq_ok_iff.2 ⟨h, Nat.le_trans hcount (Nat.le_add_left 2 (paddedSlots limit))⟩
  rw [run_read_ofGraph hlimited, hchain]
  rfl

theorem run_read_null (h : Layout.Between order [.u32 nullId] cursor next) (limit : Nat) :
    (read limit).run order cursor = .ok (none, next) := by
  have hroot : (shape.read none 0).run order cursor = .ok (⟨.null, []⟩, next) :=
    run_read_pointer headerShape 0 h
  have hread := Graph.run_read_of_root hroot
  rw [readReferents] at hread
  exact run_read_of_graph hread (Nat.zero_le _) rfl

/-- A header that counts no extensions is a chain without extensions if it has no array, or one
without slots. -/
theorem run_read_empty (hroot : root ≠ nullId)
    (h : (words root 0 reserved pointer).Between order cursor middle)
    (hslots : Layout.Between order [.u32 (.ofNat slots)] middle next)
    (hempty : pointer = nullId ∨ slots = 0) (limit : Nat) :
    ∃ behind, (read limit).run order cursor = .ok (some [], behind) := by
  by_cases hpointer : pointer = nullId
  · have hread := run_read_words hroot h
    rw [pointerFound, if_pos hpointer, readReferents] at hread
    exact ⟨middle, run_read_of_graph hread (Nat.le_succ 1) rfl⟩
  · obtain rfl := hempty.resolve_left hpointer
    have hread := run_read_slots hroot hpointer h (by decide) hslots
    have helements :
        (readElements (Shape.read none (.pointer Extension.shape)) 0 2).run order next =
          .ok (⟨[], []⟩, next) := rfl
    rw [if_pos (Nat.zero_le _), helements] at hread
    change _ = (readReferents none order [] 2 next).map _ at hread
    rw [readReferents] at hread
    exact ⟨next, run_read_of_graph hread (Nat.le_refl _) rfl⟩

theorem read_pointer_uses (target : Shape) (taken : Nat) :
    (Shape.read none (.pointer target) taken).Uses 4 := by
  rw [Shape.read]
  refine Reader.Uses.bind (n := 0) Reader.referentId_uses fun id => ?_
  cases id with
  | none => exact .pure _
  | some id => exact (Reader.Uses.ofExcept _).bind fun _ => .pure _

theorem slots_le_of_read (hroot : root ≠ nullId) (hpointer : pointer ≠ nullId)
    (h : (words root count reserved pointer).Between order cursor middle)
    (hcount : slots < UInt32.size) (hslots : Layout.Between order [.u32 (.ofNat slots)] middle next)
    {answer : Chain × Cursor} (hread : (read limit).run order cursor = .ok answer) :
    slots ≤ elementLimit ∧ 4 * slots ≤ next.rest.length := by
  obtain ⟨graph, behind, hgraph, _⟩ := Reader.run_bind_eq_ok.1 hread
  obtain ⟨hunlimited, _⟩ := Graph.run_read_some_eq_ok_iff.1 (Reader.run_eq_ok_of_lift hgraph)
  rw [run_read_slots hroot hpointer h hcount hslots] at hunlimited
  split at hunlimited
  · rename_i hle
    obtain ⟨⟨found, last⟩, hfound, _⟩ := bind_eq_ok_iff.1 hunlimited
    rw [run_readElements] at hfound
    split at hfound
    · have huses :=
        readRow_uses (read_pointer_uses Extension.shape) slots 2 order next found last hfound
      exact ⟨hle, by omega⟩
    · cases hfound
  · cases hunlimited

/-! ### Octets -/

theorem sizes_octets (data : List UInt8) : Tree.sizes (data.map .u8) = data.length := by
  induction data with
  | nil => rfl
  | cons octet data ih =>
    rw [List.map_cons, Tree.sizes, ih, Tree.size, List.length_cons, Nat.add_comm]

/-- The octets that an extension takes behind a pointer, and more than it takes without one. -/
def footprint (extensions : List Extension) : Nat :=
  (extensions.map fun extension => 28 + extension.data.length).sum

theorem footprint_le {slots : List (Option Extent)} {extensions : List Extension}
    (h : slots.reduceOption.mapM Extent.extension = .ok extensions) :
    footprint extensions ≤ Tree.sizes (slots.map Extent.slotTree) := by
  induction slots generalizing extensions with
  | nil =>
    cases h
    exact Nat.le_refl _
  | cons slot slots ih =>
    rw [List.map_cons, Tree.sizes]
    cases slot with
    | none =>
      have := ih h
      omega
    | some extent =>
      rw [List.reduceOption_cons_of_some] at h
      obtain ⟨extension, others, hextension, hothers, rfl⟩ := mapM_cons_eq_ok_iff.1 h
      have hrest := ih hothers
      have hsize : (Extent.slotTree (some extent)).size = 28 + extent.data.length := by
        simp only [Extent.slotTree, Option.elim_some, Extent.tree, Tree.size, Tree.sizes,
          sizes_octets]
        omega
      have hdata : extension.data.length ≤ extent.data.length := by
        unfold Extent.extension at hextension
        split at hextension <;> cases hextension
        exact List.length_take_le' _ _
      rw [footprint, List.map_cons, List.sum_cons, hsize]
      rw [footprint] at hrest
      omega

variable {extensions : List Extension}

theorem footprint_le_size {array : ExtentArray} (h : array.extensions limit = .ok extensions)
    (hextensions : extensions ≠ []) : 20 + footprint extensions ≤ (treeOf (some array)).size := by
  obtain ⟨count, reserved, slots⟩ := array
  unfold ExtentArray.extensions at h
  split at h
  · cases h
  · cases slots with
    | none =>
      dsimp only at h
      split at h <;> cases h
      exact absurd rfl hextensions
    | some slots =>
      dsimp only at h
      split at h
      · cases h
      · have hslots := footprint_le h
        simp only [treeOf, Option.elim_some, ExtentArray.tree, Tree.size, Tree.sizes]
        omega

/-- A chain with extensions is not read off fewer octets than it takes behind pointers. -/
theorem footprint_le_of_read (h : (read limit).run order cursor = .ok (some extensions, next))
    (hextensions : extensions ≠ []) : 20 + footprint extensions ≤ cursor.rest.length := by
  obtain ⟨graph, behind, hgraph, hchain⟩ := Reader.run_bind_eq_ok.1 h
  obtain ⟨hread, _⟩ := Graph.run_read_some_eq_ok_iff.1 (Reader.run_eq_ok_of_lift hgraph)
  obtain ⟨tree, htree, _⟩ := Graph.tree_of_read hread
  obtain ⟨array, rfl, hreceived⟩ := ofGraph_eq htree
  obtain ⟨found, hfound, heq⟩ := map_eq_ok_iff.1 hchain
  cases heq
  rw [hreceived] at hfound
  cases array with
  | none => cases hfound
  | some array =>
    obtain ⟨_, hfound, heq⟩ := map_eq_ok_iff.1 hfound
    cases heq
    calc 20 + footprint extensions ≤ (treeOf (some array)).size :=
        footprint_le_size hfound hextensions
      _ ≤ next.rest.length + (treeOf (some array)).size := Nat.le_add_left _ _
      _ ≤ cursor.rest.length := Graph.size_le_of_read hread htree

/-! ### What is written without pointers -/

variable {first : Extension} {others : List Extension} {layout : Layout}

theorem room_flatFields (extensions : List Extension) :
    Layout.room (extensions.flatMap (·.flatFields)) = footprint extensions := by
  induction extensions with
  | nil => rfl
  | cons extension extensions ih =>
    have hlast := extension.id.data4.length_eq
    have hroom : Layout.room extension.flatFields = 28 + extension.data.length := by
      simp only [Extension.flatFields, Guid.layout, List.cons_append, List.nil_append, Layout.room,
        Field.boundary, Field.size]
      omega
    rw [List.flatMap_cons, Layout.room_append, hroom, ih]
    rfl

/-- The fields of a chain without pointers, and the words they are taken for. -/
theorem words_of_encodeFlat (h : encodeFlat (some (first :: others)) = .ok layout)
    (hbetween : layout.Between order cursor next) :
    ∃ root middle last, root ≠ nullId ∧
      (words root 0 first.id.data1 (first.id.middleWord order)).Between order cursor middle ∧
      Layout.Between order [.u32 (.ofNat (first.id.thirdWord order))] middle last := by
  obtain ⟨hsendable, rfl⟩ := encodeFlat_eq_ok_iff.1 h
  obtain ⟨behindCount, hcountWord, behindZero, hzero, hextensions⟩ := hbetween
  rw [Option.getD_some, List.flatMap_cons, Extension.flatFields, List.append_assoc] at hextensions
  obtain ⟨behindId, hid, _⟩ := Layout.between_append.1 hextensions
  obtain ⟨middle, last, hwords, hslots⟩ := Guid.between_words hid
  exact ⟨_, middle, last, ofNat_length_ne_zero hsendable,
    ⟨behindCount, hcountWord, behindZero, hzero, hwords⟩, hslots⟩

theorem length_le_of_encodeFlat (h : encodeFlat (some extensions) = .ok layout)
    (hbetween : layout.Between order cursor next) (hnext : next.rest = []) :
    cursor.rest.length ≤ 14 + footprint extensions := by
  have hroom : layout.room ≤ 14 + footprint extensions := by
    obtain ⟨_, rfl⟩ := encodeFlat_eq_ok_iff.1 h
    cases extensions with
    | nil =>
      show 7 + 0 ≤ 14 + 0
      omega
    | cons first others =>
      show 7 + (7 + Layout.room ((first :: others).flatMap (·.flatFields))) ≤ _
      rw [room_flatFields]
      omega
  have hposition := Layout.endFrom_le cursor.position layout
  have hlength := hbetween.length_eq
  rw [← hbetween.position_eq] at hposition
  rw [hnext, List.length_nil] at hlength
  omega

/-- Extensions without pointers are never read as they were written. They are read as no extensions
if the identifier of the first one says that there is no array or no slot in it, and as something
only if the slots it counts are not too many. -/
theorem read_flat (h : encodeFlat (some (first :: others)) = .ok layout)
    (hbetween : layout.Between order cursor next) (hnext : next.rest = []) (limit : Nat) :
    (∀ answer, (read limit).run order cursor = .ok answer → answer.1 ≠ some (first :: others) ∧
      ((first.id.data2 = 0 ∧ first.id.data3 = 0) ∨
        first.id.thirdWord order ≤ 2 ^ 20 ∧ 4 * first.id.thirdWord order ≤ cursor.rest.length)) ∧
    ((first.id.data2 = 0 ∧ first.id.data3 = 0) ∨ first.id.thirdWord order = 0 →
      ∃ behind, (read limit).run order cursor = .ok (some [], behind)) := by
  obtain ⟨root, middle, last, hroot, hwords, hslots⟩ := words_of_encodeFlat h hbetween
  have hmiddle : first.id.middleWord order = 0 ↔ first.id.data2 = 0 ∧ first.id.data3 = 0 :=
    Guid.middleWord_eq_zero_iff
  rw [← hmiddle]
  constructor
  · rintro ⟨chain, behind⟩ hread
    constructor
    · rintro rfl
      have hleast := footprint_le_of_read hread (List.cons_ne_nil _ _)
      have hmost := length_le_of_encodeFlat h hbetween hnext
      omega
    · by_cases hpointer : first.id.middleWord order = 0
      · exact .inl hpointer
      · obtain ⟨hle, hroom⟩ :=
          slots_le_of_read hroot hpointer hwords (first.id.thirdWord_lt order) hslots hread
        exact .inr ⟨hle, Nat.le_trans hroom (Nat.le_trans hslots.rest_le hwords.rest_le)⟩
  · intro hempty
    exact run_read_empty hroot hwords hslots hempty limit

end Chain

namespace OrpcThis

variable {header : OrpcThis} {settings : EnvelopeSettings} {causality : Causality}
  {ids later : IdSupply} {layout : Layout}

theorem encode_flat_eq_ok (hflat : settings.chainLayout = .flat)
    (h : header.encode settings causality ids = .ok (layout, later)) :
    ∃ chain, header.extensions.encodeFlat = .ok chain ∧
      layout = header.front causality ++ chain := by
  rw [encode, hflat] at h
  obtain ⟨_, hmapped, heq⟩ := bind_eq_ok_iff.1 h
  obtain ⟨chain, hchain, rfl⟩ := map_eq_ok_iff.1 hmapped
  cases heq
  exact ⟨chain, hchain, rfl⟩

theorem receive_front (receiver : EnvelopeSettings) (causality' : Causality)
    (hfront : (header.front causality).Between order cursor middle) {answer : OrpcThis × Cursor} :
    (receive receiver causality' order cursor).1 = .ok answer ↔
      ∃ chain next, (Chain.read receiver.extensionLimit).run order middle = .ok (chain, next) ∧
        answer = ({ header.received causality with extensions := chain }, next) := by
  rw [receive_fst, run_read_front hfront, map_eq_ok_iff]
  constructor
  · rintro ⟨⟨chain, next⟩, hchain, rfl⟩
    exact ⟨chain, next, hchain, rfl⟩
  · rintro ⟨chain, next, hchain, rfl⟩
    exact ⟨(chain, next), hchain, rfl⟩

theorem extensions_of_linked (hids : ids.Reached) (hlinked : settings.chainLayout = .linked)
    (h : header.encode settings causality ids = .ok (layout, later)) (receiver : EnvelopeSettings)
    (causality' : Causality) (hbetween : layout.Between order cursor last) {answer : OrpcThis}
    (hanswer : (receive receiver causality' order cursor).1 = .ok (answer, next)) :
    answer.extensions = header.extensions := by
  rw [receive_fst] at hanswer
  obtain ⟨_, heq⟩ := (run_read_written_iff hids.next_ne_null hlinked h receiver hbetween).1 hanswer
  cases heq
  rfl

theorem extensions_of_flat_empty (hflat : settings.chainLayout = .flat)
    (hempty : header.extensions.getD [] = [])
    (h : header.encode settings causality ids = .ok (layout, later)) (receiver : EnvelopeSettings)
    (causality' : Causality) (hbetween : layout.Between order cursor last) {answer : OrpcThis}
    (hanswer : (receive receiver causality' order cursor).1 = .ok (answer, next)) :
    answer.extensions = none := by
  obtain ⟨chain, hchain, rfl⟩ := encode_flat_eq_ok hflat h
  obtain ⟨middle, hfront, hbehind⟩ := Layout.between_append.1 hbetween
  obtain ⟨found, behind, hfound, heq⟩ := (receive_front receiver causality' hfront).1 hanswer
  cases heq
  have hnull : chain = [.u32 nullId] := by
    match hextensions : header.extensions with
    | none | some [] =>
      rw [hextensions] at hchain
      cases hchain
      rfl
    | some (first :: others) =>
      rw [hextensions] at hempty
      cases hempty
  subst hnull
  cases (Chain.run_read_null hbehind _).symm.trans hfound
  rfl

theorem extensions_of_flat {first : Extension} {others : List Extension}
    (hflat : settings.chainLayout = .flat)
    (hextensions : header.extensions = some (first :: others))
    (h : header.encode settings causality ids = .ok (layout, later)) (receiver : EnvelopeSettings)
    (causality' : Causality) (hbetween : layout.Between order cursor last)
    (hlast : last.rest = []) :
    (∀ answer next, (receive receiver causality' order cursor).1 = .ok (answer, next) →
      answer.extensions ≠ header.extensions ∧ ((first.id.data2 = 0 ∧ first.id.data3 = 0) ∨
        first.id.thirdWord order ≤ 2 ^ 20 ∧ 4 * first.id.thirdWord order ≤ cursor.rest.length)) ∧
    ((first.id.data2 = 0 ∧ first.id.data3 = 0) ∨ first.id.thirdWord order = 0 →
      ∃ answer next, (receive receiver causality' order cursor).1 = .ok (answer, next) ∧
        answer.extensions = some []) := by
  obtain ⟨chain, hchain, rfl⟩ := encode_flat_eq_ok hflat h
  obtain ⟨middle, hfront, hbehind⟩ := Layout.between_append.1 hbetween
  rw [hextensions] at hchain ⊢
  obtain ⟨hanswers, hempty⟩ := Chain.read_flat hchain hbehind hlast receiver.extensionLimit
  constructor
  · intro answer next hanswer
    obtain ⟨found, behind, hfound, heq⟩ := (receive_front receiver causality' hfront).1 hanswer
    cases heq
    obtain ⟨hne, hslots⟩ := hanswers _ hfound
    exact ⟨hne, hslots.imp_right fun h => ⟨h.1, Nat.le_trans h.2 hfront.rest_le⟩⟩
  · intro hnone
    obtain ⟨behind, hread⟩ := hempty hnone
    exact ⟨_, behind, (receive_front receiver causality' hfront).2 ⟨some [], behind, hread, rfl⟩,
      rfl⟩

/-- A receiver with the settings of the sender. Behind pointers, extensions are received as they
were sent or not at all, and so is a chain without extensions in the other layout. Other chains are
not for reading in that layout: they are never received as they were sent. They are refused unless
the identifier of the first extension can be taken for an array that is missing or whose slots are
not too many, and they are received as a chain without extensions if it can be taken for a missing
or an empty array. -/
theorem receive_same_settings (header : OrpcThis) (settings : EnvelopeSettings)
    (causality causality' : Causality) (order : ByteOrder) (position : Nat) (ids : IdSupply)
    (hids : ids.Reached) (layout : Layout) (later : IdSupply)
    (h : header.encode settings causality ids = .ok (layout, later)) :
    let octets := layout.render order position
    let received := (receive settings causality' order ⟨position, octets⟩).1
    (settings.chainLayout = .linked →
      ∀ answer next, received = .ok (answer, next) → answer.extensions = header.extensions) ∧
    (settings.chainLayout = .flat → header.extensions.getD [] = [] →
      ∀ answer next, received = .ok (answer, next) →
        answer.extensions.getD [] = header.extensions.getD []) ∧
    ∀ first others, settings.chainLayout = .flat → header.extensions = some (first :: others) →
      (∀ answer next, received = .ok (answer, next) → answer.extensions ≠ header.extensions ∧
        ((first.id.data2 = 0 ∧ first.id.data3 = 0) ∨
          first.id.thirdWord order ≤ 2 ^ 20 ∧ 4 * first.id.thirdWord order ≤ octets.length)) ∧
      ((first.id.data2 = 0 ∧ first.id.data3 = 0) ∨ first.id.thirdWord order = 0 →
        ∃ answer next, received = .ok (answer, next) ∧ answer.extensions = some []) := by
  intro octets received
  have hbetween := Layout.between_render order position layout []
  rw [List.append_nil] at hbetween
  refine ⟨fun hlinked answer next hanswer => ?_, fun hflat hempty answer next hanswer => ?_,
    fun first others hflat hextensions => ?_⟩
  · exact extensions_of_linked hids hlinked h settings causality' hbetween hanswer
  · rw [hempty, extensions_of_flat_empty hflat hempty h settings causality' hbetween hanswer]
    rfl
  · exact extensions_of_flat hflat hextensions h settings causality' hbetween rfl

/-- The identifier of extended error information is taken for a missing array, so the extension is
gone and nothing is wrong. -/
theorem flat_extensions_lost :
    let settings : EnvelopeSettings := { chainLayout := .flat }
    let header : OrpcThis := ⟨.v5_7, 0, 0, Guid.nil, some [⟨Guid.errorInfo, [1, 2, 3, 4]⟩]⟩
    ∃ layout later answer next, header.encode settings {} .fresh = .ok (layout, later) ∧
      (receive settings {} .little ⟨0, layout.render .little 0⟩).1 = .ok (answer, next) ∧
      answer.extensions.getD [] ≠ header.extensions.getD [] := by
  intro settings header
  refine ⟨_, _, ⟨.v5_7, 0, 0, Guid.nil, some []⟩,
    ⟨44, [0xc0, 0, 0, 0, 0, 0, 0, 0x46, 4, 0, 0, 0, 1, 2, 3, 4]⟩, rfl, ?_, ?_⟩
  · unfold settings
    cbv
  · decide

/-- A random identifier is taken for an array of far too many slots. -/
theorem receive_same_settings_random :
    let settings : EnvelopeSettings := { chainLayout := .flat }
    let id := (⟨1, 2, 3, ⟨[4, 5, 6, 7, 8, 9, 10, 11], rfl⟩⟩ : Guid).markRandom
    let header : OrpcThis := ⟨.v5_7, 0, 0, Guid.nil, some [⟨id, [1, 2, 3, 4]⟩]⟩
    IdSupply.fresh.Reached ∧ ∃ layout later,
      header.encode settings {} .fresh = .ok (layout, later) ∧ ∀ answer next,
        (receive settings {} .big ⟨1, layout.render .big 1⟩).1 ≠ .ok (answer, next) := by
  intro settings id header
  refine ⟨IdSupply.reached_fresh, _, _, rfl, fun answer next hanswer => ?_⟩
  obtain ⟨_, _, hflat⟩ :=
    receive_same_settings header settings {} {} .big 1 .fresh IdSupply.reached_fresh _ _ rfl
  obtain ⟨hslots, _⟩ := hflat ⟨id, [1, 2, 3, 4]⟩ [] rfl rfl
  obtain ⟨_, hslots⟩ := hslots answer next hanswer
  revert hslots
  decide

end OrpcThis

end OrpcWire
