import OrpcWire.Proofs.Envelope.ExtentLayout
import OrpcWire.Proofs.Graph.Acceptance
import OrpcWire.Proofs.Graph.Writable

/-!
# Chains that are sent and received

A chain is sent as an extent array with a slot for each extension and, if their number is odd, a
null slot (`Chain.sent`). On the wire the number of slots is even, and the data of each extension is
followed by fewer than eight zeros up to a multiple of eight octets (`Chain.encodeLinked_padded`).

A chain is received exactly if it has no more extensions than the receiver's limit, and neither more
extensions nor more data in one of them than `elementLimit` (`Chain.run_read_written_iff`). The
padding does not matter for this, because `elementLimit` is even and a multiple of eight, and the
limit on referents leaves room for the null slot. A header that counts fewer extensions than there
are makes use of that room (`Chain.exists_read_counted`).
-/

namespace OrpcWire

/-! ### Extensions -/

namespace Extent

theorem tree_injective : Function.Injective tree := by
  rintro ⟨id, size, data⟩ ⟨id', size', data'⟩ h
  have hoctet : Function.Injective Tree.u8 := fun a b heq => Tree.u8.inj heq
  simp only [tree, Tree.struct.injEq, List.cons.injEq, Tree.guid.injEq, Tree.u32.injEq,
    Tree.array.injEq, (List.map_injective_iff.2 hoctet).eq_iff, and_true] at h
  obtain ⟨rfl, rfl, rfl⟩ := h
  rfl

theorem slotTree_injective : Function.Injective slotTree := by
  intro slot slot' h
  cases slot <;> cases slot'
  case none.none => rfl
  case some.some extent extent' => rw [tree_injective (Tree.pointer.inj h)]
  all_goals cases h

end Extent

namespace Extension

variable {extension : Extension} {size limit : Nat}

/-- The extension as it is sent. -/
def extent (extension : Extension) : Extent :=
  ⟨extension.id, .ofNat extension.data.length, extension.paddedData⟩

theorem le_paddedSize (size : Nat) : size ≤ paddedSize size := by
  unfold paddedSize
  omega

theorem eight_dvd_paddedSize (size : Nat) : 8 ∣ paddedSize size := Nat.dvd_mul_left 8 _

theorem paddedSize_lt (size : Nat) : paddedSize size < size + 8 := by
  unfold paddedSize
  omega

theorem paddedSize_le_iff (h : limit % 8 = 0) : paddedSize size ≤ limit ↔ size ≤ limit := by
  unfold paddedSize
  omega

theorem length_paddedData (extension : Extension) :
    extension.paddedData.length = paddedSize extension.data.length := by
  have := le_paddedSize extension.data.length
  rw [paddedData, List.length_append, List.length_replicate]
  omega

theorem exists_zeros (extension : Extension) : ∃ zeros < 8,
    extension.extent.data = extension.data ++ List.replicate zeros 0 ∧
      8 ∣ extension.extent.data.length := by
  have hlt := paddedSize_lt extension.data.length
  refine ⟨paddedSize extension.data.length - extension.data.length, by omega, rfl, ?_⟩
  have hlength : extension.extent.data.length = paddedSize extension.data.length :=
    extension.length_paddedData
  rw [hlength]
  exact eight_dvd_paddedSize _

theorem size_eq_ok_iff {word : UInt32} : extension.size = .ok word ↔
    extension.data.length < UInt32.size ∧ word = .ofNat extension.data.length := by
  unfold Extension.size
  split <;> simp [*, eq_comm]

theorem value_eq_ok_iff {value : Value} : extension.value = .ok value ↔
    extension.data.length < UInt32.size ∧ value = extension.extent.value := by
  rw [Extension.value, bind_eq_ok_iff]
  constructor
  · rintro ⟨word, hword, heq⟩
    obtain ⟨hsize, rfl⟩ := size_eq_ok_iff.1 hword
    cases heq
    exact ⟨hsize, rfl⟩
  · rintro ⟨hsize, rfl⟩
    exact ⟨_, size_eq_ok_iff.2 ⟨hsize, rfl⟩, rfl⟩

theorem value_fails {error : OrpcError} (h : extension.value = .error error) :
    error = .extensions (.extensionTooLarge extension.id) := by
  rw [value, size] at h
  split at h <;> cases h
  rfl

theorem extension_extent (h : extension.data.length < UInt32.size) :
    extension.extent.extension = .ok extension := by
  have hsize : extension.extent.size.toNat = extension.data.length := UInt32.toNat_ofNat_of_lt' h
  have hlength : ¬extension.extent.data.length < extension.data.length := by
    have hle := le_paddedSize extension.data.length
    have hpadded := extension.length_paddedData
    change ¬extension.paddedData.length < extension.data.length
    omega
  have htake : extension.extent.data.take extension.data.length = extension.data := List.take_left
  rw [Extent.extension, hsize, if_neg hlength, htake]
  rfl

end Extension

namespace Chain

variable {chain : Chain} {extensions : List Extension} {count limit : Nat}

/-! ### What is sent -/

theorem le_paddedSlots (count : Nat) : count ≤ paddedSlots count := by
  unfold paddedSlots
  omega

theorem paddedSlots_eq (count : Nat) : paddedSlots count = count + count % 2 := by
  unfold paddedSlots
  omega

theorem two_dvd_paddedSlots (count : Nat) : 2 ∣ paddedSlots count := Nat.dvd_mul_left 2 _

theorem paddedSlots_lt (count : Nat) : paddedSlots count < count + 2 := by
  unfold paddedSlots
  omega

theorem paddedSlots_le_iff (h : limit % 2 = 0) : paddedSlots count ≤ limit ↔ count ≤ limit := by
  unfold paddedSlots
  omega

/-- A slot for each extension, and null slots up to an even number. -/
def sentSlots (extensions : List Extension) : List (Option Extent) :=
  extensions.map (fun extension => some extension.extent) ++
    List.replicate (paddedSlots extensions.length - extensions.length) none

theorem length_sentSlots (extensions : List Extension) :
    (sentSlots extensions).length = paddedSlots extensions.length := by
  have := le_paddedSlots extensions.length
  rw [sentSlots, List.length_append, List.length_map, List.length_replicate]
  omega

theorem reduceOption_sentSlots (extensions : List Extension) :
    (sentSlots extensions).reduceOption = extensions.map Extension.extent := by
  rw [sentSlots, List.reduceOption_append, List.reduceOption_replicate_none, List.append_nil]
  induction extensions with
  | nil => rfl
  | cons extension extensions ih =>
    rw [List.map_cons, List.reduceOption_cons_of_some, ih, List.map_cons]

/-- The extent array of extensions behind a header that counts as many as it likes. -/
def sentAs (count : UInt32) (extensions : List Extension) : ExtentArray :=
  ⟨count, 0, some (sentSlots extensions)⟩

/-- The extent array of extensions. -/
abbrev sent (extensions : List Extension) : ExtentArray :=
  sentAs (.ofNat extensions.length) extensions

theorem pointerCount_sentAs (count : UInt32) (extensions : List Extension) :
    (treeOf (some (sentAs count extensions))).pointerCount = extensions.length + 2 := by
  rw [sentAs, pointerCount_treeOf, reduceOption_sentSlots, List.length_map]

theorem arraysWithin_sentAs_iff {count : UInt32} :
    (treeOf (some (sentAs count extensions))).arraysWithin limit = true ↔
      paddedSlots extensions.length ≤ limit ∧
        ∀ extension ∈ extensions, Extension.paddedSize extension.data.length ≤ limit := by
  rw [sentAs, arraysWithin_treeOf_iff, reduceOption_sentSlots, length_sentSlots,
    List.forall_mem_map]
  simp only [← Extension.length_paddedData]
  rfl

/-- A word can say how many extensions there are and how much data each of them has. -/
def Sendable (chain : Chain) : Prop :=
  ∀ extensions ∈ chain, extensions.length < UInt32.size ∧
    ∀ extension ∈ extensions, extension.data.length < UInt32.size

@[simp] theorem sendable_none : Sendable none := nofun

@[simp] theorem sendable_some : Sendable (some extensions) ↔ extensions.length < UInt32.size ∧
    ∀ extension ∈ extensions, extension.data.length < UInt32.size := by
  simp [Sendable]

theorem countWord_eq_ok_iff {count : UInt32} : countWord extensions = .ok count ↔
    extensions.length < UInt32.size ∧ count = .ofNat extensions.length := by
  unfold countWord
  split <;> simp [*, eq_comm]

theorem received_sentAs {count : UInt32}
    (hdata : ∀ extension ∈ extensions, extension.data.length < UInt32.size)
    (hcount : count.toNat ≤ paddedSlots extensions.length) :
    received limit (some (sentAs count extensions)) =
      if limit < count.toNat then .error (.extensions (.tooManyReceived count.toNat limit))
      else .ok (some extensions) := by
  have hslots : ¬(sentSlots extensions).length < count.toNat := by
    rw [length_sentSlots]
    exact Nat.not_lt.2 hcount
  have hextensions : (extensions.map Extension.extent).mapM Extent.extension = .ok extensions := by
    have hall :=
      mapM_eq_pure (g := id) fun extension hmem => Extension.extension_extent (hdata extension hmem)
    rw [List.map_id] at hall
    rw [List.mapM_map]
    exact hall
  have hheader : (sentAs count extensions).count = count := rfl
  rw [received, Option.elim_some, ExtentArray.extensions, hheader]
  by_cases hlimit : limit < count.toNat
  · rw [if_pos hlimit, if_pos hlimit]
    rfl
  · rw [if_neg hlimit, if_neg hlimit]
    simp only [sentAs, if_neg hslots, reduceOption_sentSlots, hextensions]
    rfl

theorem received_sent (h : Sendable (some extensions)) : received limit (some (sent extensions)) =
    if limit < extensions.length then
      .error (.extensions (.tooManyReceived extensions.length limit))
    else .ok (some extensions) := by
  obtain ⟨hlength, hdata⟩ := h extensions rfl
  have hcount : (UInt32.ofNat extensions.length).toNat = extensions.length :=
    UInt32.toNat_ofNat_of_lt' hlength
  rw [received_sentAs hdata (by rw [hcount]; exact le_paddedSlots _), hcount]

theorem eq_of_received {found : Chain} (h : Sendable chain)
    (hfound : received limit (chain.map sent) = .ok found) : found = chain := by
  cases chain with
  | none =>
    cases hfound
    rfl
  | some extensions =>
    rw [Option.map_some, received_sent h] at hfound
    split at hfound <;> cases hfound
    rfl

/-! ### The graph of a chain -/

/-- The graph of extensions behind a header that counts as many as it likes. -/
def counted (count : UInt32) (extensions : List Extension) : Graph :=
  .ofValues (.pointer (some (extensions.length + 1)))
    (extensions.map (·.extent.value) ++ [.array (slots extensions.length),
      .struct [.u32 count, .u32 0, .pointer (some extensions.length)]])

/-- The graph of a chain that can be sent. -/
def graphOf : Chain → Graph
  | none => {}
  | some extensions => counted (.ofNat extensions.length) extensions

theorem toGraph_eq_ok_iff {graph : Graph} : chain.toGraph = .ok graph ↔
    Sendable chain ∧ graph = graphOf chain := by
  cases chain with
  | none => simp [toGraph, graphOf, eq_comm]
  | some extensions =>
    rw [sendable_some, toGraph, bind_eq_ok_iff]
    constructor
    · rintro ⟨values, hvalues, hrest⟩
      obtain ⟨count, hcount, heq⟩ := bind_eq_ok_iff.1 hrest
      obtain ⟨hdata, rfl⟩ := (mapM_eq_ok_iff fun _ _ => Extension.value_eq_ok_iff).1 hvalues
      obtain ⟨hlength, rfl⟩ := countWord_eq_ok_iff.1 hcount
      cases heq
      exact ⟨⟨hlength, hdata⟩, rfl⟩
    · rintro ⟨⟨hlength, hdata⟩, rfl⟩
      exact ⟨_, (mapM_eq_ok_iff fun _ _ => Extension.value_eq_ok_iff).2 ⟨hdata, rfl⟩,
        bind_eq_ok_iff.2 ⟨_, countWord_eq_ok_iff.2 ⟨hlength, rfl⟩, rfl⟩⟩

theorem eq_graphOf_of_toGraph {graph : Graph} (h : chain.toGraph = .ok graph) :
    graph = graphOf chain :=
  (toGraph_eq_ok_iff.1 h).2

/-- What is wrong with a chain that cannot be sent. -/
inductive Unsendable : ExtensionsDefect → Prop
  | tooMany : Unsendable .tooManyToSend
  | tooLarge (id : Guid) : Unsendable (.extensionTooLarge id)

theorem toGraph_fails {error : OrpcError} (h : chain.toGraph = .error error) :
    ∃ defect, error = .extensions defect ∧ Unsendable defect := by
  cases chain with
  | none => cases h
  | some extensions =>
    cases hvalues : extensions.mapM (·.value) with
    | error error' =>
      rw [toGraph, hvalues] at h
      cases h
      obtain ⟨extension, _, hvalue⟩ := exists_of_mapM_eq_error hvalues
      exact ⟨_, Extension.value_fails hvalue, .tooLarge _⟩
    | ok values =>
      rw [toGraph, hvalues] at h
      by_cases hlength : extensions.length < UInt32.size
      · have hcount : countWord extensions = .ok (.ofNat extensions.length) := if_pos hlength
        rw [hcount] at h
        cases h
      · have hcount : countWord extensions = .error (.extensions .tooManyToSend) := if_neg hlength
        rw [hcount] at h
        cases h
        exact ⟨_, rfl, .tooMany⟩

theorem slotNumbers_sentSlots (extensions : List Extension) :
    slotNumbers 0 (sentSlots extensions) = (List.range extensions.length).map some ++
      List.replicate (paddedSlots extensions.length - extensions.length) none := by
  have hsent : sentSlots extensions = (extensions.map Extension.extent).map some ++
      List.replicate (paddedSlots extensions.length - extensions.length) none := by
    rw [sentSlots, List.map_map]
    rfl
  rw [hsent, slotNumbers_padded, List.length_map, ← List.range_eq_range']

theorem counted_eq (count : UInt32) (extensions : List Extension) :
    counted count extensions = ExtentArray.graph count 0 (sentSlots extensions) := by
  have hslots : slots extensions.length = Extent.slotValues 0 (sentSlots extensions) := by
    rw [Extent.slotValues, slotNumbers_sentSlots, List.map_append, List.map_map,
      List.map_replicate, slots]
    rfl
  rw [counted, ExtentArray.graph, reduceOption_sentSlots, List.length_map, hslots, List.map_map]
  rfl

theorem tree?_counted (count : UInt32) (extensions : List Extension) :
    (counted count extensions).tree? shape (counted count extensions).root =
      some (treeOf (some (sentAs count extensions))) := by
  rw [counted_eq]
  exact ExtentArray.tree?_graph count 0 (sentSlots extensions)

theorem tree?_graphOf (chain : Chain) :
    (graphOf chain).tree? shape (graphOf chain).root = some (treeOf (chain.map sent)) := by
  cases chain with
  | none => rfl
  | some extensions => exact tree?_counted _ extensions

/-! ### Writing -/

variable {ids later : IdSupply} {layout : Layout}

theorem encodeLinked_eq_ok_iff : chain.encodeLinked ids = .ok (layout, later) ↔
    Sendable chain ∧ ∃ encoded, (graphOf chain).encode shape ids = .ok encoded ∧
      encoded.layout = layout ∧ encoded.ids = later := by
  constructor
  · intro h
    obtain ⟨graph, hgraph, hrest⟩ := bind_eq_ok_iff.1 h
    obtain ⟨encoded, hencoded, hpair⟩ := bind_eq_ok_iff.1 hrest
    obtain ⟨hsendable, rfl⟩ := toGraph_eq_ok_iff.1 hgraph
    cases hpair
    exact ⟨hsendable, encoded, mapError_eq_ok_iff.1 hencoded, rfl, rfl⟩
  · rintro ⟨hsendable, encoded, hencoded, rfl, rfl⟩
    exact bind_eq_ok_iff.2 ⟨_, toGraph_eq_ok_iff.2 ⟨hsendable, rfl⟩,
      bind_eq_ok_iff.2 ⟨encoded, mapError_eq_ok_iff.2 hencoded, rfl⟩⟩

theorem encodeLinked_fails {error : OrpcError} (h : chain.encodeLinked ids = .error error) :
    (∃ defect, error = .extensions defect ∧ Unsendable defect) ∨
      ∃ count, error = .wire (.limitExceeded count (UInt32.size - 1)) := by
  rcases bind_eq_error_iff.1 h with hgraph | ⟨graph, hgraph, hrest⟩
  · exact .inl (toGraph_fails hgraph)
  · obtain rfl := eq_graphOf_of_toGraph hgraph
    rcases bind_eq_error_iff.1 hrest with hencoded | ⟨encoded, _, hpair⟩
    · obtain ⟨error', herror, rfl⟩ := mapError_eq_error_iff.1 hencoded
      obtain ⟨_, count, rfl⟩ := Graph.encode_fails (tree?_graphOf chain) ids error' herror
      exact .inr ⟨count, rfl⟩
    · cases hpair

theorem encodeLinked_none (ids : IdSupply) : encodeLinked none ids = .ok ([.u32 nullId], ids) := by
  have hpieces : (graphOf none).pieces shape = .ok [.field (.u32 nullId)] := by
    have hdrain : (graphOf none).drain [] = .ok [] := by rw [Graph.drain]
    exact bind_eq_ok_iff.2 ⟨[.field (.u32 nullId)], rfl, bind_eq_ok_iff.2 ⟨[], hdrain, rfl⟩⟩
  exact encodeLinked_eq_ok_iff.2 ⟨sendable_none, _, map_eq_ok_iff.2 ⟨_, hpieces, rfl⟩, rfl, rfl⟩

/-- The fields of extensions behind pointers. -/
def linkedFields (ids : IdSupply) (extensions : List Extension) : Layout :=
  let count := extensions.length
  let slotIds := (ids.advance.advance.draw count).1
  [.u32 ids.next, .align 4, .u32 (.ofNat count), .u32 0, .u32 ids.advance.next,
    .u32 (.ofNat (paddedSlots count))] ++
  (slotIds.map .u32 ++ (List.replicate (paddedSlots count - count) (.u32 nullId) ++
    extensions.flatMap (·.extent.layout)))

theorem withIds_slots {slotIds : List UInt32} (h : slotIds.length = extensions.length) :
    let nulls := paddedSlots extensions.length - extensions.length
    let pieces := (slotNumbers 0 (sentSlots extensions)).map (.ofSlot Extension.shape) ++
      ((sentSlots extensions).reduceOption.flatMap Extent.layout).map .field
    (Piece.references pieces).length = extensions.length ∧
      Piece.withIds slotIds pieces = slotIds.map .u32 ++
        (List.replicate nulls (.u32 nullId) ++ extensions.flatMap (·.extent.layout)) := by
  intro nulls pieces
  -- The references come first, so they get all the ids, and the null slots are fields like others.
  let refs : List Reference := (List.range extensions.length).map (⟨·, Extension.shape⟩)
  let behind : Layout :=
    List.replicate nulls (.u32 nullId) ++ extensions.flatMap (·.extent.layout)
  have hrefs : refs.length = extensions.length := by rw [List.length_map, List.length_range]
  have hpieces : pieces = refs.map Piece.reference ++ behind.map Piece.field := by
    unfold pieces refs behind
    rw [slotNumbers_sentSlots, reduceOption_sentSlots, List.map_append, List.map_append,
      List.map_replicate, List.map_replicate, List.map_map, List.map_map, List.flatMap_map,
      List.append_assoc]
    rfl
  have hids : slotIds.length = (Piece.references (refs.map .reference)).length := by
    rw [Piece.references_map_reference, hrefs, h]
  have hlayout := Piece.withIds_append hids [] (behind.map .field)
  rw [List.append_nil, Piece.withIds_references (h.trans hrefs.symm), Piece.withIds_fields]
    at hlayout
  rw [hpieces]
  refine ⟨?_, hlayout⟩
  rw [Piece.references_append, Piece.references_fields, List.append_nil, ← hids, h]

theorem number_written (ids : IdSupply) (extensions : List Extension) :
    Piece.number ids (ExtentArray.written (.ofNat extensions.length) 0 (sentSlots extensions)) =
      ⟨linkedFields ids extensions, (ids.draw (extensions.length + 2)).1,
        (ids.draw (extensions.length + 2)).2⟩ := by
  obtain ⟨hreferences, hlayout⟩ :=
    withIds_slots (IdSupply.length_draw extensions.length ids.advance.advance)
  have hcount : (Piece.references (ExtentArray.written (.ofNat extensions.length) 0
      (sentSlots extensions))).length = extensions.length + 2 := congrArg (· + 2) hreferences
  rw [Piece.number_eq, hcount]
  congr 1
  rw [IdSupply.draw_succ, IdSupply.draw_succ, linkedFields, ExtentArray.written, length_sentSlots]
  exact congrArg (_ :: _ :: _ :: _ :: _ :: _ :: ·) hlayout

theorem encodeLinked_some_eq_ok_iff : encodeLinked (some extensions) ids = .ok (layout, later) ↔
    paddedSlots extensions.length < UInt32.size ∧
      (∀ extension ∈ extensions, Extension.paddedSize extension.data.length < UInt32.size) ∧
      layout = linkedFields ids extensions ∧ later = (ids.draw (extensions.length + 2)).2 := by
  have hdata : (∀ extent ∈ (sentSlots extensions).reduceOption,
      extent.data.length < UInt32.size) ↔
        ∀ extension ∈ extensions, Extension.paddedSize extension.data.length < UInt32.size := by
    rw [reduceOption_sentSlots, List.forall_mem_map]
    simp only [← Extension.length_paddedData]
    rfl
  rw [encodeLinked_eq_ok_iff, sendable_some, graphOf, counted_eq]
  constructor
  · rintro ⟨_, encoded, hencoded, rfl, rfl⟩
    obtain ⟨pieces, hpieces, rfl⟩ := map_eq_ok_iff.1 hencoded
    obtain ⟨hslots, hextents, rfl⟩ := ExtentArray.pieces_graph_eq_ok_iff.1 hpieces
    rw [length_sentSlots] at hslots
    rw [number_written]
    exact ⟨hslots, hdata.1 hextents, rfl, rfl⟩
  · rintro ⟨hslots, hextents, rfl, rfl⟩
    have hlength := Nat.lt_of_le_of_lt (le_paddedSlots _) hslots
    have hsizes : ∀ extension ∈ extensions, extension.data.length < UInt32.size :=
      fun extension hmem => Nat.lt_of_le_of_lt (Extension.le_paddedSize _) (hextents extension hmem)
    rw [← length_sentSlots] at hslots
    refine ⟨⟨hlength, hsizes⟩, _, map_eq_ok_iff.2 ⟨_, ExtentArray.pieces_graph_eq_ok_iff.2
      ⟨hslots, hdata.2 hextents, rfl⟩, rfl⟩, ?_, ?_⟩
    · rw [number_written]
    · rw [number_written]

/-- What extensions behind pointers are written as. The array has an even number of slots, and the
data of each extension ends at a multiple of eight, with zeros up to there. -/
theorem encodeLinked_padded (h : encodeLinked (some extensions) ids = .ok (layout, later)) :
    layout = linkedFields ids extensions ∧
      (∃ nulls < 2, paddedSlots extensions.length = extensions.length + nulls ∧
        2 ∣ extensions.length + nulls) ∧
      ∀ extension ∈ extensions, ∃ zeros < 8,
        extension.extent.data = extension.data ++ List.replicate zeros 0 ∧
          8 ∣ extension.extent.data.length := by
  obtain ⟨_, _, hlayout, _⟩ := encodeLinked_some_eq_ok_iff.1 h
  have hle := le_paddedSlots extensions.length
  have hlt := paddedSlots_lt extensions.length
  have hnulls : paddedSlots extensions.length =
      extensions.length + (paddedSlots extensions.length - extensions.length) := by omega
  exact ⟨hlayout, ⟨_, by omega, hnulls, hnulls ▸ two_dvd_paddedSlots _⟩,
    fun extension _ => extension.exists_zeros⟩

theorem exists_encodeLinked (hsmall : ∀ extensions ∈ chain, extensions.length ≤ UInt32.size - 2 ∧
      ∀ extension ∈ extensions, extension.data.length ≤ UInt32.size - 8) (ids : IdSupply) :
    ∃ layout later, chain.encodeLinked ids = .ok (layout, later) := by
  cases chain with
  | none => exact ⟨_, _, encodeLinked_none ids⟩
  | some extensions =>
    have hsize : UInt32.size = 2 ^ 32 := rfl
    obtain ⟨hlength, hdata⟩ := hsmall extensions rfl
    have hslots : paddedSlots extensions.length ≤ UInt32.size - 2 :=
      (paddedSlots_le_iff (by decide)).2 hlength
    refine ⟨_, _, encodeLinked_some_eq_ok_iff.2 ⟨by omega, fun extension hmem => ?_, rfl, rfl⟩⟩
    have hpadded : Extension.paddedSize extension.data.length ≤ UInt32.size - 8 :=
      (Extension.paddedSize_le_iff (by decide)).2 (hdata extension hmem)
    omega

/-! ### Reading back -/

/-- The chain is within the limits of a receiver. -/
def Accepted (limit : Nat) (chain : Chain) : Prop :=
  ∀ extensions ∈ chain, extensions.length ≤ min limit elementLimit ∧
    ∀ extension ∈ extensions, extension.data.length ≤ elementLimit

theorem treeOf_injective : Function.Injective treeOf := by
  intro array array' h
  have hslots : Function.Injective (List.map Extent.slotTree) :=
    List.map_injective_iff.2 Extent.slotTree_injective
  cases array <;> cases array'
  case none.none => rfl
  case some.some array array' =>
    obtain ⟨count, reserved, slots⟩ := array
    obtain ⟨count', reserved', slots'⟩ := array'
    simp only [treeOf, Option.elim_some, ExtentArray.tree, Tree.pointer.injEq, Tree.struct.injEq,
      List.cons.injEq, Tree.u32.injEq, and_true] at h
    obtain ⟨rfl, rfl, h⟩ := h
    cases slots <;> cases slots'
    case none.none => rfl
    case some.some slots slots' => rw [hslots (Tree.array.inj (Tree.pointer.inj h))]
    all_goals cases h
  all_goals cases h

theorem accepted_iff (h : Sendable chain) : Accepted limit chain ↔
    ((treeOf (chain.map sent)).arraysWithin elementLimit = true ∧
      (treeOf (chain.map sent)).pointerCount ≤ referentLimit limit) ∧
    received limit (chain.map sent) = .ok chain := by
  cases chain with
  | none => simp [Accepted, treeOf, Tree.arraysWithin, Tree.pointerCount, received]
  | some extensions =>
    have heven : paddedSlots extensions.length ≤ elementLimit ↔ extensions.length ≤ elementLimit :=
      paddedSlots_le_iff (by decide)
    have hdata : ∀ extension : Extension,
        Extension.paddedSize extension.data.length ≤ elementLimit ↔
          extension.data.length ≤ elementLimit :=
            fun extension => Extension.paddedSize_le_iff (by decide)
    have hpadded := le_paddedSlots limit
    have hreceived : received limit (some (sent extensions)) = .ok (some extensions) ↔
        extensions.length ≤ limit := by
      rw [received_sent h]
      by_cases hlimit : limit < extensions.length
      · simp [hlimit]
      · simp [if_neg hlimit, Nat.le_of_not_lt hlimit]
    rw [Option.map_some, arraysWithin_sentAs_iff, pointerCount_sentAs, hreceived, heven,
      referentLimit]
    simp only [hdata, Accepted, Option.mem_some_iff, forall_eq', Nat.le_min]
    constructor
    · rintro ⟨⟨hcount, helements⟩, hsizes⟩
      exact ⟨⟨⟨helements, hsizes⟩, by omega⟩, hcount⟩
    · rintro ⟨⟨⟨helements, hsizes⟩, _⟩, hcount⟩
      exact ⟨⟨hcount, helements⟩, hsizes⟩

theorem run_read_ofGraph {graph : Graph} {order : ByteOrder} {cursor last : Cursor}
    (h : (Graph.read (some (referentLimit limit)) shape).run order cursor = .ok (graph, last)) :
    (read limit).run order cursor = (ofGraph limit graph).map (·, last) := by
  rw [read, Reader.run_bind, Reader.run_lift h]
  rfl

theorem run_read_of_tree {array : Option ExtentArray} {graph : Graph} {order : ByteOrder}
    {cursor last : Cursor}
    (h : (Graph.read (some (referentLimit limit)) shape).run order cursor = .ok (graph, last))
    (htree : graph.tree? shape graph.root = some (treeOf array)) :
    (read limit).run order cursor = (received limit array).map (·, last) := by
  obtain ⟨array', harray, hreceived⟩ := ofGraph_eq htree
  obtain rfl := treeOf_injective harray
  rw [run_read_ofGraph h, hreceived]

theorem run_read_graph_iff (hids : ids.next ≠ nullId) {graph : Graph} {encoded : Encoded}
    {array : Option ExtentArray} (hencoded : graph.encode shape ids = .ok encoded)
    (htree : graph.tree? shape graph.root = some (treeOf array)) :
    ∃ decoded : Graph, decoded.referents.map (·.id) = encoded.referentIds ∧
      ∀ order cursor last, encoded.layout.Between order cursor last → ∀ limit,
        let within :=
          (treeOf array).arraysWithin elementLimit = true ∧
            (treeOf array).pointerCount ≤ referentLimit limit
        (within → (Graph.read (some (referentLimit limit)) shape).run order cursor =
          .ok (decoded, last)) ∧
        ∀ found next, (read limit).run order cursor = .ok (found, next) ↔
          within ∧ received limit array = .ok found ∧ next = last := by
  obtain ⟨decoded, hdecoded_tree, hdecoded, hread⟩ :=
    Graph.run_read_written_iff hids hencoded rfl htree
  refine ⟨decoded, hdecoded, fun order cursor last hbetween limit => ?_⟩
  have hgraph := fun hwithin =>
    (hread order cursor last hbetween (referentLimit limit) (decoded, last)).2 ⟨hwithin, rfl⟩
  refine ⟨hgraph, fun found next => ?_⟩
  constructor
  · intro hfound
    obtain ⟨graph, middle, hlifted, _⟩ := Reader.run_bind_eq_ok.1 hfound
    obtain ⟨hwithin, _⟩ :=
      (hread order cursor last hbetween _ _).1 (Reader.run_eq_ok_of_lift hlifted)
    rw [run_read_of_tree (hgraph hwithin) hdecoded_tree] at hfound
    obtain ⟨_, hreceived, heq⟩ := map_eq_ok_iff.1 hfound
    cases heq
    exact ⟨hwithin, hreceived, rfl⟩
  · rintro ⟨hwithin, hfound, rfl⟩
    rw [run_read_of_tree (hgraph hwithin) hdecoded_tree, hfound]
    rfl

/-- Where a chain has been written it is accepted exactly within the limits, and then it is that
chain that is read, up to its last octet, under the ids that were given out. -/
theorem run_read_written_iff (hids : ids.next ≠ nullId)
    (h : chain.encodeLinked ids = .ok (layout, later)) :
    ∃ decoded : Graph, (∃ count, IdSupply.draw count ids = (decoded.referents.map (·.id), later)) ∧
      ∀ order cursor last, layout.Between order cursor last → ∀ limit,
        (∀ answer, (read limit).run order cursor = .ok answer ↔
          Accepted limit chain ∧ answer = (chain, last)) ∧
        (Accepted limit chain →
          (Graph.read (some (referentLimit limit)) shape).run order cursor =
            .ok (decoded, last)) := by
  obtain ⟨hsendable, encoded, hencoded, rfl, rfl⟩ := encodeLinked_eq_ok_iff.1 h
  obtain ⟨decoded, hdecoded, hread⟩ := run_read_graph_iff hids hencoded (tree?_graphOf chain)
  refine ⟨decoded, ?_, fun order cursor last hbetween limit => ?_⟩
  · obtain ⟨pieces, _, rfl⟩ := map_eq_ok_iff.1 hencoded
    rw [Piece.number_eq] at hdecoded ⊢
    exact ⟨_, by rw [hdecoded]⟩
  · obtain ⟨hgraph, hchain⟩ := hread order cursor last hbetween limit
    rw [accepted_iff hsendable]
    refine ⟨fun (found, next) => ?_, fun haccepted => hgraph haccepted.1⟩
    rw [hchain]
    constructor
    · rintro ⟨hwithin, hfound, rfl⟩
      obtain rfl := eq_of_received hsendable hfound
      exact ⟨⟨hwithin, hfound⟩, rfl⟩
    · rintro ⟨⟨hwithin, hfound⟩, heq⟩
      cases heq
      exact ⟨hwithin, hfound, rfl⟩

/-- A chain whose header counts no more than the limit may have as many extensions as the array may
have slots. -/
theorem exists_read_counted {count : UInt32} (hcount : count.toNat ≤ limit)
    (hslots : count.toNat ≤ paddedSlots extensions.length)
    (hlength : extensions.length ≤ min (paddedSlots limit) elementLimit)
    (hdata : ∀ extension ∈ extensions, extension.data.length ≤ elementLimit) :
    ∃ layout : Layout, ∀ order cursor last, layout.Between order cursor last →
      (read limit).run order cursor = .ok (some extensions, last) := by
  have hsize : elementLimit < UInt32.size := by decide
  have hpadded : paddedSlots extensions.length ≤ elementLimit ∧
      ∀ extension ∈ extensions, Extension.paddedSize extension.data.length ≤ elementLimit := by
    refine ⟨(paddedSlots_le_iff rfl).2 (Nat.le_trans hlength (Nat.min_le_right _ _)),
      fun extension hmem => ?_⟩
    exact (Extension.paddedSize_le_iff rfl).2 (hdata extension hmem)
  have hcountable : ¬(treeOf (some (sentAs count extensions))).Uncountable := by
    rw [Tree.Uncountable, Bool.not_eq_false, arraysWithin_sentAs_iff]
    refine ⟨Nat.le_trans hpadded.1 (Nat.le_sub_one_of_lt hsize), fun extension hmem => ?_⟩
    exact Nat.le_trans (hpadded.2 extension hmem) (Nat.le_sub_one_of_lt hsize)
  obtain ⟨encoded, hencoded⟩ :=
    (Graph.encode_fails (tree?_counted count extensions) .fresh).exists_ok hcountable
  obtain ⟨decoded, _, hread⟩ :=
    run_read_graph_iff IdSupply.reached_fresh.next_ne_null hencoded (tree?_counted count extensions)
  refine ⟨encoded.layout, fun order cursor last hbetween => ?_⟩
  obtain ⟨_, hchain⟩ := hread order cursor last hbetween limit
  refine (hchain _ _).2 ⟨⟨arraysWithin_sentAs_iff.2 hpadded, ?_⟩, ?_, rfl⟩
  · rw [pointerCount_sentAs, referentLimit]
    omega
  · have hsendable : ∀ extension ∈ extensions, extension.data.length < UInt32.size :=
      fun extension hmem => Nat.lt_of_le_of_lt (hdata extension hmem) hsize
    rw [received_sentAs hsendable hslots, if_neg (Nat.not_lt.2 hcount)]

/-! ### What is read -/

variable {order : ByteOrder} {cursor next : Cursor}

/-- A chain that has been read is within the limits of a receiver that accepts an even number of
extensions. -/
theorem accepted_of_read (h : (read limit).run order cursor = .ok (chain, next)) :
    chain.Accepted (paddedSlots limit) := by
  rintro extensions rfl
  obtain ⟨array, hreceived, hcount, hwithin⟩ := array_of_read h
  cases array with
  | none => cases hreceived
  | some array =>
    obtain ⟨_, hextensions, heq⟩ := map_eq_ok_iff.1 hreceived
    cases heq
    have hlength := ExtentArray.length_extensions hextensions
    have hextents := ExtentArray.exists_extent hextensions
    obtain ⟨count, reserved, slots⟩ := array
    cases slots with
    | none =>
      rw [List.length_eq_zero_iff.1 hlength]
      simp
    | some slots =>
      obtain ⟨hslots, hdata⟩ := arraysWithin_treeOf_iff.1 hwithin
      rw [pointerCount_treeOf, referentLimit] at hcount
      change extensions.length = slots.reduceOption.length at hlength
      refine ⟨Nat.le_min.2 ⟨by omega, ?_⟩, fun extension hmem => ?_⟩
      · exact hlength ▸ Nat.le_trans (List.reduceOption_length_le slots) hslots
      · obtain ⟨extent, hextent, hextension⟩ := hextents extension hmem
        exact Nat.le_trans (Extent.length_data_le hextension) (hdata extent hextent)

theorem length_le_of_read (h : (read limit).run order cursor = .ok (some extensions, next)) :
    extensions.length ≤ paddedSlots limit :=
  Nat.le_trans (accepted_of_read h extensions rfl).1 (Nat.min_le_left _ _)

end Chain

end OrpcWire
