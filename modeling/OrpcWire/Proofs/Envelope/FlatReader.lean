import OrpcWire.Proofs.Envelope.Chain

/-!
# A reader of chains without pointers

The layout without pointers is only ever written (`Chain.encodeFlat_eq_ok_iff`). It could be read
all the same. The count in front says how many extensions follow, and each of them says how much
data it has, so that the next one begins behind the padding of its identifier, wherever that is.
`Chain.readFlat` reads so, and it finds every chain that was written (`Chain.readFlat_finds`),
whatever follows. Hence no octets stand for two chains, and none for a chain and the beginning of
another (`Chain.encodeFlat_prefix_iff`).
-/

namespace OrpcWire

namespace Reader

variable {ε α : Type} {reader : Reader ε α}

/-- Repeats a reader so many times. -/
def times (reader : Reader ε α) : Nat → Reader ε (List α)
  | 0 => return []
  | count + 1 => do
    let first ← reader
    let others ← times reader count
    return first :: others

theorem Finds.times {layout : α → Layout} {items : List α}
    (h : ∀ a ∈ items, reader.Finds a (layout a)) :
    (times reader items.length).Finds items (items.flatMap layout) := by
  induction items with
  | nil => exact finds_pure []
  | cons first others ih =>
    obtain ⟨hfirst, hothers⟩ := List.forall_mem_cons.1 h
    rw [List.flatMap_cons, List.length_cons, Reader.times]
    simp only [bind_pure_comp]
    exact hfirst.bind ((ih hothers).map (first :: ·))

end Reader

namespace Extension

variable {extension : Extension}

/-- The fields of an extension that stands without a pointer. -/
def flatFields (extension : Extension) : Layout :=
  extension.id.layout ++ [.u32 (.ofNat extension.data.length), .raw extension.data]

theorem flatLayout_eq_ok_iff {layout : Layout} : extension.flatLayout = .ok layout ↔
    extension.data.length < UInt32.size ∧ layout = extension.flatFields := by
  rw [flatLayout, bind_eq_ok_iff]
  constructor
  · rintro ⟨word, hword, heq⟩
    obtain ⟨hsize, rfl⟩ := size_eq_ok_iff.1 hword
    cases heq
    exact ⟨hsize, rfl⟩
  · rintro ⟨hsize, rfl⟩
    exact ⟨_, size_eq_ok_iff.2 ⟨hsize, rfl⟩, rfl⟩

/-- Reads an extension that stands without a pointer. Its data is as long as the size says. -/
def readFlat : Reader WireError Extension := do
  let id ← Reader.guid
  let size ← Reader.u32
  let data ← Reader.octets size.toNat
  return ⟨id, data⟩

theorem readFlat_finds (h : extension.data.length < UInt32.size) :
    readFlat.Finds extension extension.flatFields := by
  have hdata : (Reader.octets (UInt32.ofNat extension.data.length).toNat).Finds extension.data
      [.raw extension.data] := by
    rw [UInt32.toNat_ofNat_of_lt' h]
    exact Reader.octets_finds extension.data
  simp only [readFlat, bind_pure_comp]
  exact (Reader.guid_exact.finds extension.id).bind
    ((Reader.u32_exact.finds _).bind (hdata.map (Extension.mk extension.id)))

end Extension

namespace Chain

variable {chain : Chain} {first : Extension} {others : List Extension} {layout : Layout}

/-- The fields of a chain without pointers. -/
def flatFields : List Extension → Layout
  | [] => [.u32 0]
  | extensions => .u32 (.ofNat extensions.length) :: .u32 0 :: extensions.flatMap (·.flatFields)

/-- The chains that are written are those that can be sent. No chain at all is written as a chain
without extensions. -/
theorem encodeFlat_eq_ok_iff : chain.encodeFlat = .ok layout ↔
    chain.Sendable ∧ layout = flatFields (chain.getD []) := by
  match chain with
  | none | some [] => simp [encodeFlat, flatFields, UInt32.size, eq_comm]
  | some (first :: others) =>
    rw [sendable_some, Option.getD_some, flatFields, List.flatMap_def]
    · constructor
      · intro h
        obtain ⟨count, hcount, hrest⟩ := bind_eq_ok_iff.1 h
        obtain ⟨layouts, hlayouts, heq⟩ := bind_eq_ok_iff.1 hrest
        obtain ⟨hlength, rfl⟩ := countWord_eq_ok_iff.1 hcount
        obtain ⟨hdata, rfl⟩ := (mapM_eq_ok_iff fun _ _ => Extension.flatLayout_eq_ok_iff).1 hlayouts
        cases heq
        exact ⟨⟨hlength, hdata⟩, rfl⟩
      · rintro ⟨⟨hlength, hdata⟩, rfl⟩
        exact bind_eq_ok_iff.2 ⟨_, countWord_eq_ok_iff.2 ⟨hlength, rfl⟩, bind_eq_ok_iff.2
          ⟨_, (mapM_eq_ok_iff fun _ _ => Extension.flatLayout_eq_ok_iff).2 ⟨hdata, rfl⟩, rfl⟩⟩
    · exact List.cons_ne_nil first others

theorem ofNat_length_ne_zero (h : Sendable (some (first :: others))) :
    UInt32.ofNat (first :: others).length ≠ 0 := by
  intro hzero
  have hlength := UInt32.toNat_ofNat_of_lt' (sendable_some.1 h).1
  rw [hzero] at hlength
  cases hlength

/-- Reads a chain without pointers. There is nothing behind a count of zero. -/
def readFlat : Reader WireError (List Extension) := do
  let count ← Reader.u32
  if count = 0 then
    return []
  else
    let _ ← Reader.u32
    Reader.times Extension.readFlat count.toNat

theorem readFlat_finds (h : chain.Sendable) :
    readFlat.Finds (chain.getD []) (flatFields (chain.getD [])) := by
  match chain with
  | none | some [] => exact (Reader.u32_exact.finds 0).bind (Reader.finds_pure [])
  | some (first :: others) =>
    obtain ⟨hlength, hdata⟩ := sendable_some.1 h
    have htimes :
        (Reader.times Extension.readFlat (UInt32.ofNat (first :: others).length).toNat).Finds
          (first :: others)
        ((first :: others).flatMap (·.flatFields)) := by
      rw [UInt32.toNat_ofNat_of_lt' hlength]
      exact .times fun extension hmem => Extension.readFlat_finds (hdata extension hmem)
    refine (Reader.u32_exact.finds (.ofNat (first :: others).length)).bind ?_
    rw [if_neg (ofNat_length_ne_zero h)]
    exact (Reader.u32_exact.finds 0).bind htimes

/-- Every chain whose counts fit in words can be written without pointers. At one position and in
one byte order, its octets are the beginning of those of another chain only if both have the same
extensions, and then they are the same octets. No chain at all and a chain without extensions are
not told apart. -/
theorem encodeFlat_prefix_iff (a b : Chain) (ha : a.Sendable) (hb : b.Sendable) :
    ∃ first second, a.encodeFlat = .ok first ∧ b.encodeFlat = .ok second ∧ ∀ order position,
      (first.render order position <+: second.render order position ↔ a.getD [] = b.getD []) ∧
      (first.render order position = second.render order position ↔ a.getD [] = b.getD []) := by
  refine ⟨_, _, encodeFlat_eq_ok_iff.2 ⟨ha, rfl⟩, encodeFlat_eq_ok_iff.2 ⟨hb, rfl⟩,
    fun order position => ?_⟩
  -- A reader that finds either chain whatever follows cannot take one for the other.
  have hbegins : (flatFields (a.getD [])).render order position <+:
      (flatFields (b.getD [])).render order position → a.getD [] = b.getD [] :=
        (readFlat_finds ha).eq_of_begins (readFlat_finds hb)
  have hsame : a.getD [] = b.getD [] →
      (flatFields (a.getD [])).render order position =
        (flatFields (b.getD [])).render order position := fun heq => by rw [heq]
  exact ⟨⟨hbegins, fun heq => hsame heq ▸ List.prefix_rfl⟩,
    ⟨fun heq => hbegins (heq ▸ List.prefix_rfl), hsame⟩⟩

/-- Zero octets of data are told from padding, though nothing but the size in front of them
differs. -/
theorem encodeFlat_prefix_iff_padding :
    let short : Chain := some [⟨Guid.errorInfo, [1]⟩, ⟨Guid.iUnknown, []⟩]
    let long : Chain := some [⟨Guid.errorInfo, [1, 0, 0]⟩, ⟨Guid.iUnknown, []⟩]
    short.Sendable ∧ long.Sendable ∧ ∃ first second,
      short.encodeFlat = .ok first ∧ long.encodeFlat = .ok second ∧
        (first.render .big 1).length = (second.render .big 1).length ∧
      ¬ first.render .big 1 <+: second.render .big 1 := by
  intro short long
  have hshort : short.Sendable := by simp [short, Sendable, UInt32.size]
  have hlong : long.Sendable := by simp [long, Sendable, UInt32.size]
  obtain ⟨first, second, hfirst, hsecond, hoctets⟩ := encodeFlat_prefix_iff short long hshort hlong
  refine ⟨hshort, hlong, first, second, hfirst, hsecond, ?_, fun h => ?_⟩
  · cases hfirst
    cases hsecond
    decide
  · have hsame := (hoctets .big 1).1.1 h
    revert hsame
    decide

end Chain

end OrpcWire
