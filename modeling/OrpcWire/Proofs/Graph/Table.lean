import OrpcWire.Proofs.Graph.Drain

/-!
# Reading graphs into a table of slots

A reader of graphs that works on a table: a pointer takes a slot that is still empty and is put on a
list of pointers pending, and the list is gone through by index while referents are read, each into
its slot. A root that is a pointer does not go over the list. In the end every slot has to be
filled.

`Graph.readByTable_eq`: this is `Graph.read`. The invariant is that the slots filled are the
referents read so far, in order, and that the slots still empty are those of the pointers still
pending, in order (`Table.Holds`). So in the end no slot is empty (`filled_of_fillGraph`).
-/

namespace OrpcWire

/-- The slots given out and the pointers put on the list. -/
structure Table where
  /-- The id of each slot and, once it is filled, its value. -/
  slots : List (UInt32 × Option Value) := []
  pending : List Reference := []

/-- Reads an `α` and records the pointers in it. -/
abbrev Filler (α : Type) : Type := StateT Table (Reader WireError) α

namespace Table

/-- The table after announcements that have been put on the list. -/
def announce (table : Table) (announced : List Announcement) : Table where
  slots := table.slots ++ announced.map fun announcement => (announcement.id, none)
  pending := table.pending ++ Announcement.references table.slots.length announced

/-- Fills a slot. -/
def fill (slot : Nat) (value : Value) (table : Table) : Table :=
  { table with slots := table.slots.modify slot fun (id, _) => (id, some value) }

/-- The referents in the slots, all of which have to be filled. -/
def referents (table : Table) : Except WireError (List Referent) :=
  table.slots.zipIdx.mapM fun ((id, value), slot) =>
    match value with
    | some value => .ok ⟨id, value⟩
    | none => .error (.mismatch (.other ("slot " ++ toString slot ++ " was never resolved")))

@[simp] theorem announce_nil (table : Table) : table.announce [] = table := by
  simp [announce]

theorem announce_append (table : Table) (first second : List Announcement) :
    table.announce (first ++ second) = (table.announce first).announce second := by
  simp [announce, Announcement.references_append]

@[simp] theorem length_slots_announce (table : Table) (announced : List Announcement) :
    (table.announce announced).slots.length = table.slots.length + announced.length := by
  simp [announce]

end Table

namespace Filler

variable {α β : Type}

/-- A new slot, if the limit allows for it. -/
def allocate (limit : Option Nat) (id : UInt32) : Filler Nat := do
  let table ← get
  Reader.ofExcept (checkSlots limit table.slots.length)
  set { table with slots := table.slots ++ [(id, none)] }
  return table.slots.length

/-- Puts a pointer on the list. -/
def defer (slot : Nat) (target : Shape) : Filler Unit :=
  modify fun table => { table with pending := table.pending ++ [⟨slot, target⟩] }

/-- Makes sure that there are at least as many octets as elements. -/
def room (count : Nat) : Reader WireError Unit where
  run _ cursor :=
    if count ≤ cursor.rest.length then .ok ((), cursor)
    else .error (.underflow count cursor.rest.length)

/-- Values one after the other. -/
def row (filler : Filler α) : Nat → Filler (List α)
  | 0 => return []
  | count + 1 => do
    let first ← filler
    let others ← row filler count
    return first :: others

/-- `count` elements in a row. -/
def elements (filler : Filler α) (count : Nat) : Filler (List α) := do
  room count
  row filler count

/-- What a reader finds, with its announcements on the list. -/
def of (reader : Nat → Reader WireError (Found α)) : Filler α := fun table => do
  let found ← reader table.slots.length
  return (found.value, table.announce found.announced)

@[simp] theorem run_of (reader : Nat → Reader WireError (Found α)) (table : Table) :
    (of reader).run table = (do
      let found ← reader table.slots.length
      return (found.value, table.announce found.announced)) := rfl

theorem of_pure (a : α) : (pure a : Filler α) = of fun _ => pure ⟨a, []⟩ := by
  apply StateT.ext
  intro table
  simp

theorem of_leaf (reader : Reader WireError α) (f : α → β) :
    (do return f (← reader) : Filler β) = of fun _ => do return ⟨f (← reader), []⟩ := by
  apply StateT.ext
  intro table
  simp

theorem of_bind {reader : Reader WireError α} {next : α → Filler β}
    {found : α → Nat → Reader WireError (Found β)} (h : ∀ a, next a = of (found a)) :
    ((reader : Filler α) >>= next) = of fun taken => reader >>= fun a => found a taken := by
  apply StateT.ext
  intro table
  simp [h]

theorem of_map (reader : Nat → Reader WireError (Found α)) (f : α → β) :
    (do return f (← of reader) : Filler β) = of fun taken => do return (← reader taken).map f := by
  apply StateT.ext
  intro table
  simp [Found.map]

theorem of_cons (reader : Nat → Reader WireError (Found α))
    (others : Nat → Reader WireError (Found (List α))) :
    (do
      let first ← of reader
      let others ← of others
      return first :: others : Filler (List α)) = of fun taken => do
        let first ← reader taken
        let others ← others (taken + first.announced.length)
        return ⟨first.value :: others.value, first.announced ++ others.announced⟩ := by
  apply StateT.ext
  intro table
  simp [Table.announce_append]

end Filler

open Filler

namespace Shape

mutual

/-- Reads a value in place. -/
def fill (limit : Option Nat) : Shape → Filler Value
  | .u8 => return .u8 (← Reader.u8)
  | .u16 => return .u16 (← Reader.u16)
  | .u32 => return .u32 (← Reader.u32)
  | .u64 => return .u64 (← Reader.u64)
  | .guid => return .guid (← Reader.guid)
  | .pointer target => do
    match ← (Reader.referentId : Filler _) with
    | none => return .null
    | some id =>
      let slot ← allocate limit id
      defer slot target
      return .pointer (some slot)
  | .array element => do
    let count ← readCount
    return .array (← elements (fill limit element) count)
  | .struct members => do
    let count ← readHoistedCount members
    Reader.align (alignment (.struct members))
    return .struct (← fillMembers limit members count)

/-- Reads the members of a structure one after the other, a last array with the count given. -/
def fillMembers (limit : Option Nat) : List Shape → Option Nat → Filler (List Value)
  | [], _ => return []
  | [.array element], some count => return [.array (← elements (fill limit element) count)]
  | member :: members, count => do
    let first ← fill limit member
    let others ← fillMembers limit members count
    return first :: others

end

end Shape

namespace Filler

variable {α : Type}

theorem of_elements (reader : Nat → Reader WireError (Found α)) (count : Nat) :
    elements (of reader) count = of (readElements reader count) := by
  have hrow : row (of reader) count = of (readRow reader count) := by
    induction count with
    | zero => exact of_pure []
    | succ count ih =>
      rw [row, ih, of_cons]
      rfl
  rw [elements, hrow, of_bind fun _ => rfl]
  congr 1
  funext taken
  ext order cursor : 3
  rw [Reader.run_bind, run_readElements]
  by_cases hroom : count ≤ cursor.rest.length
  · simp only [room, if_pos hroom]
  · simp only [room, if_neg hroom]

theorem of_pointer (limit : Option Nat) (id : UInt32) (target : Shape) :
    (do
      let slot ← allocate limit id
      defer slot target
      return .pointer (some slot) : Filler Value) = of fun taken => do
        Reader.ofExcept (checkSlots limit taken)
        return ⟨.pointer (some taken), [⟨id, target⟩]⟩ := by
  apply StateT.ext
  intro table
  simp [allocate, defer, Table.announce]

end Filler

namespace Shape

mutual

theorem fill_eq (limit : Option Nat) : (shape : Shape) → fill limit shape = of (read limit shape)
  | .u8 | .u16 | .u32 | .u64 | .guid => of_leaf _ _
  | .pointer target => by
    rw [fill]
    refine of_bind fun id => ?_
    cases id with
    | none => exact of_pure Value.null
    | some id => exact of_pointer limit id target
  | .array element => by
    rw [fill]
    refine of_bind fun count => ?_
    rw [fill_eq limit element, of_elements, of_map]
  | .struct members => by
    rw [fill]
    refine of_bind fun count => of_bind fun _ => ?_
    rw [fillMembers_eq limit members count, of_map]

theorem fillMembers_eq (limit : Option Nat) : (members : List Shape) → (count : Option Nat) →
    fillMembers limit members count = of (readMembers limit members count)
  | [], count => of_pure []
  | member :: members, count => by
    by_cases hspecial : ∃ element n, member = .array element ∧ members = [] ∧ count = some n
    · obtain ⟨element, n, rfl, rfl, rfl⟩ := hspecial
      rw [fillMembers, fill_eq limit element, of_elements, of_map]
      rfl
    · have hothers : ∀ element n, count = some n → member = .array element → members = [] → False :=
        fun element n hcount hmember hmembers => hspecial ⟨element, n, hmember, hmembers, hcount⟩
      have hfill : fillMembers limit (member :: members) count = (do
          let first ← fill limit member
          let others ← fillMembers limit members count
          return first :: others) := by
        rw [fillMembers]
        exact hothers
      rw [hfill, fill_eq limit member, fillMembers_eq limit members count, of_cons]
      congr 1
      funext taken
      rw [readMembers]
      exact hothers

end

end Shape

/-! ### The whole graph -/

namespace Table

variable {limit : Option Nat} {order : ByteOrder}

theorem run_fill_eq_ok {shape : Shape} {table after : Table} {cursor next : Cursor}
    {value : Value} :
    ((shape.fill limit).run table).run order cursor = .ok ((value, after), next) ↔
      ∃ found, (shape.read limit table.slots.length).run order cursor = .ok (found, next) ∧
        found.value = value ∧ table.announce found.announced = after := by
  rw [Shape.fill_eq, run_of, Reader.run_bind_eq_ok]
  constructor
  · rintro ⟨found, middle, hfound, hpure⟩
    cases hpure
    exact ⟨found, hfound, rfl, rfl⟩
  · rintro ⟨found, hfound, rfl, rfl⟩
    exact ⟨found, next, hfound, rfl⟩

/-- Goes through the pointers pending from index `next` on. -/
def drain (limit : Option Nat) (order : ByteOrder) (table : Table) (next : Nat) (cursor : Cursor) :
    Except WireError (Table × Cursor) :=
  match _hpending : table.pending[next]? with
  | none => .ok (table, cursor)
  | some ref =>
    match _hrun : ((ref.target.fill limit).run table).run order cursor with
    | .error error => .error error
    | .ok ((value, after), cursor) =>
      drain limit order (after.fill ref.slot value) (next + 1) cursor
termination_by cursor.rest.length + (table.pending.length - next)
decreasing_by
  obtain ⟨found, hfound, _, rfl⟩ := run_fill_eq_ok.1 _hrun
  have hpays := Shape.read_pays limit _ _ order _ found _ hfound
  have hnext := (List.getElem?_eq_some_iff.1 _hpending).1
  simp only [fill, announce, List.length_append, Announcement.length_references]
  omega

end Table

namespace Table

variable {limit : Option Nat} {order : ByteOrder} {table : Table} {next : Nat} {ref : Reference}
  {cursor : Cursor}

theorem drain_none (h : table.pending[next]? = none) :
    table.drain limit order next cursor = .ok (table, cursor) := by
  rw [drain]
  split <;> simp_all

theorem drain_some (h : table.pending[next]? = some ref) : table.drain limit order next cursor =
    (match (ref.target.read limit table.slots.length).run order cursor with
    | .error error => .error error
    | .ok (found, last) =>
      ((table.announce found.announced).fill ref.slot found.value).drain limit order
        (next + 1) last) := by
  rw [drain]
  split
  · simp_all
  · rename_i other hother
    cases h.symm.trans hother
    rw [Shape.fill_eq, run_of, Reader.run_bind]
    cases (ref.target.read limit table.slots.length).run order cursor <;> rfl

end Table

/-- The slot of a referent that has been read. -/
def Referent.filled (referent : Referent) : UInt32 × Option Value :=
  (referent.id, some referent.value)

namespace Table

variable {limit : Option Nat} {order : ByteOrder} {table : Table} {next : Nat}
  {done : List Referent} {announcement : Announcement} {queue : List Announcement}

/-- The referents read so far are in the first slots, the others are empty and belong to the queue,
and the queue is what is pending from index `next` on. -/
structure Holds (table : Table) (next : Nat) (done : List Referent)
    (queue : List Announcement) : Prop where
  slots : table.slots = done.map Referent.filled ++ queue.map fun announcement =>
    (announcement.id, none)
  pending : table.pending.drop next = Announcement.references done.length queue

theorem modify_length_append {α : Type} (f : α → α) (first : List α) (a : α) (others : List α) :
    (first ++ a :: others).modify first.length f = first ++ f a :: others := by
  induction first with
  | nil => rfl
  | cons b first ih => simp [ih]

theorem Holds.length_slots (h : table.Holds next done queue) :
    table.slots.length = done.length + queue.length := by
  simp [h.slots]

theorem Holds.pending_none (h : table.Holds next done []) : table.pending[next]? = none := by
  rw [← List.head?_drop, h.pending]
  rfl

theorem Holds.pending_some (h : table.Holds next done (announcement :: queue)) :
    table.pending[next]? = some ⟨done.length, announcement.target⟩ := by
  rw [← List.head?_drop, h.pending]
  rfl

theorem Holds.step (h : table.Holds next done (announcement :: queue)) (found : Found Value) :
    ((table.announce found.announced).fill done.length found.value).Holds (next + 1)
      (done ++ [⟨announcement.id, found.value⟩]) (queue ++ found.announced) where
  slots := by
    have hlength : done.length = (done.map Referent.filled).length := by rw [List.length_map]
    simp only [fill, announce, h.slots, List.append_assoc, List.map_cons, List.cons_append]
    rw [hlength, modify_length_append]
    simp [Referent.filled]
  pending := by
    have hnext : next < table.pending.length := (List.getElem?_eq_some_iff.1 h.pending_some).1
    have hrest : table.pending.drop (next + 1) =
        Announcement.references (done.length + 1) queue := by
      rw [← List.tail_drop, h.pending]
      rfl
    have hlength : done.length + (announcement :: queue).length =
        done.length + 1 + queue.length := by
      rw [List.length_cons]
      omega
    simp only [fill, announce]
    rw [List.drop_append_of_le_length hnext, hrest, h.length_slots, hlength,
      ← Announcement.references_append, List.length_append, List.length_singleton]

/-- Going through the list is working off the queue. -/
theorem drain_eq (limit : Option Nat) (order : ByteOrder) (cursor : Cursor) {taken : Nat}
    (h : table.Holds next done queue) (htaken : taken = done.length + queue.length) :
    (table.drain limit order next cursor).map (fun (table, last) => (table.slots, last)) =
      (readReferents limit order queue taken cursor).map fun (referents, last) =>
        ((done ++ referents).map Referent.filled, last) := by
  induction queue, taken, cursor using queue_induction limit order generalizing table next done with
  | nil taken cursor =>
    rw [drain_none h.pending_none, readReferents]
    simp [h.slots, Except.map]
  | cons announcement queue taken cursor ih =>
    have hslots : table.slots.length = taken := by rw [h.length_slots, htaken]
    rw [drain_some h.pending_some, readReferents_cons, hslots]
    cases hread : (announcement.target.read limit taken).run order cursor with
    | error error => rfl
    | ok result =>
      obtain ⟨found, middle⟩ := result
      have hlater : taken + found.announced.length =
          (done ++ [(⟨announcement.id, found.value⟩ : Referent)]).length +
            (queue ++ found.announced).length := by
        simp only [htaken, List.length_append, List.length_cons, List.length_nil]
        omega
      simp only [ih found middle hread (h.step found) hlater]
      cases readReferents limit order (queue ++ found.announced)
        (taken + found.announced.length) middle <;>
        simp [Except.map]

end Table

/-- Reads the root. If it is a pointer, its referent follows at once. -/
def Shape.fillRoot (limit : Option Nat) : Shape → Filler Value
  | .pointer target => do
    match ← (Reader.referentId : Filler _) with
    | none => return .null
    | some id =>
      let slot ← allocate limit id
      let value ← target.fill limit
      modify (Table.fill slot value)
      return .pointer (some slot)
  | shape => shape.fill limit

/-- Reads the root and then the pointers pending. -/
def fillGraph (limit : Option Nat) (shape : Shape) : Reader WireError (Value × Table) where
  run order cursor := do
    let ((root, table), cursor) ← ((shape.fillRoot limit).run {}).run order cursor
    let (table, cursor) ← table.drain limit order 0 cursor
    return ((root, table), cursor)

/-- Reads a graph into a table and takes the referents out of it. -/
def Graph.readByTable (limit : Option Nat) (shape : Shape) : Reader WireError Graph := do
  let (root, table) ← fillGraph limit shape
  let referents ← Reader.ofExcept table.referents
  return ⟨root, referents⟩

/-- The root and the slots in the end. -/
def Table.outcome : (Value × Table) × Cursor → (Value × List (UInt32 × Option Value)) × Cursor
  | ((root, table), last) => ((root, table.slots), last)

/-- The same of a graph. -/
def Graph.outcome : Graph × Cursor → (Value × List (UInt32 × Option Value)) × Cursor
  | (graph, last) => ((graph.root, graph.referents.map Referent.filled), last)

section

variable {limit : Option Nat} {order : ByteOrder} {shape target : Shape} {cursor next : Cursor}

theorem outcome_drain (limit : Option Nat) (order : ByteOrder) (cursor : Cursor) {table : Table}
    {done : List Referent} {queue : List Announcement} {taken : Nat} (root : Value)
    (h : table.Holds 0 done queue) (htaken : taken = done.length + queue.length) :
    (table.drain limit order 0 cursor >>= fun (table, last) =>
      pure ((root, table), last)).map Table.outcome =
        (readReferents limit order queue taken cursor >>= fun (referents, last) =>
        pure (⟨root, done ++ referents⟩, last)).map Graph.outcome := by
  have hdrain := Table.drain_eq limit order cursor h htaken
  cases hlist : table.drain limit order 0 cursor <;>
    cases hqueue : readReferents limit order queue taken cursor <;>
    simp_all [bind, Except.bind, pure, Except.pure, Except.map, Table.outcome, Graph.outcome]

theorem run_fillRoot_pointer (limit : Option Nat) (target : Shape) :
    ((Shape.pointer target).fillRoot limit).run {} = (do
      match ← Reader.referentId with
      | none => return (.null, {})
      | some id =>
        Reader.ofExcept (checkSlots limit 0)
        let found ← target.read limit 1
        return (.pointer (some 0),
          (Table.announce ⟨[(id, none)], []⟩ found.announced).fill 0 found.value)) := by
  simp only [Shape.fillRoot, Shape.fill_eq, allocate, StateT.run_bind, StateT.run_monadLift,
    bind_pure_comp, bind_map_left]
  congr 1
  funext id
  cases id with
  | none => rfl
  | some id => simp

theorem fillGraph_eq (limit : Option Nat) (shape : Shape) (order : ByteOrder) (cursor : Cursor) :
    ((fillGraph limit shape).run order cursor).map Table.outcome =
      ((Graph.read limit shape).run order cursor).map Graph.outcome := by
  by_cases hpointer : ∃ target, shape = .pointer target
  · obtain ⟨target, rfl⟩ := hpointer
    simp only [fillGraph, Graph.read, run_fillRoot_pointer, Shape.read, Reader.run_bind]
    cases Reader.referentId.run order cursor with
    | error error => rfl
    | ok result =>
      obtain ⟨id, middle⟩ := result
      cases id with
      | none =>
        have hholds : ({} : Table).Holds 0 [] [] := ⟨rfl, rfl⟩
        exact outcome_drain limit order middle .null hholds rfl
      | some id =>
        simp only [Reader.run_bind, Reader.ofExcept]
        cases checkSlots limit 0 with
        | error error => rfl
        | ok done =>
          -- The queue of the graph holds the root's referent, which the table has read already.
          show Except.map Table.outcome _ = Except.map Graph.outcome
            (readReferents limit order [⟨id, target⟩] 1 middle >>= fun (referents, last) =>
              pure (⟨.pointer (some 0), referents⟩, last))
          rw [readReferents_cons]
          simp only [Except.map]
          cases (target.read limit 1).run order middle with
          | error error => rfl
          | ok result =>
            obtain ⟨found, last⟩ := result
            have hholds :
                ((Table.announce ⟨[(id, none)], []⟩ found.announced).fill 0 found.value).Holds 0
                [⟨id, found.value⟩] found.announced := ⟨rfl, rfl⟩
            have hdrain := outcome_drain limit order last (.pointer (some 0)) hholds rfl
            refine hdrain.trans ?_
            simp only [List.nil_append, List.length_singleton]
            cases readReferents limit order found.announced (1 + found.announced.length) last
              <;> rfl
  · have hroot : shape.fillRoot limit = shape.fill limit := by
      rw [Shape.fillRoot]
      rintro target rfl
      exact hpointer ⟨target, rfl⟩
    simp only [fillGraph, Graph.read, hroot, Shape.fill_eq, run_of, Reader.run_bind]
    cases (shape.read limit 0).run order cursor with
    | error error => rfl
    | ok result =>
      obtain ⟨found, middle⟩ := result
      have hholds : (({} : Table).announce found.announced).Holds 0 [] found.announced := ⟨rfl, rfl⟩
      exact outcome_drain limit order middle found.value hholds (Nat.zero_add _).symm

/-- Behind the list no slot is empty. -/
theorem filled_of_fillGraph {root : Value} {table : Table}
    (h : (fillGraph limit shape).run order cursor = .ok ((root, table), next)) :
    ∃ referents, table.slots = List.map Referent.filled referents := by
  have heq := fillGraph_eq limit shape order cursor
  rw [h] at heq
  obtain ⟨⟨graph, last⟩, hgraph, houtcome⟩ := map_eq_ok_iff.1 heq.symm
  simp only [Graph.outcome, Table.outcome, Prod.mk.injEq] at houtcome
  exact ⟨graph.referents, houtcome.1.2.symm⟩

theorem referents_of_filled {table : Table} {referents : List Referent}
    (h : table.slots = referents.map Referent.filled) : table.referents = .ok referents := by
  rw [Table.referents, h]
  generalize 0 = first
  clear h
  induction referents generalizing first with
  | nil => rfl
  | cons referent referents ih =>
    rw [List.map_cons, List.zipIdx_cons]
    exact mapM_cons_eq_ok_iff.2 ⟨referent, referents, rfl, ih _, rfl⟩

/-- The reader with a table and the one without are the same. -/
theorem Graph.readByTable_eq (limit : Option Nat) (shape : Shape) :
    readByTable limit shape = read limit shape := by
  ext order cursor : 3
  have heq := fillGraph_eq limit shape order cursor
  rw [readByTable, Reader.run_bind]
  cases hfill : (fillGraph limit shape).run order cursor with
  | error error =>
    rw [hfill] at heq
    cases hgraph : (read limit shape).run order cursor with
    | error other => simpa [hgraph, Except.map] using heq
    | ok result => simp [hgraph, Except.map] at heq
  | ok result =>
    obtain ⟨⟨root, table⟩, last⟩ := result
    rw [hfill] at heq
    obtain ⟨⟨graph, last'⟩, hgraph, houtcome⟩ := map_eq_ok_iff.1 heq.symm
    simp only [outcome, Table.outcome, Prod.mk.injEq] at houtcome
    obtain ⟨⟨hroot, hslots⟩, hlast⟩ := houtcome
    simp only [hgraph, Reader.run_bind, Reader.ofExcept, referents_of_filled hslots.symm,
      Except.map, ← hroot, ← hlast]
    rfl

end

end OrpcWire
