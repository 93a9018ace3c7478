import OrpcWire.Proofs.Graph.Pointers

/-!
# Writing level by level

`Graph.encode` takes the pieces of a graph from a queue and gives out ids when all of them are
there. The two writers here put octets down as they go, in the hand of a `Pen`.

* `Graph.writeByWorklist` has a list of pending pointers and an index into it. Writing a referent
  appends to the list. A pointer at the root is followed before and does not enter the list. Ids are
  given out where their words are written and recorded when their referents have been.
* `Graph.writeByLevels` writes the root and takes the pointers in it as the first level. The
  pointers in the referents of one level, from left to right, are the next. It ends with an empty
  level.

Both write what `Graph.encode` says (`Graph.writeByWorklist_eq`, `Graph.writeByLevels_eq`), so the
referents on the wire are in breadth-first order.
-/

namespace OrpcWire

/-- What a writer of octets leaves. -/
structure Output where
  octets : List UInt8
  /-- The position behind the octets. -/
  position : Nat
  referentIds : List UInt32
  ids : IdSupply
  deriving DecidableEq, Repr

def Encoded.output (encoded : Encoded) (order : ByteOrder) (position : Nat) : Output where
  octets := encoded.layout.render order position
  position := position + (encoded.layout.render order position).length
  referentIds := encoded.referentIds
  ids := encoded.ids

/-! ### The pen -/

/-- A writer at work. -/
structure Pen where
  octets : List UInt8
  position : Nat
  ids : IdSupply
  /-- The pointers written whose referents are to follow, with their ids. -/
  pending : List (Reference × UInt32)

namespace Pen

def start (position : Nat) (ids : IdSupply) : Pen := ⟨[], position, ids, []⟩

def output (pen : Pen) (referentIds : List UInt32) : Output :=
  ⟨pen.octets, pen.position, referentIds, pen.ids⟩

/-- Puts a field down and moves on by its padding and its size. -/
def field (order : ByteOrder) (pen : Pen) (content : Field) : Pen :=
  { pen with
    octets := pen.octets ++ content.octets order pen.position
    position := pen.position + padding content.boundary pen.position + content.size }

/-- Gives out an id and writes its word. -/
def announce (order : ByteOrder) (pen : Pen) : Pen :=
  { pen.field order (.u32 pen.ids.next) with ids := pen.ids.advance }

def piece (order : ByteOrder) (pen : Pen) : Piece → Pen
  | .field content => pen.field order content
  | .reference ref => { pen.announce order with pending := pen.pending ++ [(ref, pen.ids.next)] }

def write (order : ByteOrder) (pen : Pen) (pieces : List Piece) : Pen :=
  pieces.foldl (piece order) pen

/-- The references that are pending. -/
def queue (pen : Pen) : List Reference := pen.pending.map (·.1)

/-- Their ids. -/
def pendingIds (pen : Pen) : List UInt32 := pen.pending.map (·.2)

/-- The same pen with nothing pending. -/
def emptied (pen : Pen) : Pen := { pen with pending := [] }

/-- What is left when the pieces have been written, and the ids that are pending from `next` on been
recorded. -/
def finish (order : ByteOrder) (pen : Pen) (recorded : List UInt32) (next : Nat)
    (pieces : List Piece) : Output :=
  (pen.write order pieces).output (recorded ++ (pen.write order pieces).pendingIds.drop next)

variable {order : ByteOrder} {pen : Pen} {pieces : List Piece} {next : Nat} {ref : Reference}
  {id : UInt32}

theorem field_position (order : ByteOrder) (pen : Pen) (content : Field) :
    (pen.field order content).position =
      pen.position + (content.octets order pen.position).length := by
  rw [field, Field.length_octets, Nat.add_assoc]

theorem write_append (order : ByteOrder) (pen : Pen) (first second : List Piece) :
    pen.write order (first ++ second) = (pen.write order first).write order second :=
  List.foldl_append

theorem length_referentIds_number (ids : IdSupply) (pieces : List Piece) :
    (Piece.number ids pieces).referentIds.length = (Piece.references pieces).length := by
  rw [Piece.number_eq, IdSupply.length_draw]

theorem write_eq (order : ByteOrder) (pen : Pen) (pieces : List Piece) : pen.write order pieces =
    { octets := pen.octets ++ (Piece.number pen.ids pieces).layout.render order pen.position
      position :=
        pen.position + ((Piece.number pen.ids pieces).layout.render order pen.position).length
      ids := (Piece.number pen.ids pieces).ids
      pending := pen.pending ++
        (Piece.references pieces).zip (Piece.number pen.ids pieces).referentIds } := by
  induction pieces generalizing pen with
  | nil => simp [write]
  | cons piece pieces ih =>
    show (pen.piece order piece).write order pieces = _
    rw [ih]
    cases piece with
    | field content =>
      rw [Piece.number_field, Layout.render_cons, List.length_append, ← List.append_assoc,
        ← Nat.add_assoc, ← field_position]
      rfl
    | reference ref =>
      rw [Piece.number_reference, Layout.render_cons, List.length_append, ← List.append_assoc,
        ← Nat.add_assoc, ← field_position]
      simp [Pen.piece, announce, field]

theorem queue_write (order : ByteOrder) (pen : Pen) (pieces : List Piece) :
    (pen.write order pieces).queue = pen.queue ++ Piece.references pieces := by
  rw [write_eq, queue, List.map_append]
  exact congrArg _ (List.map_fst_zip (Nat.le_of_eq (length_referentIds_number _ _).symm))

theorem pendingIds_write (order : ByteOrder) (pen : Pen) (pieces : List Piece) :
    (pen.write order pieces).pendingIds = pen.pendingIds ++
      (Piece.number pen.ids pieces).referentIds := by
  rw [write_eq, pendingIds, List.map_append]
  exact congrArg _ (List.map_snd_zip (Nat.le_of_eq (length_referentIds_number _ _)))

theorem output_write_emptied (order : ByteOrder) (pen : Pen) (pieces : List Piece)
    (referentIds : List UInt32) :
    (pen.emptied.write order pieces).output referentIds =
      (pen.write order pieces).output referentIds := by
  rw [write_eq, write_eq]
  rfl

theorem drop_of_getElem? {α : Type} {as : List α} {n : Nat} {a : α} (h : as[n]? = some a) :
    as.drop n = a :: as.drop (n + 1) := by
  obtain ⟨hlt, rfl⟩ := List.getElem?_eq_some_iff.1 h
  exact List.drop_eq_getElem_cons hlt

theorem queue_drop (h : pen.pending[next]? = some (ref, id)) :
    pen.queue.drop next = ref :: pen.queue.drop (next + 1) := by
  apply drop_of_getElem?
  rw [queue, List.getElem?_map, h]
  rfl

theorem queue_drop_write (h : pen.pending[next]? = some (ref, id)) (order : ByteOrder)
    (written : List Piece) :
    (pen.write order written).queue.drop (next + 1) =
      pen.queue.drop (next + 1) ++ Piece.references written := by
  obtain ⟨hlt, _⟩ := List.getElem?_eq_some_iff.1 h
  rw [queue_write, List.drop_append_of_le_length]
  rwa [queue, List.length_map]

theorem finish_write (order : ByteOrder) (pen : Pen) (recorded : List UInt32) (next : Nat)
    (first second : List Piece) :
    (pen.write order first).finish order recorded next second =
      pen.finish order recorded next (first ++ second) := by
  rw [finish, finish, write_append]

theorem finish_next (h : pen.pending[next]? = some (ref, id)) (order : ByteOrder)
    (recorded : List UInt32) (pieces : List Piece) :
    pen.finish order (recorded ++ [id]) (next + 1) pieces =
      pen.finish order recorded next pieces := by
  have hid : pen.pendingIds[next]? = some id := by
    rw [pendingIds, List.getElem?_map, h]
    rfl
  obtain ⟨hlt, _⟩ := List.getElem?_eq_some_iff.1 hid
  have hlast : (pen.write order pieces).pendingIds[next]? = some id := by
    rw [pendingIds_write, List.getElem?_append_left hlt, hid]
  rw [finish, finish, drop_of_getElem? hlast, List.append_assoc]
  rfl

theorem finish_emptied (order : ByteOrder) (pen : Pen) (recorded : List UInt32)
    (pieces : List Piece) :
    pen.emptied.finish order (recorded ++ pen.pendingIds) 0 pieces =
      pen.finish order recorded 0 pieces := by
  rw [finish, finish, output_write_emptied, List.drop_zero, List.drop_zero, pendingIds_write,
    pendingIds_write, List.append_assoc]
  rfl

theorem finish_announce (order : ByteOrder) {pen : Pen} (hpen : pen.pending = []) (ref : Reference)
    (pieces : List Piece) :
    (pen.announce order).finish order [pen.ids.next] 0 pieces =
      pen.finish order [] 0 (.reference ref :: pieces) := by
  have hemptied : pen.announce order = (pen.piece order (.reference ref)).emptied := by
    simp [piece, emptied, announce, field, hpen]
  have hids : (pen.piece order (.reference ref)).pendingIds = [pen.ids.next] := by
    simp [piece, pendingIds, hpen]
  rw [hemptied, ← hids, ← List.nil_append (pendingIds _), finish_emptied]
  rfl

theorem finish_start (order : ByteOrder) (position : Nat) (ids : IdSupply) (pieces : List Piece) :
    (start position ids).finish order [] 0 pieces =
      (Piece.number ids pieces).output order position := by
  rw [finish, pendingIds_write, write_eq]
  rfl

end Pen

namespace Graph

variable {graph : Graph} {refs : List Reference} {groups : List (List Piece)}

/-! ### The worklist -/

/-- Follows the pending pointers from the index `next` on. -/
def workOff (graph : Graph) (order : ByteOrder) (pen : Pen) (next : Nat) (recorded : List UInt32) :
    Except WireError Output :=
  match _h : pen.pending[next]? with
  | none => .ok (pen.output recorded)
  | some (ref, id) =>
    match _hwritten : graph.referentPieces ref with
    | .error error => .error error
    | .ok written => graph.workOff order (pen.write order written) (next + 1) (recorded ++ [id])
termination_by graph.queueWeight (pen.queue.drop next)
decreasing_by
  have := queueWeight_references_lt _hwritten
  rw [Pen.queue_drop_write _h, Pen.queue_drop _h, queueWeight_cons, queueWeight_append]
  omega

/-- Writes a graph with a list of pending pointers. -/
def writeByWorklist (graph : Graph) (shape : Shape) (order : ByteOrder) (position : Nat)
    (ids : IdSupply) : Except WireError Output :=
  match shape, graph.root with
  | .pointer target, .pointer (some slot) => do
    let written ← graph.referentPieces ⟨slot, target⟩
    graph.workOff order (((Pen.start position ids).announce order).write order written) 0 [ids.next]
  | shape, root => do
    let written ← shape.pieces root
    graph.workOff order ((Pen.start position ids).write order written) 0 []

theorem workOff_none {pen : Pen} {next : Nat} (h : pen.pending[next]? = none) (order : ByteOrder)
    (recorded : List UInt32) :
    graph.workOff order pen next recorded = .ok (pen.output recorded) := by
  rw [workOff]
  split <;> simp_all

theorem workOff_some {pen : Pen} {next : Nat} {ref : Reference} {id : UInt32}
    (h : pen.pending[next]? = some (ref, id)) (order : ByteOrder) (recorded : List UInt32) :
    graph.workOff order pen next recorded = graph.referentPieces ref >>= fun written =>
      graph.workOff order (pen.write order written) (next + 1) (recorded ++ [id]) := by
  rw [workOff]
  split
  · simp_all
  · rename_i heq
    cases h.symm.trans heq
    split <;> simp_all [bind, Except.bind]

theorem workOff_eq (graph : Graph) (order : ByteOrder) (pen : Pen) (next : Nat)
    (recorded : List UInt32) :
    graph.workOff order pen next recorded =
      (graph.drain (pen.queue.drop next)).map (pen.finish order recorded next) := by
  -- The queue is what lies behind the index, so the pen and the index move on along with it.
  induction hqueue : pen.queue.drop next using graph.drain_induction
    generalizing pen next recorded with
  | nil =>
    have hnone : pen.pending[next]? = none := by
      have hle := List.drop_eq_nil_iff.1 hqueue
      rw [Pen.queue, List.length_map] at hle
      exact List.getElem?_eq_none hle
    have hids : pen.pendingIds.drop next = [] := by
      have hle := List.getElem?_eq_none_iff.1 hnone
      rwa [List.drop_eq_nil_iff, Pen.pendingIds, List.length_map]
    rw [workOff_none hnone, drain]
    show _ = Except.ok (pen.output (recorded ++ pen.pendingIds.drop next))
    rw [hids, List.append_nil]
  | cons ref queue ih =>
    have hsome : ∃ id, pen.pending[next]? = some (ref, id) := by
      have hhead : pen.queue[next]? = some ref := by
        rw [← List.head?_drop, hqueue]
        rfl
      rw [Pen.queue, List.getElem?_map, Option.map_eq_some_iff] at hhead
      obtain ⟨⟨_, id⟩, hpending, rfl⟩ := hhead
      exact ⟨id, hpending⟩
    obtain ⟨id, hsome⟩ := hsome
    have hqueue_next : pen.queue.drop (next + 1) = queue :=
      (List.cons_eq_cons.1 ((Pen.queue_drop hsome).symm.trans hqueue)).2
    rw [workOff_some hsome, drain_cons_bind]
    cases hwritten : graph.referentPieces ref with
    | error error => rfl
    | ok written =>
      have hlater : (pen.write order written).queue.drop (next + 1) =
          queue ++ Piece.references written := by
        rw [Pen.queue_drop_write hsome, hqueue_next]
      show graph.workOff order (pen.write order written) (next + 1) (recorded ++ [id]) =
        ((graph.drain (queue ++ Piece.references written)).map (written ++ ·)).map _
      rw [ih written hwritten _ _ _ hlater]
      cases graph.drain (queue ++ Piece.references written) with
      | error error => rfl
      | ok later =>
        show Except.ok (Pen.finish _ _ _ _ _) = Except.ok (Pen.finish _ _ _ _ _)
        rw [Pen.finish_write, Pen.finish_next hsome]

/-! ### Levels -/

/-- Writes the referents of references in order. -/
def writeLevel (graph : Graph) (order : ByteOrder) : Pen → List Reference → Except WireError Pen
  | pen, [] => .ok pen
  | pen, ref :: level => do
    let written ← graph.referentPieces ref
    graph.writeLevel order (pen.write order written) level

theorem writeLevel_eq (graph : Graph) (order : ByteOrder) (pen : Pen) (level : List Reference) :
    graph.writeLevel order pen level =
      (level.mapM graph.referentPieces).map fun groups => pen.write order groups.flatten := by
  induction level generalizing pen with
  | nil => rfl
  | cons ref level ih =>
    rw [writeLevel, List.mapM_cons]
    cases graph.referentPieces ref with
    | error error => rfl
    | ok written =>
      show graph.writeLevel order (pen.write order written) level = _
      rw [ih]
      cases level.mapM graph.referentPieces with
      | error error => rfl
      | ok groups =>
        exact congrArg Except.ok (Pen.write_append order pen written groups.flatten).symm

theorem queueWeight_level (h : refs.mapM graph.referentPieces = .ok groups) :
    graph.queueWeight (Piece.references groups.flatten) + refs.length ≤ graph.queueWeight refs := by
  induction refs generalizing groups with
  | nil =>
    cases h
    exact Nat.le_refl _
  | cons ref refs ih =>
    obtain ⟨written, others, hwritten, hothers, rfl⟩ := mapM_cons_eq_ok_iff.1 h
    have hfirst := queueWeight_references_lt hwritten
    have hlater := ih hothers
    rw [List.flatten_cons, Piece.references_append, queueWeight_append, queueWeight_cons,
      List.length_cons]
    omega

theorem writeLevel_eq_ok {order : ByteOrder} {pen later : Pen}
    (h : graph.writeLevel order pen.emptied pen.queue = .ok later) :
    ∃ groups, pen.queue.mapM graph.referentPieces = .ok groups ∧
      later = pen.emptied.write order groups.flatten ∧
      later.queue = Piece.references groups.flatten := by
  rw [writeLevel_eq] at h
  obtain ⟨groups, hgroups, rfl⟩ := map_eq_ok_iff.1 h
  exact ⟨groups, hgroups, rfl, Pen.queue_write _ _ _⟩

/-- Writes the referents of the pending pointers, then those of the pointers in them, and so on. -/
def writeLevels (graph : Graph) (order : ByteOrder) (pen : Pen) (recorded : List UInt32) :
    Except WireError Output :=
  if _hqueue : pen.queue = [] then
    .ok (pen.output recorded)
  else
    match _h : graph.writeLevel order pen.emptied pen.queue with
    | .error error => .error error
    | .ok later => graph.writeLevels order later (recorded ++ pen.pendingIds)
termination_by graph.queueWeight pen.queue
decreasing_by
  obtain ⟨groups, hgroups, _, hlater⟩ := writeLevel_eq_ok _h
  have hweight := queueWeight_level hgroups
  have hlength := List.length_pos_of_ne_nil _hqueue
  rw [hlater]
  omega

/-- Writes a graph level by level. -/
def writeByLevels (graph : Graph) (shape : Shape) (order : ByteOrder) (position : Nat)
    (ids : IdSupply) : Except WireError Output := do
  let written ← shape.pieces graph.root
  graph.writeLevels order ((Pen.start position ids).write order written) []

theorem drain_append (graph : Graph) (level later : List Reference) :
    graph.drain (level ++ later) = level.mapM graph.referentPieces >>= fun groups =>
      (graph.drain (later ++ Piece.references groups.flatten)).map (groups.flatten ++ ·) := by
  induction level generalizing later with
  | nil =>
    show graph.drain later = (graph.drain (later ++ [])).map ([] ++ ·)
    rw [List.append_nil]
    cases graph.drain later <;> rfl
  | cons ref level ih =>
    rw [List.cons_append, drain_cons_bind, List.mapM_cons]
    cases graph.referentPieces ref with
    | error error => rfl
    | ok written =>
      show (graph.drain (level ++ later ++ Piece.references written)).map _ = _
      rw [List.append_assoc, ih]
      cases level.mapM graph.referentPieces with
      | error error => rfl
      | ok groups =>
        show ((graph.drain (later ++ Piece.references written ++
            Piece.references groups.flatten)).map _).map _ =
          (graph.drain (later ++ Piece.references (written ++ groups.flatten))).map _
        rw [Piece.references_append, List.append_assoc]
        cases graph.drain
          (later ++ (Piece.references written ++ Piece.references groups.flatten)) with
        | error error => rfl
        | ok pieces => exact congrArg Except.ok (List.append_assoc _ _ _).symm

theorem writeLevels_eq (graph : Graph) (order : ByteOrder) (pen : Pen) (recorded : List UInt32) :
    graph.writeLevels order pen recorded =
      (graph.drain pen.queue).map (pen.finish order recorded 0) := by
  induction pen, recorded using writeLevels.induct graph order with
  | case1 pen recorded hqueue =>
    have hids : pen.pendingIds = [] := by
      rw [Pen.pendingIds, List.map_eq_nil_iff]
      exact List.map_eq_nil_iff.1 hqueue
    rw [writeLevels, dif_pos hqueue, hqueue, drain]
    show _ = Except.ok (pen.output (recorded ++ pen.pendingIds))
    rw [hids, List.append_nil]
  | case2 pen recorded hqueue error herror =>
    have hlevel : pen.queue.mapM graph.referentPieces = .error error := by
      rwa [writeLevel_eq, map_eq_error_iff] at herror
    have hdrain : graph.drain pen.queue = .error error := by
      rw [← List.append_nil pen.queue, drain_append, hlevel]
      rfl
    rw [writeLevels, dif_neg hqueue, hdrain]
    split <;> simp_all
    rfl
  | case3 pen recorded hqueue later hlater ih =>
    have hstep : graph.writeLevels order pen recorded =
        graph.writeLevels order later (recorded ++ pen.pendingIds) := by
      rw [writeLevels, dif_neg hqueue]
      split <;> simp_all
    obtain ⟨groups, hgroups, rfl, hlater_queue⟩ := writeLevel_eq_ok hlater
    -- The whole queue is one level, and nothing is behind it.
    have hdrain : graph.drain pen.queue =
        (graph.drain (Piece.references groups.flatten)).map (groups.flatten ++ ·) := by
      rw [← List.append_nil pen.queue, drain_append, hgroups]
      rfl
    rw [hstep, ih, hlater_queue, hdrain]
    cases graph.drain (Piece.references groups.flatten) with
    | error error => rfl
    | ok pieces =>
      show Except.ok (Pen.finish _ _ _ _ _) = Except.ok (Pen.finish _ _ _ _ _)
      rw [Pen.finish_write, Pen.finish_emptied]

/-! ### The whole graph -/

theorem encode_output (graph : Graph) (shape : Shape) (order : ByteOrder) (position : Nat)
    (ids : IdSupply) :
    (graph.encode shape ids).map (·.output order position) =
      shape.pieces graph.root >>= fun written =>
      (graph.drain (Piece.references written)).map fun later =>
        (Pen.start position ids).finish order [] 0 (written ++ later) := by
  rw [encode, pieces]
  cases shape.pieces graph.root with
  | error error => rfl
  | ok written =>
    show ((graph.drain (Piece.references written) >>= fun later =>
      .ok (written ++ later)).map _).map _ = (graph.drain (Piece.references written)).map _
    cases graph.drain (Piece.references written) with
    | error error => rfl
    | ok later =>
      exact congrArg Except.ok (Pen.finish_start order position ids (written ++ later)).symm

theorem writeByLevels_eq (graph : Graph) (shape : Shape) (order : ByteOrder) (position : Nat)
    (ids : IdSupply) :
    graph.writeByLevels shape order position ids =
      (graph.encode shape ids).map (·.output order position) := by
  rw [encode_output, writeByLevels]
  refine bind_congr fun written => ?_
  rw [writeLevels_eq, Pen.queue_write]
  exact congrArg (Except.map · _) (funext fun later => Pen.finish_write order _ [] 0 written later)

theorem writeByWorklist_eq (graph : Graph) (shape : Shape) (order : ByteOrder) (position : Nat)
    (ids : IdSupply) :
    graph.writeByWorklist shape order position ids =
      (graph.encode shape ids).map (·.output order position) := by
  rw [encode_output]
  unfold writeByWorklist
  split
  · rename_i target slot hroot
    rw [hroot]
    show _ = (graph.drain [⟨slot, target⟩]).map fun later =>
      (Pen.start position ids).finish order [] 0 (.reference ⟨slot, target⟩ :: later)
    rw [drain_cons_bind]
    cases graph.referentPieces ⟨slot, target⟩ with
    | error error => rfl
    | ok written =>
      show graph.workOff order (((Pen.start position ids).announce order).write order written) 0
        [ids.next] = ((graph.drain (Piece.references written)).map (written ++ ·)).map _
      rw [workOff_eq, List.drop_zero, Pen.queue_write]
      show (graph.drain (Piece.references written)).map _ = _
      cases graph.drain (Piece.references written) with
      | error error => rfl
      | ok later =>
        refine congrArg Except.ok ?_
        rw [Pen.finish_write]
        exact Pen.finish_announce order rfl ⟨slot, target⟩ (written ++ later)
  · refine bind_congr fun written => ?_
    rw [workOff_eq, List.drop_zero, Pen.queue_write]
    exact congrArg (Except.map · _) (funext fun later =>
      Pen.finish_write order _ [] 0 written later)

/-- A graph is written breadth-first: a writer with a list of pending pointers and a writer that
goes level by level leave the same octets, position, ids and counter, those of the graph as it is
encoded. The ids are one for each pointer that is written, each four more than the one before, and
the counter is left behind the last, unless it runs over. -/
theorem encode_breadthFirst (graph : Graph) (shape : Shape) (order : ByteOrder) (position : Nat)
    (ids : IdSupply) :
    graph.writeByWorklist shape order position ids = graph.writeByLevels shape order position ids ∧
    graph.writeByLevels shape order position ids =
      (graph.encode shape ids).map (·.output order position) ∧
    ∀ encoded, graph.encode shape ids = .ok encoded →
      ∃ tree, graph.tree? shape graph.root = some tree ∧
        encoded.referentIds.length = tree.pointerCount ∧
        (ids.next.toNat + 4 * tree.pointerCount ≤ 2 ^ 32 →
          encoded.referentIds = (List.range tree.pointerCount).map fun k =>
            .ofNat (ids.next.toNat + 4 * k)) ∧
        (ids.next.toNat + 4 * tree.pointerCount < 2 ^ 32 →
          encoded.ids.next.toNat = ids.next.toNat + 4 * tree.pointerCount) := by
  refine ⟨(writeByWorklist_eq ..).trans (writeByLevels_eq ..).symm, writeByLevels_eq ..,
    fun encoded hencode => ?_⟩
  obtain ⟨written, served, hwritten, hserves, hencoded⟩ := serves_of_encode hencode
  obtain ⟨tree, htree⟩ := exists_tree_of_serves hwritten hserves
  have hlength := length_references_eq hencode htree
  rw [Piece.number_eq] at hencoded
  subst hencoded
  rw [IdSupply.length_draw] at hlength
  refine ⟨tree, htree, ?_, fun hover => ?_, fun hover => ?_⟩
  · rw [IdSupply.length_draw, hlength]
  · rw [hlength]
    exact IdSupply.draw_eq_range hover
  · rw [hlength]
    exact IdSupply.draw_next_toNat hover

/-- The pointer inside the first referent is followed behind the second referent. -/
theorem encode_breadthFirst_nested :
    let shape : Shape := .struct [.pointer (.struct [.u16, .pointer .u8]), .pointer .u8]
    let graph : Graph := ofValues (.struct [.pointer (some 1), .pointer (some 2)])
      [.u8 0xCC, .struct [.u16 0xAAAA, .pointer (some 0)], .u8 0xBB]
    let octets := [0, 0, 0, 0, 2, 0, 0, 0, 2, 0, 4, 0xAA, 0xAA, 0, 0, 0, 2, 0, 8, 0xBB, 0xCC]
    graph.writeByLevels shape .big 1 .fresh =
      .ok ⟨octets, 22, [0x20000, 0x20004, 0x20008], ⟨0x2000C⟩⟩ := by
  intro shape graph octets
  have hencode : (graph.encode shape .fresh).map (·.output .big 1) =
      .ok ⟨octets, 22, [0x20000, 0x20004, 0x20008], ⟨0x2000C⟩⟩ := by
    unfold shape graph octets
    cbv
  rw [(encode_breadthFirst graph shape .big 1 .fresh).2.1, hencode]

end Graph

end OrpcWire
