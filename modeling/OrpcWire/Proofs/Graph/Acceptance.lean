import OrpcWire.Proofs.Graph.Limit
import OrpcWire.Proofs.Graph.Pointers

/-!
# Which written graphs are accepted

Where a graph has been written, a reader with a limit on slots accepts it exactly if no array in its
tree has more than `elementLimit` elements and the tree has no more pointers than the limit, and
then it finds the graph of that tree (`Graph.run_read_written_iff`).

That these conditions suffice is known from `Shape.read_delivers`. That they are necessary is shown
here: `Requires` collects what must be the case when a reader accepts the pieces of a value. It runs
through the same constructs, and at each of them what was accepted so far has been delivered, so the
reader stands where the next part begins.
-/

namespace OrpcWire

variable {α β γ : Type}

/-- If the reader accepts where the pieces stand, then `fine` holds. -/
def Requires (reader : Nat → Reader WireError (Found α)) (fine : Prop)
    (written : List Piece) : Prop :=
  ∀ taken ids order cursor next result, ids.length = (Piece.references written).length →
    (∀ id ∈ ids, id ≠ nullId) → (Piece.withIds ids written).Between order cursor next →
      (reader taken).run order cursor = .ok result → fine

theorem run_readCount {order : ByteOrder} {cursor next : Cursor} {n : Nat} (hn : n < UInt32.size)
    (h : Layout.Between order [.u32 (.ofNat n)] cursor next) :
    readCount.run order cursor =
      if n ≤ elementLimit then .ok (n, next) else .error (.limitExceeded n elementLimit) := by
  have hword : (UInt32.ofNat n).toNat = n := UInt32.toNat_ofNat_of_lt' hn
  rw [readCount, Reader.u32_exact.run_bind _ h, hword]
  split <;> rfl

namespace Requires

variable {reader : Nat → Reader WireError (Found α)} {fine fine' : Prop} {written : List Piece}

theorem trivial (h : fine) : Requires reader fine written := fun _ _ _ _ _ _ _ _ _ _ => h

theorem imp (h : Requires reader fine written) (himp : fine → fine') :
    Requires reader fine' written :=
  fun taken ids order cursor next result hlength hids hbetween heq =>
    himp (h taken ids order cursor next result hlength hids hbetween heq)

theorem bind {field : Reader WireError γ} {valid : γ → Prop} {layout : γ → Layout}
    (h : field.ExactOn valid layout) {next : γ → Nat → Reader WireError (Found α)} (c : γ)
    (hvalid : valid c) (hnext : Requires (next c) fine written) :
    Requires (fun taken => field >>= fun c => next c taken) fine
      ((layout c).map .field ++ written) := by
  intro taken ids order cursor last result hlength hids hbetween heq
  rw [Piece.withIds_fields_append, Layout.between_append] at hbetween
  obtain ⟨middle, hfields, hbetween⟩ := hbetween
  rw [Piece.references_append, Piece.references_fields, List.nil_append] at hlength
  rw [Reader.run_bind, (h order cursor c middle).2 ⟨hvalid, hfields⟩] at heq
  exact hnext taken ids order middle last result hlength hids hbetween heq

theorem counted {n : Nat} (hn : n < UInt32.size) {next : Nat → Nat → Reader WireError (Found α)}
    (hnext : n ≤ elementLimit → Requires (next n) fine written) :
    Requires (fun taken => readCount >>= fun count => next count taken) (n ≤ elementLimit ∧ fine)
      (.field (.u32 (.ofNat n)) :: written) := by
  intro taken ids order cursor last result hlength hids hbetween heq
  obtain ⟨middle, hword, hbetween⟩ := Layout.between_cons.1 hbetween
  rw [Reader.run_bind, run_readCount hn (Layout.between_singleton.2 hword)] at heq
  by_cases hle : n ≤ elementLimit
  · rw [if_pos hle] at heq
    exact ⟨hle, hnext hle taken ids order middle last result hlength hids hbetween heq⟩
  · rw [if_neg hle] at heq
    cases heq

theorem map (h : Requires reader fine written) (f : α → β) :
    Requires (fun taken => reader taken >>= fun found => pure (found.map f)) fine written := by
  intro taken ids order cursor next result hlength hids hbetween heq
  obtain ⟨found, middle, hfound, _⟩ := Reader.run_bind_eq_ok.1 heq
  exact h taken ids order cursor next (found, middle) hlength hids hbetween hfound

theorem cons {others : Nat → Reader WireError (Found (List α))} {value : Nat → α}
    {first second : List Piece} (h : Requires reader fine first)
    (hdelivers : fine → Delivers reader value first) (hothers : Requires others fine' second) :
    Requires (fun taken => do
      let first ← reader taken
      let others ← others (taken + first.announced.length)
      return ⟨first.value :: others.value, first.announced ++ others.announced⟩)
      (fine ∧ fine') (first ++ second) := by
  intro taken ids order cursor next result hlength hids hbetween heq
  rw [Piece.references_append, List.length_append] at hlength
  obtain ⟨ids1, ids2, middle, rfl, hids1, hids2, hbetween1, hbetween2⟩ :=
    Piece.exists_between_append hlength rfl hbetween
  have hne : ∀ id ∈ ids1, id ≠ nullId := fun id hid => hids id (List.mem_append_left _ hid)
  obtain ⟨found, middle', hfound, heq⟩ := Reader.run_bind_eq_ok.1 heq
  have hfine : fine := h taken ids1 order cursor middle (found, middle') hids1 hne hbetween1 hfound
  -- What was accepted has been delivered, so the others are read where they stand.
  cases (hdelivers hfine taken ids1 order cursor middle hids1 hne hbetween1).symm.trans hfound
  obtain ⟨later, last, hlater, _⟩ := Reader.run_bind_eq_ok.1 heq
  exact ⟨hfine, hothers _ ids2 order middle next (later, last) hids2
    (fun id hid => hids id (List.mem_append_right _ hid)) hbetween2 hlater⟩

end Requires

namespace Shape

variable {element : Shape} {values : List Value} {written : List Piece}

theorem requires_row (htake : element.elementsTake = true)
    (h : Rows (fun value written => element.pieces value = .ok written ∧
      Requires (read none element) (value.arraysWithin elementLimit = true) written)
        values written) :
    Requires (readRow (read none element) values.length)
      (Value.allWithin elementLimit values = true) written := by
  induction h with
  | nil => exact .trivial rfl
  | cons hfirst _ ih =>
    have hrow := hfirst.2.cons (fun hwithin => read_delivers hfirst.1 htake hwithin) ih
    refine hrow.imp ?_
    rintro ⟨hvalue, hvalues⟩
    rw [Value.allWithin, hvalue, hvalues]
    rfl

theorem requires_elements (htake : element.elementsTake = true)
    (h : Rows (fun value written => element.pieces value = .ok written ∧
      Requires (read none element) (value.arraysWithin elementLimit = true) written)
        values written) :
    Requires (readElements (read none element) values.length)
      (Value.allWithin elementLimit values = true) written := by
  intro taken ids order cursor next result hlength hids hbetween heq
  rw [run_readElements] at heq
  split at heq
  · exact requires_row htake h taken ids order cursor next result hlength hids hbetween heq
  · cases heq

theorem arraysWithin_array {elements : List Value} (h : elements.length ≤ elementLimit)
    (helements : Value.allWithin elementLimit elements = true) :
    (Value.array elements).arraysWithin elementLimit = true := by
  rw [Value.arraysWithin, helements, decide_eq_true h]
  rfl

theorem read_requires {shape : Shape} {value : Value} (h : shape.pieces value = .ok written)
    (htake : shape.elementsTake = true) :
    Requires (read none shape) (value.arraysWithin elementLimit = true) written := by
  refine pieces_induction
    (P := fun shape value written => shape.elementsTake = true →
      Requires (read none shape) (value.arraysWithin elementLimit = true) written)
    (Q := fun members values written =>
      members.length = values.length → allElementsTake members = true →
      ∀ count : Option Nat, count.isSome = isConformant members → CountsLast count values →
      (∀ n, count = some n → n ≤ elementLimit) →
      Requires (readMembers none members count)
      (Value.allWithin elementLimit values = true) written)
    ?leaf ?null ?pointer ?array ?struct ?nil ?tail ?cons shape value written h htake
  case leaf => rintro _ _ _ ⟨⟩ _ <;> exact .trivial rfl
  case null => exact fun _ _ => .trivial rfl
  case pointer => exact fun _ _ _ => .trivial rfl
  case array =>
    intro element values written hlt hrows htake
    rw [elementsTake, Bool.and_eq_true] at htake
    have helements := requires_elements htake.2 (hrows.imp fun value _ _ h => ⟨h.1, h.2 htake.2⟩)
    have hcounted : Requires (fun taken => readCount >>= fun count =>
        readElements (read none element) count taken >>= fun found =>
        pure (found.map Value.array))
        (values.length ≤ elementLimit ∧ Value.allWithin elementLimit values = true)
        (.field (.u32 (.ofNat values.length)) :: written) :=
      Requires.counted hlt fun _ => helements.map Value.array
    simp only [read]
    exact hcounted.imp fun h => arraysWithin_array h.1 h.2
  case struct =>
    intro members values count written hlength hcount hmembers htake
    obtain ⟨count, hconformant, hlast, rfl⟩ := hoistedCount_eq_ok_iff.1 hcount
    have hcontent : (∀ n, count = some n → n ≤ elementLimit) →
        Requires (fun taken => Reader.align (alignment (.struct members)) >>= fun _ =>
          readMembers none members count taken >>= fun found => pure (found.map Value.struct))
          ((Value.struct values).arraysWithin elementLimit = true)
          (.field (.align (alignment (.struct members))) :: written) := by
      intro hle
      have hmembers := hmembers hlength htake count hconformant (fun n hn => (hlast n hn).2) hle
      exact Requires.bind (Reader.align_exact _).exactOn () True.intro (hmembers.map Value.struct)
    simp only [read, readHoistedCount, ← hconformant]
    cases count with
    | none => exact hcontent fun n hn => by cases hn
    | some n =>
      simp only [Option.isSome_some, if_true, map_eq_pure_bind, bind_assoc, pure_bind]
      refine (Requires.counted (hlast n rfl).1 fun hle => hcontent fun _ hn => ?_).imp And.right
      cases hn
      exact hle
  case nil => exact fun _ _ _ _ _ _ => .trivial rfl
  case tail =>
    intro element values written hrows _ htake count hcount hlast hle
    obtain ⟨n, rfl⟩ := Option.isSome_iff_exists.1 (hcount.trans rfl)
    obtain ⟨elements, hvalues, rfl⟩ := hlast n rfl
    cases hvalues
    rw [allElementsTake, elementsTake, Bool.and_eq_true, Bool.and_eq_true] at htake
    have helements :=
      requires_elements htake.1.2 (hrows.imp fun value _ _ h => ⟨h.1, h.2 htake.1.2⟩)
    simp only [readMembers]
    refine (helements.map ([Value.array ·])).imp fun h => ?_
    rw [Value.allWithin, arraysWithin_array (hle _ rfl) h]
    rfl
  case cons =>
    intro member members value values first second hmember hpieces hfirst hsecond hlength htake
      count hcount hlast hle
    rw [allElementsTake, Bool.and_eq_true] at htake
    rw [isConformant_cons hmember] at hcount
    have hrest : members.length = values.length := Nat.succ_inj.1 hlength
    have hlast_rest : CountsLast count values := hlast.tail hrest hcount
    have hboth := (hfirst htake.1).cons (fun hwithin => read_delivers hpieces htake.1 hwithin)
      (hsecond hrest htake.2 count hcount hlast_rest hle)
    have hwithin : Requires _ (Value.allWithin elementLimit (value :: values) = true)
        (first ++ second) := hboth.imp fun h => by
      rw [Value.allWithin, h.1, h.2]
      rfl
    intro taken
    rw [readMembers_cons none hmember]
    exact hwithin taken

end Shape

/-! ### The queue -/

variable {graph : Graph} {queue : List Reference} {served : List Served} {shape : Shape}
  {value : Value} {written : List Piece} {limit : Nat} {order : ByteOrder}

theorem Serves.elementsTake (h : Serves graph queue served)
    (hqueue : ∀ ref ∈ queue, ref.target.elementsTake = true) :
    ∀ one ∈ served, one.ref.target.elementsTake = true := by
  induction h with
  | nil => simp
  | cons _ hwritten _ ih =>
    obtain ⟨htake, hothers⟩ := List.forall_mem_cons.1 hqueue
    refine List.forall_mem_cons.2 ⟨htake, ih ?_⟩
    exact List.forall_mem_append.2 ⟨hothers, Shape.elementsTake_of_pieces hwritten htake⟩

theorem Serves.within_of_readReferents (h : Serves graph queue served)
    (htake : ∀ one ∈ served, one.ref.target.elementsTake = true) {queueIds ids : List UInt32}
    {taken : Nat} {cursor last : Cursor} {result : List Referent × Cursor}
    (hqueueIds : queueIds.length = queue.length)
    (hids : ids.length = (Piece.references (Served.pieces served)).length)
    (hne : ∀ id ∈ ids, id ≠ nullId)
    (hbetween : (Piece.withIds ids (Served.pieces served)).Between order cursor last)
    (hread : readReferents none order (Announcement.ofReferences queueIds queue) taken cursor =
      .ok result) :
    ∀ one ∈ served, one.value.arraysWithin elementLimit = true := by
  induction h generalizing queueIds ids taken cursor result with
  | nil => simp
  | @cons ref queue value written served _ hwritten _ ih =>
    obtain ⟨id, queueIds, rfl⟩ := List.exists_cons_of_length_eq_add_one hqueueIds
    rw [Served.pieces_cons, Piece.references_append, List.length_append] at hids
    rw [Served.pieces_cons] at hbetween
    obtain ⟨ids1, ids2, middle, rfl, hids1, hids2, hbetween1, hbetween2⟩ :=
      Piece.exists_between_append hids rfl hbetween
    obtain ⟨htake, htake_others⟩ := List.forall_mem_cons.1 htake
    have hqueue : queueIds.length = queue.length := Nat.succ_inj.1 hqueueIds
    have hne1 : ∀ id ∈ ids1, id ≠ nullId := fun id hid => hne id (List.mem_append_left _ hid)
    rw [show Announcement.ofReferences (id :: queueIds) (ref :: queue) =
      ⟨id, ref.target⟩ :: Announcement.ofReferences queueIds queue from rfl,
      readReferents_cons_bind] at hread
    obtain ⟨found, hfound, hread⟩ := bind_eq_ok_iff.1 hread
    have hwithin : value.arraysWithin elementLimit = true :=
      Shape.read_requires hwritten htake taken ids1 order cursor middle found hids1 hne1
        hbetween1 hfound
    cases (Shape.read_delivers hwritten htake hwithin taken ids1 order cursor middle hids1 hne1
      hbetween1).symm.trans hfound
    obtain ⟨others, hothers, _⟩ := bind_eq_ok_iff.1 hread
    rw [← Announcement.ofReferences_append hqueue] at hothers
    have hnext : (queueIds ++ ids1).length = (queue ++ Piece.references written).length := by
      rw [List.length_append, List.length_append, hqueue, hids1]
    refine List.forall_mem_cons.2 ⟨hwithin, ih htake_others hnext hids2 ?_ hbetween2 hothers⟩
    exact fun id hid => hne id (List.mem_append_right _ hid)

theorem Serves.trees_within (h : Serves graph queue served)
    (hwithin : ∀ one ∈ served, one.value.arraysWithin limit = true) :
    ∀ one ∈ served, ∃ tree, graph.treeAt? one.ref = some tree ∧ tree.arraysWithin limit = true := by
  refine h.forall_ref
    (P := fun ref => ∃ tree, graph.treeAt? ref = some tree ∧ tree.arraysWithin limit = true)
    fun one hone hrefs => ?_
  obtain ⟨tree, htree⟩ := h.exists_tree one hone
  refine ⟨tree, htree, ?_⟩
  obtain ⟨value, hvalue, htree⟩ := Option.bind_eq_some_iff.1 htree
  cases (h.value?_eq one hone).symm.trans hvalue
  exact (Graph.tree_within_iff (h.pieces_eq one hone) htree).2 ⟨hwithin one hone, hrefs⟩

/-! ### The whole graph -/

namespace Graph

variable {tree : Tree} {ids : List UInt32} {cursor last : Cursor}

/-- The graph that a reader makes of what has been served under the given ids. -/
def readBack (graph : Graph) (ids : List UInt32) (queue : List Reference)
    (served : List Served) : Graph :=
  ⟨graph.root.numbered 0, Served.referents ids queue.length served⟩

theorem readBack_tree? (hwritten : shape.pieces graph.root = .ok written)
    (hserves : Serves graph (Piece.references written) served) (ids : List UInt32) :
    (graph.readBack ids (Piece.references written) served).tree? shape (graph.root.numbered 0) =
      graph.tree? shape graph.root := by
  have hroot : Named (slotOf graph (served.map (·.ref))) 0 graph.root.slots := by
    rw [Shape.slots_of_pieces hwritten]
    exact hserves.named.1
  rw [readBack, ← (hserves.hom (graph.root.numbered 0) ids).tree?_eq,
    Value.mapSlots_numbered _ _ hroot]

theorem run_read_served_iff (hwritten : shape.pieces graph.root = .ok written)
    (hserves : Serves graph (Piece.references written) served) (htake : shape.elementsTake = true)
    (htree : graph.tree? shape graph.root = some tree)
    (hids : ids.length = (Piece.references (written ++ Served.pieces served)).length)
    (hne : ∀ id ∈ ids, id ≠ nullId)
    (hbetween : (Piece.withIds ids (written ++ Served.pieces served)).Between order cursor last)
    {answer : Graph × Cursor} :
    (read none shape).run order cursor = .ok answer ↔
      tree.arraysWithin elementLimit = true ∧ answer =
        (graph.readBack ids (Piece.references written) served, last) := by
  constructor
  · intro hread
    have hwithin : tree.arraysWithin elementLimit = true := by
      rw [Piece.references_append, List.length_append] at hids
      obtain ⟨ids1, ids2, middle, rfl, hids1, hids2, hbetween1, hbetween2⟩ :=
        Piece.exists_between_append hids rfl hbetween
      obtain ⟨hne1, hne2⟩ := List.forall_mem_append.1 hne
      obtain ⟨found, hfound, hothers⟩ := bind_eq_ok_iff.1 hread
      have hvalue : graph.root.arraysWithin elementLimit = true :=
        Shape.read_requires hwritten htake 0 ids1 order cursor middle found hids1 hne1
          hbetween1 hfound
      cases (Shape.read_delivers hwritten htake hvalue 0 ids1 order cursor middle hids1 hne1
        hbetween1).symm.trans hfound
      obtain ⟨referents, hreferents, _⟩ := bind_eq_ok_iff.1 hothers
      have hserved := hserves.within_of_readReferents
        (hserves.elementsTake (Shape.elementsTake_of_pieces hwritten htake)) hids1 hids2 hne2
          hbetween2 hreferents
      have hrefs : graph.ReferencesWithin elementLimit written :=
        hserves.forall_queue (hserves.trees_within hserved)
      exact (tree_within_iff hwritten htree).2 ⟨hvalue, hrefs⟩
    have hserved := read_of_serves hwritten hserves htake htree hwithin hids hne hbetween
    cases hserved.symm.trans hread
    exact ⟨hwithin, rfl⟩
  · rintro ⟨hwithin, rfl⟩
    exact read_of_serves hwritten hserves htake htree hwithin hids hne hbetween

theorem tree_within_of_read (htake : shape.elementsTake = true) {limit : Option Nat}
    {order : ByteOrder} {cursor next : Cursor}
    (h : (read limit shape).run order cursor = .ok (graph, next))
    (htree : graph.tree? shape graph.root = some tree) : tree.arraysWithin elementLimit = true := by
  have hunlimited : (read none shape).run order cursor = .ok (graph, next) := by
    cases limit with
    | none => exact h
    | some limit => exact (run_read_some_eq_ok_iff.1 h).1
  obtain ⟨pieces, account⟩ := account_of_read h
  obtain ⟨written, served, hwritten, hserves, rfl⟩ := serves_of_pieces account.pieces_eq
  have hids : (graph.referents.map (·.id)).length =
      (Piece.references (written ++ Served.pieces served)).length := by
    rw [List.length_map, account.length_references]
  exact ((run_read_served_iff hwritten hserves htake htree hids account.ids_ne_null
    account.between).1 hunlimited).1

theorem run_read_ids_iff (hwritten : shape.pieces graph.root = .ok written)
    (hserves : Serves graph (Piece.references written) served) (htake : shape.elementsTake = true)
    (htree : graph.tree? shape graph.root = some tree)
    (hids : ids.length = (Piece.references (written ++ Served.pieces served)).length)
    (hne : ∀ id ∈ ids, id ≠ nullId) :
    ∃ decoded : Graph, decoded.tree? shape decoded.root = some tree ∧
      decoded.referents.map (·.id) = ids ∧ ∀ order cursor last,
        (Piece.withIds ids (written ++ Served.pieces served)).Between order cursor last →
        ∀ limit answer, (read (some limit) shape).run order cursor = .ok answer ↔
          (tree.arraysWithin elementLimit = true ∧ tree.pointerCount ≤ limit) ∧
          answer = (decoded, last) := by
  have hcount := length_references_of_serves hwritten hserves htree
  have hserved : ids.length = served.length := by
    rw [hids, Piece.references_append, ← hserves.refs_eq, List.length_map]
  have hreferents := Serves.map_id_referents hserved (Piece.references written).length
  refine ⟨graph.readBack ids (Piece.references written) served,
    (readBack_tree? hwritten hserves ids).trans htree, hreferents, ?_⟩
  intro order cursor last hbetween limit answer
  have hslots : (graph.readBack ids (Piece.references written) served).referents.length =
      tree.pointerCount := by
    rw [← hcount, ← hids]
    exact (List.length_map _).symm.trans (congrArg List.length hreferents)
  obtain ⟨found, next⟩ := answer
  rw [run_read_some_eq_ok_iff, run_read_served_iff hwritten hserves htake htree hids hne hbetween]
  constructor
  · rintro ⟨⟨hwithin, heq⟩, hle⟩
    cases heq
    exact ⟨⟨hwithin, hslots ▸ hle⟩, rfl⟩
  · rintro ⟨⟨hwithin, hle⟩, heq⟩
    cases heq
    exact ⟨⟨hwithin, rfl⟩, hslots ▸ hle⟩

/-- A graph that has been written is accepted within the same limits, under the ids that were given
out. -/
theorem run_read_written_iff {supply : IdSupply} {encoded : Encoded}
    (hsupply : supply.next ≠ nullId) (hencode : graph.encode shape supply = .ok encoded)
    (htake : shape.elementsTake = true) (htree : graph.tree? shape graph.root = some tree) :
    ∃ decoded : Graph, decoded.tree? shape decoded.root = some tree ∧
      decoded.referents.map (·.id) = encoded.referentIds ∧
      ∀ order cursor last, encoded.layout.Between order cursor last → ∀ limit answer,
        (read (some limit) shape).run order cursor = .ok answer ↔
          (tree.arraysWithin elementLimit = true ∧ tree.pointerCount ≤ limit) ∧
          answer = (decoded, last) := by
  obtain ⟨written, served, hwritten, hserves, rfl⟩ := serves_of_encode hencode
  rw [Piece.number_eq]
  exact run_read_ids_iff hwritten hserves htake htree (IdSupply.length_draw _ _)
    (IdSupply.draw_ne_null hsupply).1

end Graph

end OrpcWire
