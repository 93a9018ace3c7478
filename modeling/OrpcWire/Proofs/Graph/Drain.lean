import OrpcWire.Proofs.Graph.Accounting
import OrpcWire.Proofs.Graph.Fits

/-!
# Working off the queue of announcements

When the referents of a queue have been read, `Drains` lists them in the order in which they were
read, each with its announcement, what was found for it, and what it is written as. The facts about
reading a graph are inductions over that list:

* the announcements worked off are the queue, then what the referents announced, in order
  (`Drains.announcements_eq`); so the k-th referent read is the one with the k-th id, and lies in
  slot k;
* writing the referents, from whatever graph has these values in these slots, goes through the same
  queue (`Drains.drain_eq`) and yields the octets read (`Drains.between`);
* the pointers in a referent name the slots that its announcements take, and those lie behind its
  own (`Drains.lt_slot`).
-/

namespace OrpcWire

/-- A referent that has been read. -/
structure Resolved where
  announcement : Announcement
  found : Found Value
  /-- What the value is written as. -/
  written : List Piece

namespace Resolved

/-- The referent as it stands in the graph. -/
def referent (resolved : Resolved) : Referent := ⟨resolved.announcement.id, resolved.found.value⟩

/-- All that was announced in referents, in order. -/
def announced (resolved : List Resolved) : List Announcement := resolved.flatMap (·.found.announced)

/-- What referents are written as one after the other. -/
def pieces (resolved : List Resolved) : List Piece := resolved.flatMap (·.written)

@[simp] theorem announced_nil : announced [] = [] := rfl

@[simp] theorem pieces_nil : pieces [] = [] := rfl

@[simp] theorem announced_cons (first : Resolved) (resolved : List Resolved) :
    announced (first :: resolved) = first.found.announced ++ announced resolved := rfl

@[simp] theorem pieces_cons (first : Resolved) (resolved : List Resolved) :
    pieces (first :: resolved) = first.written ++ pieces resolved := rfl

theorem references_pieces (resolved : List Resolved) :
    Piece.references (pieces resolved) = resolved.flatMap fun one =>
      Piece.references one.written := by
  induction resolved with
  | nil => rfl
  | cons first resolved ih => rw [pieces_cons, Piece.references_append, ih, List.flatMap_cons]

end Resolved

variable {limit : Option Nat} {order : ByteOrder} {slot : Nat} {queue : List Announcement}
  {cursor last : Cursor} {resolved : List Resolved}

/-- The referents of a queue, the first of which lies in `slot`, have been read between the
cursors. -/
inductive Drains (limit : Option Nat) (order : ByteOrder) :
    Nat → List Announcement → Cursor → List Resolved → Cursor → Prop
  | nil {slot : Nat} {cursor : Cursor} : Drains limit order slot [] cursor [] cursor
  | cons {slot : Nat} {announcement : Announcement} {queue : List Announcement}
    {cursor middle last : Cursor}
      {found : Found Value} {written : List Piece} {resolved : List Resolved} :
      announcement.target.pieces found.value = .ok written →
      Account (announcement.target.read limit (slot + 1 + queue.length)) (slot + 1 + queue.length)
        order cursor middle found written →
      Drains limit order (slot + 1) (queue ++ found.announced) middle resolved last →
      Drains limit order slot (announcement :: queue) cursor
        (⟨announcement, found, written⟩ :: resolved) last

theorem readReferents_cons (announcement : Announcement) (queue : List Announcement) (taken : Nat)
    (cursor : Cursor) :
    readReferents limit order (announcement :: queue) taken cursor =
      (match (announcement.target.read limit taken).run order cursor with
      | .error error => .error error
      | .ok (found, next) =>
        (readReferents limit order (queue ++ found.announced)
          (taken + found.announced.length) next).map
          fun (referents, last) => (⟨announcement.id, found.value⟩ :: referents, last)) := by
  rw [readReferents]
  split <;> simp_all

theorem Graph.drain_cons_bind (graph : Graph) (ref : Reference) (queue : List Reference) :
    graph.drain (ref :: queue) = graph.referentPieces ref >>= fun written =>
      (graph.drain (queue ++ Piece.references written)).map (written ++ ·) := by
  rw [Graph.drain]
  split <;> simp_all [bind, Except.bind]

theorem Graph.drain_cons {graph : Graph} {ref : Reference} {queue : List Reference}
    {written : List Piece} (h : graph.referentPieces ref = .ok written) :
    graph.drain (ref :: queue) =
      (graph.drain (queue ++ Piece.references written)).map (written ++ ·) := by
  rw [graph.drain_cons_bind, h]
  rfl

theorem Graph.drain_induction (graph : Graph) {P : List Reference → Prop} (nil : P [])
    (cons : ∀ ref queue,
      (∀ written, graph.referentPieces ref = .ok written → P (queue ++ Piece.references written)) →
        P (ref :: queue))
    (queue : List Reference) : P queue := by
  induction queue using Graph.drain.induct graph with
  | case1 => exact nil
  | case2 ref queue error herror =>
    refine cons ref queue fun written hwritten => ?_
    rw [herror] at hwritten
    cases hwritten
  | case3 ref queue written hwritten ih =>
    refine cons ref queue fun written' hwritten' => ?_
    rw [hwritten] at hwritten'
    cases hwritten'
    exact ih

theorem queue_induction (limit : Option Nat) (order : ByteOrder)
    {P : List Announcement → Nat → Cursor → Prop} (nil : ∀ taken cursor, P [] taken cursor)
    (cons : ∀ announcement queue taken cursor,
      (∀ found next, (announcement.target.read limit taken).run order cursor = .ok (found, next) →
        P (queue ++ found.announced) (taken + found.announced.length) next) →
      P (announcement :: queue) taken cursor)
    (queue : List Announcement) (taken : Nat) (cursor : Cursor) : P queue taken cursor := by
  induction queue, taken, cursor using readReferents.induct limit order with
  | case1 taken cursor => exact nil taken cursor
  | case2 taken cursor announcement queue error herror =>
    apply cons
    intro found next heq
    rw [herror] at heq
    cases heq
  | case3 taken cursor announcement queue found next hfound ih =>
    apply cons
    intro found' next' heq
    rw [hfound] at heq
    cases heq
    exact ih

theorem drains_of_readReferents {taken : Nat} {referents : List Referent}
    (htaken : taken = slot + queue.length)
    (h : readReferents limit order queue taken cursor = .ok (referents, last)) :
    ∃ resolved, Drains limit order slot queue cursor resolved last ∧
      referents = resolved.map Resolved.referent := by
  induction queue, taken, cursor using queue_induction limit order generalizing slot referents with
  | nil taken cursor =>
    rw [readReferents] at h
    cases h
    exact ⟨[], .nil, rfl⟩
  | cons announcement queue taken cursor ih =>
    rw [readReferents_cons] at h
    split at h
    · cases h
    · rename_i found middle hfound
      obtain ⟨⟨others, last'⟩, hothers, heq⟩ := map_eq_ok_iff.1 h
      cases heq
      obtain ⟨written, hwritten, account⟩ :=
        Shape.read_accounts limit announcement.target taken order cursor found middle hfound
      have hslot : taken = slot + 1 + queue.length := by
        rw [htaken, List.length_cons]
        omega
      have hnext : taken + found.announced.length =
          slot + 1 + (queue ++ found.announced).length := by
        rw [List.length_append]
        omega
      obtain ⟨resolved, hresolved, rfl⟩ := ih found middle hfound hnext hothers
      subst hslot
      exact ⟨⟨announcement, found, written⟩ :: resolved, .cons hwritten account hresolved, rfl⟩

namespace Drains

theorem announcements_eq (h : Drains limit order slot queue cursor resolved last) :
    resolved.map (·.announcement) = queue ++ Resolved.announced resolved := by
  induction h with
  | nil => rfl
  | cons _ _ _ ih =>
    rw [List.map_cons, ih, Resolved.announced_cons, List.append_assoc, List.cons_append]

theorem length_eq (h : Drains limit order slot queue cursor resolved last) :
    resolved.length = queue.length + (Resolved.announced resolved).length := by
  rw [← List.length_append, ← h.announcements_eq, List.length_map]

theorem references_eq (h : Drains limit order slot queue cursor resolved last) :
    Piece.references (Resolved.pieces resolved) =
      Announcement.references (slot + queue.length) (Resolved.announced resolved) := by
  induction h with
  | nil => rfl
  | @cons slot _ queue _ _ _ found _ resolved _ account _ ih =>
    have hslot : slot + (queue.length + 1) = slot + 1 + queue.length := by omega
    rw [Resolved.pieces_cons, Piece.references_append, ih, account.references,
      Resolved.announced_cons, List.length_cons, hslot, Announcement.references_append,
      List.length_append, Nat.add_assoc (slot + 1)]

theorem fits (h : Drains limit order slot queue cursor resolved last) :
    ∀ one ∈ resolved, one.announcement.target.fits one.found.value = true := by
  induction h with
  | nil => simp
  | cons hwritten _ _ ih =>
    intro one hmem
    rcases List.mem_cons.1 hmem with rfl | hmem
    · exact Shape.fits_of_pieces hwritten
    · exact ih one hmem

theorem pointers_eq (h : Drains limit order slot queue cursor resolved last) :
    ∀ one ∈ resolved, one.announcement.target.pointers one.found.value =
      Piece.references one.written := by
  induction h with
  | nil => simp
  | cons hwritten _ _ ih =>
    intro one hmem
    rcases List.mem_cons.1 hmem with rfl | hmem
    · exact (Shape.references_eq_pointers hwritten).symm
    · exact ih one hmem

theorem flatMap_pointers (h : Drains limit order slot queue cursor resolved last) :
    resolved.flatMap (fun one => one.announcement.target.pointers one.found.value) =
      Announcement.references (slot + queue.length) (Resolved.announced resolved) := by
  rw [← h.references_eq, Resolved.references_pieces, List.flatMap_def, List.flatMap_def,
    List.map_congr_left h.pointers_eq]

theorem lt_slot (h : Drains limit order slot queue cursor resolved last) {k : Nat} {one : Resolved}
    (hone : resolved[k]? = some one) : ∀ ref ∈ Piece.references one.written,
      slot + k < ref.slot := by
  induction h generalizing k with
  | nil => cases hone
  | @cons slot _ queue _ _ _ found _ _ _ account _ ih =>
    intro ref href
    cases k with
    | zero =>
      cases hone
      rw [account.references] at href
      have := Announcement.le_slot href
      omega
    | succ k =>
      have := ih hone ref href
      omega

theorem between (h : Drains limit order slot queue cursor resolved last) :
    (Piece.withIds ((Resolved.announced resolved).map (·.id)) (Resolved.pieces resolved)).Between
      order cursor last := by
  induction h with
  | nil => exact Layout.between_nil.2 rfl
  | cons _ account _ ih =>
    have hlength := account.length_ids
    rw [Resolved.announced_cons, Resolved.pieces_cons, List.map_append,
      Piece.withIds_append hlength, Layout.between_append]
    exact ⟨_, account.between, ih⟩

theorem ids_ne_null (h : Drains limit order slot queue cursor resolved last) :
    ∀ announcement ∈ Resolved.announced resolved, announcement.id ≠ nullId := by
  induction h with
  | nil => simp [Resolved.announced]
  | cons _ account _ ih =>
    intro announcement hmem
    rw [Resolved.announced_cons] at hmem
    rcases List.mem_append.1 hmem with hmem | hmem
    · exact account.ids_ne_null announcement hmem
    · exact ih announcement hmem

theorem again (h : Drains limit order slot queue cursor resolved last) {queueIds ids : List UInt32}
    {cursor' last' : Cursor} (hqueueIds : queueIds.length = queue.length)
    (hids : ids.length = (Resolved.announced resolved).length) (hne : ∀ id ∈ ids, id ≠ nullId)
    (hposition : cursor'.position = cursor.position)
    (hrest : cursor'.rest.length = cursor.rest.length)
    (hbetween : (Piece.withIds ids (Resolved.pieces resolved)).Between order cursor' last') :
    readReferents limit order (Announcement.renamed queueIds queue) (slot + queue.length) cursor' =
      .ok (List.zipWith (fun id one => ⟨id, one.found.value⟩) (queueIds ++ ids) resolved,
        last') := by
  induction h generalizing queueIds ids cursor' with
  | nil =>
    obtain rfl := List.length_eq_zero_iff.1 hqueueIds
    rw [Resolved.pieces_nil, Piece.withIds_nil, Layout.between_nil] at hbetween
    rw [Announcement.renamed, List.zipWith_nil_left, readReferents, hbetween,
      List.zipWith_nil_right]
  | @cons slot announcement queue _ _ _ found written resolved _ account _ ih =>
    obtain ⟨id, queueIds, rfl⟩ := List.exists_cons_of_length_eq_add_one hqueueIds
    rw [Resolved.announced_cons, List.length_append] at hids
    rw [Resolved.pieces_cons] at hbetween
    obtain ⟨ids1, ids2, middle', rfl, hids1, hids2, hbetween1, hbetween2⟩ :=
      Piece.exists_between_append hids account.length_references hbetween
    obtain ⟨hmiddle, hmiddle_rest⟩ :=
      Piece.between_withIds_same account.between hbetween1 hposition hrest
    have hqueue : queueIds.length = queue.length := Nat.succ_inj.1 hqueueIds
    have hfirst := account.again ids1 cursor' middle' hids1
      (fun id hid => hne id (List.mem_append_left _ hid)) hposition hrest hbetween1
    have hnext : (queueIds ++ ids1).length = (queue ++ found.announced).length := by
      rw [List.length_append, List.length_append, hqueue, hids1]
    have hothers :=
      ih hnext hids2 (fun id hid =>
        hne id (List.mem_append_right _ hid)) hmiddle hmiddle_rest hbetween2
    rw [Announcement.renamed_append hqueue] at hothers
    have hslot : slot + (announcement :: queue).length = slot + 1 + queue.length := by
      rw [List.length_cons]
      omega
    have htaken : slot + 1 + queue.length + (Announcement.renamed ids1 found.announced).length =
        slot + 1 + (queue ++ found.announced).length := by
      rw [Announcement.length_renamed hids1, List.length_append, Nat.add_assoc (slot + 1)]
    rw [hslot, show Announcement.renamed (id :: queueIds) (announcement :: queue) =
      ⟨id, announcement.target⟩ :: Announcement.renamed queueIds queue from rfl,
      readReferents_cons, hfirst]
    simp only [htaken, hothers, Except.map, List.append_assoc]
    rfl

/-- A writer of a graph with these values goes through the same queue. -/
theorem drain_eq (h : Drains limit order slot queue cursor resolved last) {graph : Graph}
    (hgraph : ∀ k one, resolved[k]? = some one → graph.value? (slot + k) = some one.found.value) :
    graph.drain (Announcement.references slot queue) = .ok (Resolved.pieces resolved) := by
  induction h with
  | nil => rw [Announcement.references_nil, Graph.drain]; rfl
  | @cons slot announcement queue _ _ _ found written resolved hwritten account _ ih =>
    have hvalue : graph.value? slot = some found.value := hgraph 0 _ rfl
    have hfirst : graph.referentPieces ⟨slot, announcement.target⟩ = .ok written := by
      simp only [Graph.referentPieces, hvalue]
      exact hwritten
    have hqueue : Announcement.references (slot + 1) queue ++ Piece.references written =
        Announcement.references (slot + 1) (queue ++ found.announced) := by
      rw [Announcement.references_append, account.references]
    have hothers := ih fun k one hone => by
      rw [Nat.add_assoc, Nat.add_comm 1]
      exact hgraph (k + 1) one hone
    rw [Announcement.references_cons, Graph.drain_cons hfirst, hqueue, hothers]
    rfl

end Drains

theorem Graph.drains_of_read {shape : Shape} {graph : Graph} {next : Cursor}
    (h : (Graph.read limit shape).run order cursor = .ok (graph, next)) :
    ∃ found written middle resolved, shape.pieces found.value = .ok written ∧
      Account (shape.read limit 0) 0 order cursor middle found written ∧
      Drains limit order 0 found.announced middle resolved next ∧
      graph = ⟨found.value, resolved.map Resolved.referent⟩ := by
  obtain ⟨⟨found, middle⟩, hfound, h⟩ := bind_eq_ok_iff.1 h
  obtain ⟨⟨referents, last⟩, hreferents, h⟩ := bind_eq_ok_iff.1 h
  cases h
  obtain ⟨written, hwritten, account⟩ :=
    Shape.read_accounts limit shape 0 order cursor found middle hfound
  obtain ⟨resolved, hresolved, rfl⟩ := drains_of_readReferents (Nat.zero_add _).symm hreferents
  exact ⟨found, written, middle, resolved, hwritten, account, hresolved, rfl⟩

end OrpcWire
