import OrpcWire.Proofs.Graph.Drain
import OrpcWire.Proofs.Graph.Parts

/-!
# Writing back what has been read

A graph that has been read can be written by the same shape. The octets are those that were read,
except that padding is zero and ids are the ones of a fresh counter (`Graph.encode_of_read`). Which
octets are padding and which are ids is a matter of the reader: it takes any other octets in their
place (`GraphAccount.again`).
-/

namespace OrpcWire

/-- The same graph announced under other ids. -/
def Graph.renamed (ids : List UInt32) (graph : Graph) : Graph :=
  ⟨graph.root, List.zipWith (fun id referent => ⟨id, referent.value⟩) ids graph.referents⟩

/-- `graph`, read between the cursors, is written as `written`. -/
structure GraphAccount (limit : Option Nat) (shape : Shape) (order : ByteOrder)
    (cursor next : Cursor) (graph : Graph) (written : List Piece) : Prop where
  pieces_eq : graph.pieces shape = .ok written
  length_references : (Piece.references written).length = graph.referents.length
  ids_ne_null : ∀ id ∈ graph.referents.map (·.id), id ≠ nullId
  between : (Piece.withIds (graph.referents.map (·.id)) written).Between order cursor next
  /-- Other padding and other ids make no difference. -/
  again : ∀ ids cursor' next', ids.length = graph.referents.length → (∀ id ∈ ids, id ≠ nullId) →
    cursor'.position = cursor.position → cursor'.rest.length = cursor.rest.length →
    (Piece.withIds ids written).Between order cursor' next' →
    (Graph.read limit shape).run order cursor' = .ok (graph.renamed ids, next')

variable {limit : Option Nat} {shape : Shape} {order : ByteOrder} {cursor next : Cursor}
  {graph : Graph}

namespace Drains

variable {slot : Nat} {queue : List Announcement} {resolved : List Resolved}

theorem ids_eq (h : Drains limit order slot queue cursor resolved next) :
    (resolved.map Resolved.referent).map (·.id) =
      queue.map (·.id) ++ (Resolved.announced resolved).map (·.id) := by
  rw [← List.map_append, ← h.announcements_eq, List.map_map, List.map_map]
  rfl

end Drains

theorem Graph.account_of_read (h : (Graph.read limit shape).run order cursor = .ok (graph, next)) :
    ∃ written, GraphAccount limit shape order cursor next graph written := by
  obtain ⟨found, written, middle, resolved, hwritten, account, hdrains, rfl⟩ := drains_of_read h
  have hids := hdrains.ids_eq
  refine ⟨written ++ Resolved.pieces resolved, ?_, ?_, ?_, ?_, ?_⟩
  · have hvalues : ∀ k one, resolved[k]? = some one →
        Graph.value? ⟨found.value, resolved.map Resolved.referent⟩ (0 + k) =
          some one.found.value := by
      intro k one hone
      rw [Nat.zero_add, value?, List.getElem?_map, hone]
      rfl
    have hdrain := hdrains.drain_eq hvalues
    rw [← account.references] at hdrain
    exact bind_eq_ok_iff.2 ⟨written, hwritten, bind_eq_ok_iff.2 ⟨_, hdrain, rfl⟩⟩
  · rw [Piece.references_append, List.length_append, hdrains.references_eq, account.references,
      List.length_map, hdrains.length_eq, Announcement.length_references,
      Announcement.length_references]
  · intro id hid
    rw [hids, ← List.map_append] at hid
    obtain ⟨announcement, hmem, rfl⟩ := List.mem_map.1 hid
    rcases List.mem_append.1 hmem with hmem | hmem
    · exact account.ids_ne_null announcement hmem
    · exact hdrains.ids_ne_null announcement hmem
  · rw [hids, Piece.withIds_append account.length_ids, Layout.between_append]
    exact ⟨middle, account.between, hdrains.between⟩
  · intro ids cursor' next' hids' hne hposition hrest hbetween
    -- The first ids are those of the pointers in the root, the others those found in the referents.
    rw [List.length_map, hdrains.length_eq] at hids'
    obtain ⟨ids1, ids2, middle', rfl, hids1, hids2, hbetween1, hbetween2⟩ :=
      Piece.exists_between_append hids' account.length_references hbetween
    obtain ⟨hmiddle, hmiddle_rest⟩ :=
      Piece.between_withIds_same account.between hbetween1 hposition hrest
    have hroot :=
      account.again ids1 cursor' middle' hids1 (fun id hid => hne id (List.mem_append_left _ hid))
        hposition hrest hbetween1
    have hothers :=
      hdrains.again hids1 hids2 (fun id hid => hne id (List.mem_append_right _ hid)) hmiddle
        hmiddle_rest hbetween2
    rw [Nat.zero_add, ← Announcement.length_renamed hids1] at hothers
    refine bind_eq_ok_iff.2 ⟨_, hroot, bind_eq_ok_iff.2 ⟨_, hothers, ?_⟩⟩
    rw [renamed, List.zipWith_map_right]
    rfl

theorem GraphAccount.parted {written : List Piece}
    (account : GraphAccount limit shape order cursor next graph written) :
    ∃ parts, Parted order cursor.position written parts ∧
      Part.ids parts = graph.referents.map (·.id) ∧
      cursor.rest = Part.message order parts ++ next.rest := by
  apply Parted.of_between _ account.between
  rw [List.length_map, account.length_references]

theorem Graph.encode_fresh {written : List Piece}
    (account : GraphAccount limit shape order cursor next graph written)
    (hcount : graph.referents.length < 2 ^ 30 - 2 ^ 15) :
    ∃ encoded, graph.encode shape .fresh = .ok encoded ∧ encoded.layout =
      Piece.withIds ((List.range graph.referents.length).map fun k =>
        .ofNat (firstId.toNat + 4 * k)) written := by
  refine ⟨Piece.number .fresh written, map_eq_ok_iff.2 ⟨written, account.pieces_eq, rfl⟩, ?_⟩
  rw [Piece.number_eq, account.length_references, IdSupply.draw_fresh (Nat.le_of_lt hcount)]

namespace Graph

/-- A graph that has been read is written again with as many octets, and these are the ones it was
read from, except that padding is zero and the k-th id is the k-th of a fresh counter. What counts
as padding is up to the reader: with other octets there, and with other ids, it reads the same
graph, and with other octets elsewhere it does not. -/
theorem encode_of_read (h : (read limit shape).run order cursor = .ok (graph, next))
    (hcount : graph.referents.length < 2 ^ 30 - 2 ^ 15) :
    ∃ encoded parts, graph.encode shape .fresh = .ok encoded ∧
      cursor.rest = Part.message order parts ++ next.rest ∧
      next.position = cursor.position + (Part.message order parts).length ∧
      Part.ids parts = graph.referents.map (·.id) ∧ (∀ id ∈ Part.ids parts, id ≠ nullId) ∧
      (∀ parts' rest', List.Forall₂ Part.Alike parts parts' → rest'.length = next.rest.length →
        (read limit shape).run order ⟨cursor.position, Part.message order parts' ++ rest'⟩ =
          .ok (graph.renamed (Part.ids parts'), ⟨next.position, rest'⟩)) ∧
      (∀ cursor' next', cursor'.position = cursor.position →
        (read limit shape).run order cursor' = .ok (graph, next') →
        ∃ parts', List.Forall₂ Part.Alike parts parts' ∧
          cursor'.rest = Part.message order parts' ++ next'.rest) ∧
      let fresh :=
        (List.range graph.referents.length).map fun k => UInt32.ofNat (firstId.toNat + 4 * k)
      let written := encoded.layout.render order cursor.position
      written = Part.message order (Part.rewrite fresh parts) ∧
      written.length = (Part.message order parts).length ∧
      ((∀ octets, .padding octets ∈ parts → ∀ octet ∈ octets, octet = 0) →
        graph.referents.map (·.id) = fresh → written = Part.message order parts) := by
  obtain ⟨pieces, account⟩ := account_of_read h
  obtain ⟨encoded, hencoded, hlayout⟩ := encode_fresh account hcount
  obtain ⟨parts, hparts, hids, hrest⟩ := account.parted
  have hwritten :=
    hparts.render_eq ((List.range graph.referents.length).map fun k =>
      .ofNat (firstId.toNat + 4 * k))
  rw [← hlayout] at hwritten
  have hposition : next.position = cursor.position + (Part.message order parts).length := by
    have hlength := account.between.length_eq
    rw [hrest, List.length_append] at hlength
    omega
  refine ⟨encoded, parts, hencoded, hrest, hposition, hids, hids ▸ account.ids_ne_null, ?_, ?_,
    hwritten, ?_, ?_⟩
  · intro parts' rest' halike hrest'
    have hbetween := (hparts.alike halike).between rest'
    obtain ⟨hlength, hne⟩ := Part.ids_alike halike (hids ▸ account.ids_ne_null)
    have hmessage := Part.length_message_alike order halike
    rw [hmessage, ← hposition] at hbetween
    refine account.again (Part.ids parts') _ ⟨next.position, rest'⟩ ?_ hne rfl ?_ hbetween
    · rw [hlength, hids, List.length_map]
    · rw [hrest, List.length_append, List.length_append, hmessage, hrest']
  · intro cursor' next' hcursor h'
    obtain ⟨pieces', account'⟩ := account_of_read h'
    obtain rfl : pieces' = pieces := Except.ok.inj (account'.pieces_eq.symm.trans account.pieces_eq)
    obtain ⟨parts', hparts', hids', hrest'⟩ := account'.parted
    rw [hcursor] at hparts'
    exact ⟨parts', hparts.forall₂_alike hparts' (hids' ▸ account'.ids_ne_null), hrest'⟩
  · rw [hwritten, Part.length_message_rewrite]
  · intro hzero hfresh
    rw [hwritten, ← hfresh, ← hids, Part.rewrite_ids_self hzero]

/-- A message of a peer with ids of its own, one of them twice, and octets other than zero as
padding. -/
theorem encode_of_read_foreign :
    let shape : Shape := .struct [.pointer .u8, .pointer (.pointer .u8)]
    let octets := [0, 0, 0, 9, 0, 0, 0, 9, 7, 0xAA, 0xBB, 0xCC, 0, 0, 0, 1, 8]
    let graph : Graph := ⟨.struct [.pointer (some 0), .pointer (some 1)],
      [⟨9, .u8 7⟩, ⟨9, .pointer (some 2)⟩, ⟨1, .u8 8⟩]⟩
    (read none shape).run .big ⟨0, octets⟩ = .ok (graph, ⟨17, []⟩) ∧
      graph.referents.length < 2 ^ 30 - 2 ^ 15 ∧ ∃ encoded,
        graph.encode shape .fresh = .ok encoded ∧
        (encoded.layout.render .big 0).length = octets.length := by
  intro shape octets graph
  have hread : (read none shape).run .big ⟨0, octets⟩ = .ok (graph, ⟨17, []⟩) := by
    unfold shape octets graph
    cbv
  have hcount : graph.referents.length < 2 ^ 30 - 2 ^ 15 := by decide
  obtain ⟨encoded, parts, hencoded, hoctets, _, _, _, _, _, hwritten⟩ := encode_of_read hread hcount
  refine ⟨hread, hcount, encoded, hencoded, ?_⟩
  rw [hwritten.2.1, show octets = Part.message .big parts from hoctets.trans (List.append_nil _)]

end Graph

end OrpcWire
