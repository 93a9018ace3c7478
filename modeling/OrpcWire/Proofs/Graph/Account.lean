import OrpcWire.Proofs.Graph.Ids

/-!
# What a reader of shapes answers for

`Shape.read_accounts`: whenever a value is read in place, the octets used up are the pieces that the
value is written as, with the announced ids at its references. The references name the slots given
out, in order. The same value is read off any other octets that differ in padding and ids only, as
long as no id becomes null and equally many octets follow; so padding is not looked at.

`Accounts` is closed under the combinators that readers of shapes are made of, one lemma for each.
What a value is written as is a parameter (`W`) of all of them, because the members of a structure
are not written like the elements of an array.
-/

namespace OrpcWire

variable {α β : Type}

/-- `found`, read between the cursors, is written as `written`, behind `taken` slots. -/
structure Account (reader : Reader WireError (Found α)) (taken : Nat) (order : ByteOrder)
    (cursor next : Cursor) (found : Found α) (written : List Piece) : Prop where
  references : Piece.references written = Announcement.references taken found.announced
  ids_ne_null : ∀ announcement ∈ found.announced, announcement.id ≠ nullId
  between : (Piece.withIds (found.announced.map (·.id)) written).Between order cursor next
  /-- Other padding and other ids make no difference to what is read. -/
  again : ∀ ids cursor' next', ids.length = found.announced.length → (∀ id ∈ ids, id ≠ nullId) →
    cursor'.position = cursor.position → cursor'.rest.length = cursor.rest.length →
    (Piece.withIds ids written).Between order cursor' next' →
    reader.run order cursor' = .ok (⟨found.value, Announcement.renamed ids found.announced⟩, next')

namespace Account

variable {reader : Reader WireError (Found α)} {taken : Nat} {order : ByteOrder}
  {cursor next : Cursor} {found : Found α} {written : List Piece}

theorem length_references (account : Account reader taken order cursor next found written) :
    (Piece.references written).length = found.announced.length := by
  rw [account.references, Announcement.length_references]

theorem length_ids (account : Account reader taken order cursor next found written) :
    (found.announced.map (·.id)).length = (Piece.references written).length := by
  rw [account.length_references, List.length_map]

theorem forall_announced (account : Account reader taken order cursor next found written)
    {P : Shape → Prop} (h : ∀ ref ∈ Piece.references written, P ref.target) :
    ∀ announcement ∈ found.announced, P announcement.target := by
  have htargets : ∀ target ∈ (Piece.references written).map (·.target), P target :=
    List.forall_mem_map.2 h
  rw [account.references, Announcement.targets_references] at htargets
  exact List.forall_mem_map.1 htargets

end Account

/-- Everything the reader answers is what it has used up. -/
def Accounts (W : α → List Piece → Prop) (taken : Nat)
    (reader : Reader WireError (Found α)) : Prop :=
  ∀ order cursor found next, reader.run order cursor = .ok (found, next) →
    ∃ written, W found.value written ∧ Account reader taken order cursor next found written

namespace Accounts

variable {W : α → List Piece → Prop} {W' : β → List Piece → Prop} {taken : Nat}

theorem leaf {reader : Reader WireError α} {layout : α → Layout}
    (h : reader.Exact layout) {f : α → β} (hW : ∀ a, W' (f a) ((layout a).map .field)) :
    Accounts W' taken (reader >>= fun a => pure ⟨f a, []⟩) := by
  intro order cursor found next heq
  obtain ⟨a, middle, ha, hpure⟩ := h.run_bind_eq_ok.1 heq
  cases hpure
  refine ⟨(layout a).map .field, hW a, by simp, by simp, by simpa using ha, ?_⟩
  intro ids cursor' next' _ _ _ _ hbetween
  rw [Piece.withIds_fields] at hbetween
  rw [h.run_bind _ hbetween, Reader.run_pure]
  simp [Announcement.renamed]

theorem pure {a : α} (hW : W a []) : Accounts W taken (pure ⟨a, []⟩) := by
  intro order cursor found next heq
  cases heq
  refine ⟨[], hW, by simp, by simp, by simp, ?_⟩
  intro ids cursor' next' _ _ _ _ hbetween
  rw [Piece.withIds_nil, Layout.between_nil] at hbetween
  rw [hbetween, Reader.run_pure]
  simp [Announcement.renamed]

theorem bind {γ : Type} {reader : Reader WireError γ} {valid : γ → Prop} {layout : γ → Layout}
    (h : reader.ExactOn valid layout) {next : γ → Reader WireError (Found α)}
    {V : γ → α → List Piece → Prop} (hnext : ∀ c, valid c → Accounts (V c) taken (next c))
    (hW : ∀ c a written, valid c → V c a written → W a ((layout c).map .field ++ written)) :
    Accounts W taken (reader >>= next) := by
  intro order cursor found last heq
  obtain ⟨c, middle, hc, heq⟩ := Reader.run_bind_eq_ok.1 heq
  obtain ⟨hvalid, hfields⟩ := (h order cursor c middle).1 hc
  obtain ⟨written, hwritten, account⟩ := hnext c hvalid order middle found last heq
  refine ⟨(layout c).map .field ++ written, hW c _ written hvalid hwritten, ?_,
    account.ids_ne_null, ?_, ?_⟩
  · rw [Piece.references_append, Piece.references_fields, List.nil_append, account.references]
  · rw [Piece.withIds_fields_append, Layout.between_append]
    exact ⟨middle, hfields, account.between⟩
  · intro ids cursor' last' hlength hids hposition hrest hbetween
    rw [Piece.withIds_fields_append, Layout.between_append] at hbetween
    obtain ⟨middle', hfields', hbetween⟩ := hbetween
    have hmiddle : middle'.position = middle.position := by
      rw [hfields'.position_eq, hfields.position_eq, hposition]
    rw [Reader.run_bind, (h order cursor' c middle').2 ⟨hvalid, hfields'⟩]
    refine account.again ids middle' last' hlength hids hmiddle ?_ hbetween
    have h1 := hfields.length_eq
    have h2 := hfields'.length_eq
    omega

theorem map {reader : Reader WireError (Found α)} (h : Accounts W taken reader) (f : α → β)
    (hW : ∀ a written, W a written → W' (f a) written) :
    Accounts W' taken (reader >>= fun found => Pure.pure (found.map f)) := by
  intro order cursor found next heq
  obtain ⟨found, middle, hfound, hpure⟩ := Reader.run_bind_eq_ok.1 heq
  cases hpure
  obtain ⟨written, hwritten, account⟩ := h order cursor found _ hfound
  refine ⟨written, hW _ _ hwritten, account.references, account.ids_ne_null, account.between, ?_⟩
  intro ids cursor' next' hlength hids hposition hrest hbetween
  rw [Reader.run_bind, account.again ids cursor' next' hlength hids hposition hrest hbetween]
  rfl

theorem cons {V : List α → List Piece → Prop} {reader : Reader WireError (Found α)}
    {others : Nat → Reader WireError (Found (List α))} {U : List α → List Piece → Prop}
    (h : Accounts W taken reader) (hothers : ∀ taken, Accounts V taken (others taken))
    (hW : ∀ a as first second, W a first → V as second → U (a :: as) (first ++ second)) :
    Accounts U taken (do
      let first ← reader
      let others ← others (taken + first.announced.length)
      return ⟨first.value :: others.value, first.announced ++ others.announced⟩) := by
  intro order cursor found last heq
  obtain ⟨one, middle, hone, heq⟩ := Reader.run_bind_eq_ok.1 heq
  obtain ⟨more, last', hmore, hpure⟩ := Reader.run_bind_eq_ok.1 heq
  cases hpure
  obtain ⟨first, hfirst, account⟩ := h order cursor one middle hone
  obtain ⟨second, hsecond, account'⟩ := hothers _ order middle more last hmore
  have hlength := account.length_ids
  refine ⟨first ++ second, hW _ _ _ _ hfirst hsecond, ?_, ?_, ?_, ?_⟩
  · rw [Piece.references_append, account.references, account'.references,
      Announcement.references_append]
  · intro announcement hmem
    rcases List.mem_append.1 hmem with hmem | hmem
    · exact account.ids_ne_null announcement hmem
    · exact account'.ids_ne_null announcement hmem
  · rw [List.map_append, Piece.withIds_append hlength, Layout.between_append]
    exact ⟨middle, account.between, account'.between⟩
  · intro ids cursor' last' hids_length hids hposition hrest hbetween
    -- The ids split where the announcements of the first value end.
    rw [List.length_append] at hids_length
    obtain ⟨ids1, ids2, middle', rfl, hids1, hids2, hbetween1, hbetween2⟩ :=
      Piece.exists_between_append hids_length account.length_references hbetween
    obtain ⟨hmiddle, hmiddle_rest⟩ :=
      Piece.between_withIds_same account.between hbetween1 hposition hrest
    rw [Reader.run_bind, account.again ids1 cursor' middle' hids1
      (fun id hid => hids id (List.mem_append_left _ hid)) hposition hrest hbetween1]
    simp only [Announcement.length_renamed hids1]
    rw [Reader.run_bind, account'.again ids2 middle' last' hids2
      (fun id hid => hids id (List.mem_append_right _ hid)) hmiddle hmiddle_rest hbetween2]
    rw [Announcement.renamed_append hids1]
    rfl

end Accounts

end OrpcWire
