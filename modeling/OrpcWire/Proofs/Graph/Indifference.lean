import OrpcWire.Proofs.Graph.Rewrite
import OrpcWire.Proofs.Graph.Telling

/-!
# What readers do not look at

Padding is skipped, and an id that is not null only says that there is a referent. So a message in
which the padding octets are others, and ids are replaced by others that are not null, is read as
the same graph, announced under the ids it now has (`Graph.read_indifferent`). It does not matter
whether the new ids are different from one another or in which order they come.

`Indifferent` says this of one run of a telling reader, and with it that what was told are the
octets that were taken. Two such runs one after the other make a third (`Indifferent.bind`); the
answer of the second may depend on the first one's, but how it goes on may not depend on ids.
-/

namespace OrpcWire

variable {α β : Type} {order : ByteOrder} {limit : Option Nat}

namespace Part

theorem message_append (order : ByteOrder) (first second : List Part) :
    message order (first ++ second) = message order first ++ message order second :=
  List.flatMap_append

theorem message_padded (order : ByteOrder) (skipped : List UInt8) (part : Part) :
    message order [.padding skipped, part] = skipped ++ part.octets order :=
  congrArg (skipped ++ ·) (List.append_nil (part.octets order))

theorem ids_append (first second : List Part) : ids (first ++ second) = ids first ++ ids second :=
  List.filterMap_append

theorem exists_append_of_alike {first second parts' : List Part}
    (h : List.Forall₂ Alike (first ++ second) parts') :
    ∃ first' second', parts' = first' ++ second' ∧ List.Forall₂ Alike first first' ∧
      List.Forall₂ Alike second second' := by
  refine ⟨parts'.take first.length, parts'.drop first.length,
    (List.take_append_drop _ _).symm, ?_, ?_⟩
  · exact (List.forall₂_take_append parts' first second h.flip).flip
  · exact (List.forall₂_drop_append parts' first second h.flip).flip

end Part

/-- Between the cursors the reader takes octets with the given parts off the stream. If these have
other padding and other ids, it tells so, and answers what it would answer under the ids they now
have. -/
structure Indifferent (telling : Telling α) (order : ByteOrder) (cursor next : Cursor)
    (parts : List Part) (answer : List UInt32 → α) : Prop where
  rest_eq : cursor.rest = Part.message order parts ++ next.rest
  position_eq : next.position = cursor.position + (Part.message order parts).length
  ids_ne_null : ∀ id ∈ Part.ids parts, id ≠ nullId
  again : ∀ parts' rest', List.Forall₂ Part.Alike parts parts' → rest'.length = next.rest.length →
    telling.run order ⟨cursor.position, Part.message order parts' ++ rest'⟩ =
      .ok ((answer (Part.ids parts'), parts'), ⟨next.position, rest'⟩)

namespace Indifferent

variable {telling : Telling α} {cursor middle next : Cursor} {parts : List Part}
  {answer : List UInt32 → α}

theorem nothing {a : α}
    (h : ∀ octets, telling.run order ⟨cursor.position, octets⟩ =
      .ok ((a, []), ⟨cursor.position, octets⟩)) :
    Indifferent telling order cursor cursor [] fun _ => a where
  rest_eq := rfl
  position_eq := rfl
  ids_ne_null id hid := absurd hid List.not_mem_nil
  again parts' rest' halike _ := by
    cases halike
    exact h rest'

theorem congr {telling' : Telling α} (h : Indifferent telling order cursor next parts answer)
    (hrun : ∀ octets : List UInt8, octets.length = cursor.rest.length →
      telling'.run order ⟨cursor.position, octets⟩ = telling.run order ⟨cursor.position, octets⟩) :
    Indifferent telling' order cursor next parts answer where
  rest_eq := h.rest_eq
  position_eq := h.position_eq
  ids_ne_null := h.ids_ne_null
  again parts' rest' halike hlength := by
    rw [hrun]
    · exact h.again parts' rest' halike hlength
    · rw [h.rest_eq, List.length_append, List.length_append,
        Part.length_message_alike order halike, hlength]

theorem congr_answer {answer' : List UInt32 → α}
    (h : Indifferent telling order cursor next parts answer)
    (hanswer : ∀ ids, ids.length = (Part.ids parts).length → (∀ id ∈ ids, id ≠ nullId) →
      answer' ids = answer ids) :
    Indifferent telling order cursor next parts answer' where
  rest_eq := h.rest_eq
  position_eq := h.position_eq
  ids_ne_null := h.ids_ne_null
  again parts' rest' halike hlength := by
    obtain ⟨hids, hne⟩ := Part.ids_alike halike h.ids_ne_null
    rw [hanswer _ hids hne]
    exact h.again parts' rest' halike hlength

theorem bind {first second : List Part} (h : Indifferent telling order cursor middle first answer)
    (later : α → Telling β) (answers : List UInt32 → List UInt32 → β)
    (hlater : ∀ ids, ids.length = (Part.ids first).length → (∀ id ∈ ids, id ≠ nullId) →
      Indifferent (later (answer ids)) order middle next second (answers ids)) :
    Indifferent (telling >>= later) order cursor next (first ++ second)
      fun ids => answers (ids.take (Part.ids first).length) (ids.drop (Part.ids first).length) := by
  have hsecond := hlater _ rfl h.ids_ne_null
  refine ⟨?_, ?_, ?_, ?_⟩
  · rw [h.rest_eq, hsecond.rest_eq, Part.message_append, List.append_assoc]
  · rw [hsecond.position_eq, h.position_eq, Part.message_append, List.length_append, Nat.add_assoc]
  · intro id hid
    rw [Part.ids_append] at hid
    rcases List.mem_append.1 hid with hid | hid
    · exact h.ids_ne_null id hid
    · exact hsecond.ids_ne_null id hid
  · intro parts' rest' halike hlength
    obtain ⟨first', second', rfl, hfirst', hsecond'⟩ := Part.exists_append_of_alike halike
    obtain ⟨hids, hne⟩ := Part.ids_alike hfirst' h.ids_ne_null
    have hmiddle : (Part.message order second' ++ rest').length = middle.rest.length := by
      rw [hsecond.rest_eq, List.length_append, List.length_append,
        Part.length_message_alike order hsecond', hlength]
    rw [Part.ids_append, List.take_left' hids, List.drop_left' hids, Part.message_append,
      List.append_assoc]
    exact Telling.run_bind_eq_ok.2 ⟨_, first', _, second', h.again first' _ hfirst' hmiddle,
      (hlater _ hids hne).again second' rest' hsecond' hlength, rfl⟩

theorem map (h : Indifferent telling order cursor next parts answer) (f : α → β) :
    Indifferent (f <$> telling) order cursor next parts fun ids => f (answer ids) where
  rest_eq := h.rest_eq
  position_eq := h.position_eq
  ids_ne_null := h.ids_ne_null
  again parts' rest' halike hlength :=
    Telling.run_map_eq_ok.2 ⟨_, h.again parts' rest' halike hlength, rfl⟩

end Indifferent

namespace Telling

/-- The reader finds no ids, and does not look at padding. -/
def Plain (telling : Telling α) : Prop :=
  ∀ order cursor a parts next, telling.run order cursor = .ok ((a, parts), next) →
    Part.ids parts = [] ∧ Indifferent telling order cursor next parts fun _ => a

/-- The ids that the reader finds are those it announces, and it looks neither at padding nor at
which ids they are. -/
def Announces (telling : Telling (Found α)) : Prop :=
  ∀ order cursor found parts next, telling.run order cursor = .ok ((found, parts), next) →
    Part.ids parts = found.announced.map (·.id) ∧
      Indifferent telling order cursor next parts fun ids =>
        ⟨found.value, Announcement.renamed ids found.announced⟩

/-! ### Readers without ids -/

theorem Plain.pure (a : α) : (pure a : Telling α).Plain := by
  intro order cursor b parts next heq
  cases heq
  exact ⟨rfl, .nothing fun _ => rfl⟩

theorem Plain.ofExcept (result : Except WireError α) :
    (liftM (Reader.ofExcept result) : Telling α).Plain := by
  intro order cursor a parts next heq
  cases result with
  | error error => cases heq
  | ok b =>
    cases heq
    exact ⟨rfl, .nothing fun _ => rfl⟩

theorem Plain.bind {telling : Telling α} {next : α → Telling β} (h : telling.Plain)
    (hnext : ∀ a, (next a).Plain) : (telling >>= next).Plain := by
  intro order cursor b parts last heq
  obtain ⟨a, first, middle, second, hfirst, hsecond, rfl⟩ := run_bind_eq_ok.1 heq
  obtain ⟨hids, hindifferent⟩ := h order cursor a first middle hfirst
  obtain ⟨hids', hindifferent'⟩ := hnext a order middle b second last hsecond
  refine ⟨by rw [Part.ids_append, hids, hids', List.append_nil], ?_⟩
  exact hindifferent.bind next _ fun _ _ _ => hindifferent'

theorem Plain.map {telling : Telling α} (h : telling.Plain) (f : α → β) : (f <$> telling).Plain :=
  h.bind fun a => pure (f a)

theorem run_aligned_eq_ok {boundary size : Nat} {part : ByteOrder → List UInt8 → Part}
    {cursor next : Cursor} {body : List UInt8} {parts : List Part} :
    (aligned boundary size part).run order cursor = .ok ((body, parts), next) ↔
      ∃ skipped : List UInt8, skipped.length = padding boundary cursor.position ∧
        body.length = size ∧ parts = [.padding skipped, part order body] ∧
        cursor.rest = skipped ++ (body ++ next.rest) ∧
        next.position = cursor.position + padding boundary cursor.position + size := by
  simp only [aligned]
  rw [map_eq_ok_iff]
  constructor
  · rintro ⟨⟨taken, middle⟩, htaken, heq⟩
    cases heq
    obtain ⟨hlength, hrest, hposition⟩ := Reader.run_octets_eq_ok.1 htaken
    refine ⟨taken.take (padding boundary cursor.position), by simp [hlength], by
      simp [hlength], rfl, ?_, ?_⟩
    · rw [hrest, ← List.append_assoc, List.take_append_drop]
    · rw [hposition, Nat.add_assoc]
  · rintro ⟨skipped, hskipped, hbody, rfl, hrest, hposition⟩
    refine ⟨(skipped ++ body, next), Reader.run_octets_eq_ok.2 ⟨?_, ?_, ?_⟩, ?_⟩
    · rw [List.length_append, hskipped, hbody]
    · rw [hrest, List.append_assoc]
    · rw [hposition, Nat.add_assoc]
    · rw [List.drop_left' hskipped, List.take_left' hskipped]

theorem aligned_plain (boundary size : Nat) : (aligned boundary size content).Plain := by
  intro order cursor body parts next heq
  obtain ⟨skipped, hskipped, hbody, rfl, hrest, hposition⟩ := run_aligned_eq_ok.1 heq
  refine ⟨rfl, ?_, ?_, fun id hid => absurd hid List.not_mem_nil, ?_⟩
  · rw [Part.message_padded, List.append_assoc, hrest]
    rfl
  · rw [Part.message_padded, List.length_append, hskipped, hposition, Nat.add_assoc, ← hbody]
    rfl
  · intro parts' rest' halike _
    obtain _ | ⟨hpadding, _ | ⟨hcontent, ⟨⟩⟩⟩ := halike
    cases hcontent
    cases hpadding with
    | padding hlength =>
      refine run_aligned_eq_ok.2 ⟨_, hlength.trans hskipped, hbody, rfl, ?_, hposition⟩
      rw [Part.message_padded, List.append_assoc]
      rfl

theorem run_word_eq {size : Nat} {part : ByteOrder → List UInt8 → Part} (cursor : Cursor) :
    (word size part).run order cursor = ((aligned size size part).run order cursor).map
      fun ((taken, parts), next) => ((order.value taken, parts), next) := rfl

theorem word_plain (size : Nat) : (word size content).Plain := by
  intro order cursor n parts next heq
  obtain ⟨⟨⟨body, parts⟩, last⟩, hbody, hword⟩ := map_eq_ok_iff.1 heq
  cases hword
  obtain ⟨hids, hindifferent⟩ := aligned_plain size size order cursor body parts _ hbody
  refine ⟨hids, hindifferent.rest_eq, hindifferent.position_eq, hindifferent.ids_ne_null, ?_⟩
  intro parts' rest' halike hlength
  rw [run_word_eq, hindifferent.again parts' rest' halike hlength]
  rfl

theorem block_plain (n : Nat) : (block n).Plain := by
  intro order cursor taken parts next heq
  obtain ⟨⟨found, last⟩, hfound, heq⟩ := map_eq_ok_iff.1 heq
  cases heq
  obtain ⟨skipped, hskipped, hrest, hposition⟩ :=
    Layout.between_singleton.1 ((Reader.block_exact n _ _ _ _).1 hfound)
  simp only [Field.boundary, padding_one, List.length_eq_zero_iff, Field.size] at hskipped hposition
  subst hskipped
  refine ⟨rfl, ?_, ?_, fun id hid => absurd hid List.not_mem_nil, ?_⟩
  · simpa [Part.message, Part.octets, Field.body] using hrest
  · simpa [Part.message, Part.octets] using hposition
  · intro parts' rest' halike _
    obtain _ | ⟨hcontent, ⟨⟩⟩ := halike
    cases hcontent
    have hblock : (Reader.block n).run order ⟨cursor.position, taken.octets ++ rest'⟩ =
        .ok (taken, ⟨next.position, rest'⟩) := by
      refine (Reader.block_exact n _ _ _ _).2 (Layout.between_singleton.2 ⟨[], ?_, rfl, ?_⟩)
      · simp [Field.boundary]
      · simpa [Field.boundary, Field.size] using hposition
    show Except.map _
      ((Reader.block n).run order ⟨cursor.position, (taken.octets ++ []) ++ rest'⟩) = _
    rw [List.append_nil, hblock]
    rfl

theorem guid_plain : guid.Plain := by
  refine ((word_plain 4).map _).bind fun data1 => ((word_plain 2).map _).bind fun data2 => ?_
  exact ((word_plain 2).map _).bind fun data3 => (block_plain 8).bind fun data4 => .pure _

theorem align_plain (boundary : Nat) : (align boundary).Plain :=
  (aligned_plain boundary 0).bind fun _ => .pure _

theorem count_plain : count.Plain := by
  refine ((word_plain 4).map _).bind fun count => ?_
  split
  · exact .pure _
  · exact .ofExcept (.error _)

theorem hoistedCount_plain (members : List Shape) : (hoistedCount members).Plain := by
  unfold hoistedCount
  split
  · exact count_plain.map some
  · exact .pure _

/-! ### Ids -/

/-- How the word of a pointer is told. -/
def wordPart (order : ByteOrder) (word : UInt32) : Part :=
  if word = nullId then .content (order.octets 4 word.toNat) else .id word

theorem octets_wordPart (order : ByteOrder) (word : UInt32) :
    (wordPart order word).octets order = order.octets 4 word.toNat := by
  unfold wordPart
  split <;> rfl

theorem value_octets (order : ByteOrder) (word : UInt32) :
    order.value (order.octets 4 word.toNat) = word.toNat := by
  rw [ByteOrder.value_octets]
  exact Nat.mod_eq_of_lt word.toNat_lt

theorem idPart_octets (order : ByteOrder) (word : UInt32) :
    idPart order (order.octets 4 word.toNat) = wordPart order word := by
  rw [idPart, wordPart, value_octets, UInt32.ofNat_toNat]
  simp only [UInt32.toNat_inj]

theorem run_referentId_eq_ok {cursor next : Cursor} {id : Option UInt32} {parts : List Part} :
    referentId.run order cursor = .ok ((id, parts), next) ↔
      ∃ (word : UInt32) (skipped : List UInt8),
        skipped.length = padding 4 cursor.position ∧
        id = (if word = nullId then none else some word) ∧
          parts = [.padding skipped, wordPart order word] ∧
          cursor.rest = skipped ++ (order.octets 4 word.toNat ++ next.rest) ∧
          next.position = cursor.position + padding 4 cursor.position + 4 := by
  rw [referentId, run_map, map_eq_ok_iff]
  constructor
  · rintro ⟨⟨⟨n, parts⟩, last⟩, hn, heq⟩
    cases heq
    obtain ⟨⟨⟨body, parts⟩, last⟩, hbody, heq⟩ := map_eq_ok_iff.1 hn
    cases heq
    obtain ⟨skipped, hskipped, hlength, rfl, hrest, hposition⟩ := run_aligned_eq_ok.1 hbody
    have hvalue : order.value body < UInt32.size := by
      have hlt := order.value_lt body
      rwa [hlength] at hlt
    have hoctets : order.octets 4 (UInt32.ofNat (order.value body)).toNat = body := by
      rw [UInt32.toNat_ofNat_of_lt' hvalue, ← hlength, ByteOrder.octets_value]
    refine ⟨_, skipped, hskipped, rfl, ?_, ?_, hposition⟩
    · rw [← idPart_octets, hoctets]
    · rw [hoctets, hrest]
  · rintro ⟨word, skipped, hskipped, rfl, rfl, hrest, hposition⟩
    have hbody : (aligned 4 4 idPart).run order cursor =
        .ok ((order.octets 4 word.toNat, [.padding skipped, wordPart order word]), next) :=
      run_aligned_eq_ok.2 ⟨skipped, hskipped, ByteOrder.length_octets _ _ _, by
        rw [idPart_octets], hrest, hposition⟩
    refine ⟨
      ((order.value (order.octets 4 word.toNat), [.padding skipped, wordPart order word]), next),
      ?_, ?_⟩
    · rw [run_word_eq, hbody]
      rfl
    · simp only [value_octets, UInt32.ofNat_toNat]

theorem referentId_indifferent {cursor next : Cursor} {id : Option UInt32} {parts : List Part}
    (h : referentId.run order cursor = .ok ((id, parts), next)) :
    Part.ids parts = id.toList ∧ Indifferent referentId order cursor next parts List.head? := by
  obtain ⟨word, skipped, hskipped, rfl, rfl, hrest, hposition⟩ := run_referentId_eq_ok.1 h
  have hids : Part.ids [.padding skipped, wordPart order word] =
      (if word = nullId then none else some word).toList := by
    unfold wordPart
    split <;> rfl
  refine ⟨hids, ?_, ?_, ?_, ?_⟩
  · rw [Part.message_padded, octets_wordPart, List.append_assoc, hrest]
  · rw [Part.message_padded, octets_wordPart, List.length_append, hskipped, ByteOrder.length_octets,
      hposition, Nat.add_assoc]
  · intro id hid
    rw [hids] at hid
    split at hid
    · cases hid
    · rename_i hne
      obtain rfl := List.mem_singleton.1 hid
      exact hne
  · intro parts' rest' halike _
    obtain _ | ⟨hpadding, _ | ⟨hword, ⟨⟩⟩⟩ := halike
    cases hpadding with
    | padding hlength =>
      rename_i skipped'
      unfold wordPart at hword
      split at hword
      · rename_i hnull
        cases hword
        refine run_referentId_eq_ok.2 ⟨word, skipped', hlength.trans hskipped, ?_, ?_,
          ?_, hposition⟩
        · rw [if_pos hnull]
          rfl
        · rw [wordPart, if_pos hnull]
        · rw [Part.message_padded, List.append_assoc]
          rfl
      · cases hword with
        | id _ hne =>
          rename_i word'
          refine run_referentId_eq_ok.2 ⟨word', skipped', hlength.trans hskipped, ?_, ?_,
            ?_, hposition⟩
          · rw [if_neg hne]
            rfl
          · rw [wordPart, if_neg hne]
          · rw [Part.message_padded, List.append_assoc]
            rfl

/-! ### Readers of values -/

/-- A value in front of others. -/
def inFront (first : Found α) (others : Telling (Found (List α))) : Telling (Found (List α)) :=
  (fun others => ⟨first.value :: others.value, first.announced ++ others.announced⟩) <$> others

namespace Announces

theorem pure (a : α) : Announces (pure ⟨a, []⟩) := by
  intro order cursor found parts next heq
  cases heq
  exact ⟨rfl, (Indifferent.nothing fun _ => rfl).congr_answer fun ids _ _ => by
    simp [Announcement.renamed]⟩

theorem front {telling : Telling β} {next : β → Telling (Found α)} (h : telling.Plain)
    (hnext : ∀ b, Announces (next b)) : Announces (telling >>= next) := by
  intro order cursor found parts last heq
  obtain ⟨b, first, middle, second, hfirst, hsecond, rfl⟩ := run_bind_eq_ok.1 heq
  obtain ⟨hids, hindifferent⟩ := h order cursor b first middle hfirst
  obtain ⟨hids', hindifferent'⟩ := hnext b order middle found second last hsecond
  refine ⟨by rw [Part.ids_append, hids, hids', List.nil_append], ?_⟩
  refine (hindifferent.bind next _ fun _ _ _ => hindifferent').congr_answer fun ids _ _ => ?_
  rw [hids]
  rfl

theorem map {telling : Telling (Found α)} (h : Announces telling) (f : α → β) :
    Announces (telling >>= fun found => Pure.pure (found.map f)) := by
  intro order cursor found parts last heq
  obtain ⟨found, hfound, rfl⟩ := run_map_eq_ok.1 heq
  obtain ⟨hids, hindifferent⟩ := h order cursor found parts last hfound
  exact ⟨hids, hindifferent.map (Found.map f)⟩

theorem cons {telling : Telling (Found α)} {others : Nat → Telling (Found (List α))} {taken : Nat}
    (h : Announces telling) (hothers : ∀ taken, Announces (others taken)) :
    Announces (do
      let first ← telling
      let others ← others (taken + first.announced.length)
      return ⟨first.value :: others.value, first.announced ++ others.announced⟩) := by
  intro order cursor found parts last heq
  obtain ⟨first, parts, middle, parts', hfirst, hbehind, rfl⟩ := run_bind_eq_ok.1 heq
  obtain ⟨later, hlater, rfl⟩ := run_map_eq_ok.1 hbehind
  obtain ⟨hids, hindifferent⟩ := h order cursor first parts middle hfirst
  obtain ⟨hids', hindifferent'⟩ := hothers _ order middle later parts' _ hlater
  have hcount : (Part.ids parts).length = first.announced.length := by rw [hids, List.length_map]
  refine ⟨by rw [Part.ids_append, hids, hids', List.map_append], ?_⟩
  have hboth := hindifferent.bind
    (fun first => inFront first (others (taken + first.announced.length)))
    (fun ids ids' => ⟨first.value :: later.value,
      Announcement.renamed ids first.announced ++ Announcement.renamed ids' later.announced⟩)
    fun ids hlength _ => by
      rw [Announcement.length_renamed (hlength.trans hcount)]
      exact hindifferent'.map _
  refine hboth.congr_answer fun ids hlength _ => ?_
  rw [Part.ids_append, List.length_append] at hlength
  have htake : (ids.take (Part.ids parts).length).length = first.announced.length := by
    rw [List.length_take, ← hcount]
    omega
  rw [← Announcement.renamed_append htake, List.take_append_drop]

theorem pointer {next : Option UInt32 → Telling (Found α)}
    (h : ∀ order cursor id found parts last,
      (next id).run order cursor = .ok ((found, parts), last) →
        parts = [] ∧ last = cursor ∧ found.announced.map (·.id) = id.toList ∧ ∀ ids octets,
          ids.length = id.toList.length →
            (next ids.head?).run order ⟨cursor.position, octets⟩ =
              .ok ((⟨found.value, Announcement.renamed ids found.announced⟩, []),
                ⟨cursor.position, octets⟩)) :
    Announces (referentId >>= next) := by
  intro order cursor found parts last heq
  obtain ⟨id, parts, middle, parts', hid, hbehind, rfl⟩ := run_bind_eq_ok.1 heq
  obtain ⟨hids, hindifferent⟩ := referentId_indifferent hid
  obtain ⟨rfl, rfl, hannounced, hnext⟩ := h order middle id found parts' last hbehind
  rw [List.append_nil]
  refine ⟨hids.trans hannounced.symm, ?_⟩
  have hboth := hindifferent.bind next
    (fun ids _ => ⟨found.value, Announcement.renamed ids found.announced⟩)
    fun ids hlength _ => .nothing fun octets => hnext ids octets (by rw [hlength, hids])
  rw [List.append_nil] at hboth
  exact hboth.congr_answer fun ids hlength _ => by rw [← hlength, List.take_length]

theorem row {telling : Nat → Telling (Found α)} (h : ∀ taken, Announces (telling taken))
    (count taken : Nat) : Announces (row telling count taken) := by
  induction count generalizing taken with
  | zero => exact pure _
  | succ count ih => exact cons (h taken) ih

theorem elements {telling : Nat → Telling (Found α)} (h : ∀ taken, Announces (telling taken))
    (count taken : Nat) : Announces (elements telling count taken) := by
  intro order cursor found parts next heq
  simp only [Telling.elements] at heq
  split at heq
  · rename_i hroom
    obtain ⟨hids, hindifferent⟩ := row h count taken order cursor found parts next heq
    exact ⟨hids, hindifferent.congr fun octets hlength => if_pos (by rwa [hlength])⟩
  · cases heq

end Announces

end Telling

namespace Shape

open Telling

theorem tell_pointer_announces (limit : Option Nat) (target : Shape) (taken : Nat) :
    Announces (tell limit (.pointer target) taken) := by
  rw [tell]
  refine Announces.pointer fun order cursor id found parts last heq => ?_
  cases id with
  | none =>
    cases heq
    refine ⟨rfl, rfl, rfl, fun ids octets hlength => ?_⟩
    obtain rfl := List.length_eq_zero_iff.1 hlength
    rfl
  | some id =>
    cases hcheck : checkSlots limit taken with
    | error error =>
      rw [hcheck] at heq
      cases heq
    | ok done =>
      rw [hcheck] at heq
      cases heq
      refine ⟨rfl, rfl, rfl, fun ids octets hlength => ?_⟩
      obtain ⟨id', rfl⟩ := List.length_eq_one_iff.1 hlength
      rfl

mutual

theorem tell_announces (limit : Option Nat) : (shape : Shape) → (taken : Nat) →
    Announces (tell limit shape taken)
  | .u8, _ | .u16, _ | .u32, _ | .u64, _ => by
    rw [tell]
    exact Announces.front ((word_plain _).map _) fun _ => .pure _
  | .guid, _ => by
    rw [tell]
    exact Announces.front guid_plain fun _ => .pure _
  | .pointer target, taken => tell_pointer_announces limit target taken
  | .array element, taken => by
    rw [tell]
    refine Announces.front count_plain fun count => ?_
    exact Announces.map (Announces.elements (tell_announces limit element) count taken) _
  | .struct members, taken => by
    rw [tell]
    refine Announces.front (hoistedCount_plain members) fun count =>
      Announces.front (align_plain _) fun _ => ?_
    exact Announces.map (tellMembers_announces limit members count taken) _

theorem tellMembers_announces (limit : Option Nat) :
    (members : List Shape) → (count : Option Nat) → (taken : Nat) →
    Announces (tellMembers limit members count taken)
  | [], count, taken => by
    rw [tellMembers]
    exact .pure _
  | member :: members, count, taken => by
    rw [tellMembers.eq_def]
    split
    · exact .pure _
    · rename_i element count hmembers
      cases hmembers
      exact Announces.map (Announces.elements (tell_announces limit element) _ _) _
    · rename_i hmembers _
      cases hmembers
      exact Announces.cons (tell_announces limit member _) (tellMembers_announces limit members _)

end

end Shape

/-! ### The whole graph -/

/-- The ids of the referents are those of the queue and then those that are told. How the queue is
worked off depends on none of them. -/
theorem tellQueue_indifferent {queue : List Announcement} {taken : Nat} {cursor last : Cursor}
    {referents : List Referent} {parts : List Part}
    (h : (tellQueue limit queue taken).run order cursor = .ok ((referents, parts), last)) :
    referents.map (·.id) = queue.map (·.id) ++ Part.ids parts ∧
      ∀ queueIds, queueIds.length = queue.length →
        Indifferent (tellQueue limit (Announcement.renamed queueIds queue) taken) order
          cursor last parts fun ids =>
            List.zipWith (fun id referent => ⟨id, referent.value⟩) (queueIds ++ ids) referents := by
  induction queue, taken, cursor using queue_induction limit order generalizing referents parts with
  | nil taken cursor =>
    rw [tellQueue_nil] at h
    cases h
    refine ⟨rfl, fun queueIds hqueueIds => ?_⟩
    obtain rfl := List.length_eq_zero_iff.1 hqueueIds
    rw [Announcement.renamed, List.zipWith_nil_left, tellQueue_nil]
    exact (Indifferent.nothing fun octets => rfl).congr_answer fun ids _ _ => List.zipWith_nil_right
  | cons announcement queue taken cursor ih =>
    rw [tellQueue_cons] at h
    obtain ⟨found, first, middle, later, hfound, hbehind, rfl⟩ := Telling.run_bind_eq_ok.1 h
    obtain ⟨others, hothers, rfl⟩ := Telling.run_map_eq_ok.1 hbehind
    obtain ⟨hids, hindifferent⟩ :=
      Shape.tell_announces limit announcement.target taken order cursor found first middle hfound
    obtain ⟨hotherIds, hindifferent'⟩ := ih found middle (Shape.run_read_of_tell hfound) hothers
    have hcount : (Part.ids first).length = found.announced.length := by rw [hids, List.length_map]
    constructor
    · rw [List.map_cons, hotherIds, Part.ids_append, hids, List.map_append, List.map_cons,
        List.append_assoc, List.cons_append]
    · intro queueIds hqueueIds
      obtain ⟨id, queueIds, rfl⟩ := List.exists_cons_of_length_eq_add_one hqueueIds
      have hqueue : queueIds.length = queue.length := Nat.succ_inj.1 hqueueIds
      show Indifferent (tellQueue limit
        (⟨id, announcement.target⟩ :: Announcement.renamed queueIds queue) taken) _ _ _ _ _
      rw [tellQueue_cons]
      have hboth := hindifferent.bind
        (fun found => (⟨id, found.value⟩ :: ·) <$>
          tellQueue limit (Announcement.renamed queueIds queue ++ found.announced)
            (taken + found.announced.length))
        (fun ids ids' => ⟨id, found.value⟩ ::
          List.zipWith (fun id referent => ⟨id, referent.value⟩) (queueIds ++ ids ++ ids') others)
        fun ids hlength _ => by
          have hqueueIds : (queueIds ++ ids).length = (queue ++ found.announced).length := by
            rw [List.length_append, List.length_append, hqueue, hlength, hcount]
          rw [← Announcement.renamed_append hqueue,
            Announcement.length_renamed (hlength.trans hcount)]
          exact (hindifferent' _ hqueueIds).map _
      refine hboth.congr_answer fun ids _ _ => ?_
      rw [List.append_assoc, List.take_append_drop]
      rfl

namespace Graph

theorem tell_indifferent {shape : Shape} {cursor next : Cursor} {graph : Graph} {parts : List Part}
    (h : (tell limit shape).run order cursor = .ok ((graph, parts), next)) :
    graph.referents.map (·.id) = Part.ids parts ∧
      Indifferent (tell limit shape) order cursor next parts fun ids => graph.renamed ids := by
  obtain ⟨found, first, middle, later, hfound, hbehind, rfl⟩ := Telling.run_bind_eq_ok.1 h
  obtain ⟨referents, hreferents, rfl⟩ := Telling.run_map_eq_ok.1 hbehind
  obtain ⟨hids, hindifferent⟩ :=
    Shape.tell_announces limit shape 0 order cursor found first middle hfound
  obtain ⟨hotherIds, hindifferent'⟩ := tellQueue_indifferent hreferents
  have hcount : (Part.ids first).length = found.announced.length := by rw [hids, List.length_map]
  refine ⟨by rw [hotherIds, Part.ids_append, hids], ?_⟩
  have hboth := hindifferent.bind
    (fun found => (⟨found.value, ·⟩) <$> tellQueue limit found.announced found.announced.length)
    (fun ids ids' =>
      (⟨found.value,
        List.zipWith (fun id referent => ⟨id, referent.value⟩) (ids ++ ids') referents⟩ : Graph))
    fun ids hlength _ => by
      rw [Announcement.length_renamed (hlength.trans hcount)]
      exact (hindifferent' ids (hlength.trans hcount)).map _
  refine hboth.congr_answer fun ids _ _ => ?_
  rw [List.take_append_drop]
  rfl

theorem ids_renamed {graph : Graph} {ids : List UInt32} (h : ids.length = graph.referents.length) :
    (graph.renamed ids).referents.map (·.id) = ids :=
  List.ext_getElem (by simp [renamed, h]) (by simp [renamed])

theorem values_renamed {graph : Graph} {ids : List UInt32}
    (h : ids.length = graph.referents.length) :
    (graph.renamed ids).referents.map (·.value) = graph.referents.map (·.value) :=
  List.ext_getElem (by simp [renamed, h]) (by simp [renamed])

/-- A message with other octets as padding, and with other ids that are not null, is read as the
same graph: the same root, the same value in each slot, and under each slot the id that now stands
on the wire. -/
theorem read_indifferent {shape : Shape} {cursor next : Cursor} {graph : Graph}
    (h : (read limit shape).run order cursor = .ok (graph, next)) :
    (tell limit shape).erase = read limit shape ∧
      ∃ parts, (tell limit shape).run order cursor = .ok ((graph, parts), next) ∧
        cursor.rest = Part.message order parts ++ next.rest ∧
        Part.ids parts = graph.referents.map (·.id) ∧
        ∀ parts' rest', List.Forall₂ Part.Alike parts parts' →
          rest'.length = next.rest.length → ∃ graph',
            (read limit shape).run order ⟨cursor.position, Part.message order parts' ++ rest'⟩ =
              .ok (graph', ⟨next.position, rest'⟩) ∧ graph'.root = graph.root ∧
            graph'.referents.map (·.value) = graph.referents.map (·.value) ∧
            graph'.referents.map (·.id) = Part.ids parts' := by
  rw [← erase_tell] at h
  obtain ⟨parts, htold⟩ := Telling.exists_run_of_erase h
  obtain ⟨hids, hindifferent⟩ := tell_indifferent htold
  refine ⟨erase_tell limit shape, parts, htold, hindifferent.rest_eq, hids.symm,
    fun parts' rest' halike hlength => ?_⟩
  obtain ⟨hcount, _⟩ := Part.ids_alike halike hindifferent.ids_ne_null
  rw [← hids, List.length_map] at hcount
  refine ⟨graph.renamed (Part.ids parts'), ?_, rfl, values_renamed hcount, ids_renamed hcount⟩
  rw [← erase_tell]
  exact Telling.run_erase_of_run (hindifferent.again parts' rest' halike hlength)

/-- One id for three referents, and padding that is not zero. -/
theorem read_indifferent_repeated :
    let shape : Shape := .struct [.pointer .u8, .pointer (.pointer .u8)]
    let graph : Graph := ⟨.struct [.pointer (some 0), .pointer (some 1)],
      [⟨9, .u8 7⟩, ⟨5, .pointer (some 2)⟩, ⟨1, .u8 8⟩]⟩
    (read none shape).run .big ⟨0, [0, 0, 0, 9, 0, 0, 0, 5, 7, 0, 0, 0, 0, 0, 0, 1, 8]⟩ =
        .ok (graph, ⟨17, []⟩) ∧
      ∃ graph', (read none shape).run .big
          ⟨0, [0, 0, 0, 2, 0, 0, 0, 2, 7, 0xAA, 0xBB, 0xCC, 0, 0, 0, 2, 8]⟩ =
            .ok (graph', ⟨17, []⟩) ∧
        graph'.root = graph.root ∧ graph'.referents.map (·.value) = graph.referents.map (·.value) ∧
        graph'.referents.map (·.id) = [2, 2, 2] := by
  intro shape graph
  have hread : (read none shape).run .big ⟨0, [0, 0, 0, 9, 0, 0, 0, 5, 7, 0, 0, 0, 0, 0, 0, 1, 8]⟩ =
      .ok (graph, ⟨17, []⟩) := by
    unfold shape graph
    cbv
  have htold : (tell none shape).run .big ⟨0, [0, 0, 0, 9, 0, 0, 0, 5, 7, 0, 0, 0, 0, 0, 0, 1, 8]⟩ =
      .ok ((graph, [.padding [], .content [], .padding [], .id 9, .padding [], .id 5, .padding [],
        .content [7], .padding [0, 0, 0], .id 1, .padding [], .content [8]]), ⟨17, []⟩) := by
    unfold shape graph
    cbv
  refine ⟨hread, ?_⟩
  obtain ⟨_, parts, htold', _, _, hagain⟩ := read_indifferent hread
  cases htold.symm.trans htold'
  refine hagain [.padding [], .content [], .padding [], .id 2, .padding [], .id 2, .padding [],
    .content [7], .padding [0xAA, 0xBB, 0xCC], .id 2, .padding [], .content [8]] [] ?_ rfl
  have hne : (2 : UInt32) ≠ nullId := by decide
  exact .cons (.padding rfl) (.cons (.content _) (.cons (.padding rfl) (.cons (.id _ hne)
    (.cons (.padding rfl) (.cons (.id _ hne) (.cons (.padding rfl) (.cons (.content _)
    (.cons (.padding rfl) (.cons (.id _ hne) (.cons (.padding rfl) (.cons (.content _)
    .nil)))))))))))

end Graph

end OrpcWire
