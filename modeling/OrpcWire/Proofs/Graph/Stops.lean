import OrpcWire.Proofs.Graph.Indifference
import OrpcWire.Proofs.Graph.Limit

/-!
# Where a limit stops a reader

A reader under a limit does not get past the id of the first referent too many. The octets up to and
including that id decide that it fails and how, whatever stands behind them (`Graph.read_limited`).

The place is found with the telling reader without a limit. It tells the ids among the parts of the
octets it takes, so the id too many is the one with `limit` ids in front of it. `Stops` says of one
run that the reader under the limit stops there. In a sequence the id is told by the first reader or
by the second; in the second case the first one must go the same way as before (`Passes`), which it
does because it meets no id too many.

As many octets must be left behind the id as there were: counts of elements are checked against all
of them.
-/

namespace OrpcWire

variable {α β : Type} {limit taken slots : Nat} {order : ByteOrder} {cursor middle next : Cursor}
  {parts first second : List Part}

namespace Part

theorem alike_self (parts : List Part) (h : ∀ id ∈ ids parts, id ≠ nullId) :
    List.Forall₂ Alike parts parts := by
  induction parts with
  | nil => exact .nil
  | cons part parts ih =>
    cases part with
    | padding octets => exact .cons (.padding rfl) (ih h)
    | content octets => exact .cons (.content octets) (ih h)
    | id word =>
      exact .cons (.id word (h word List.mem_cons_self)) (ih fun id hid =>
        h id (List.mem_cons_of_mem _ hid))

theorem append_eq_append_id {front behind : List Part} {word : UInt32}
    (h : first ++ second = front ++ .id word :: behind) :
    (∃ rest, first = front ++ .id word :: rest) ∨ ∃ rest,
      front = first ++ rest ∧ second = rest ++ .id word :: behind := by
  rcases List.append_eq_append_iff.1 h with ⟨rest, hfront, hsecond⟩ | ⟨rest, hfirst, hbehind⟩
  · exact .inr ⟨rest, hfront, hsecond⟩
  · cases rest with
    | nil => exact .inr ⟨[], by rw [hfirst, List.append_nil, List.append_nil], hbehind.symm⟩
    | cons part rest =>
      cases hbehind
      exact .inl ⟨rest, hfirst⟩

theorem exists_nth_id {parts : List Part} {n : Nat} (h : n < (ids parts).length) :
    ∃ front word behind, parts = front ++ .id word :: behind ∧ (ids front).length = n := by
  induction parts generalizing n with
  | nil => cases h
  | cons part parts ih =>
    cases part with
    | padding octets =>
      obtain ⟨front, word, behind, rfl, hfront⟩ := ih h
      exact ⟨.padding octets :: front, word, behind, rfl, hfront⟩
    | content octets =>
      obtain ⟨front, word, behind, rfl, hfront⟩ := ih h
      exact ⟨.content octets :: front, word, behind, rfl, hfront⟩
    | id first =>
      cases n with
      | zero => exact ⟨[], first, parts, rfl, rfl⟩
      | succ n =>
        obtain ⟨front, word, behind, rfl, hfront⟩ := ih (Nat.lt_of_succ_lt_succ h)
        exact ⟨.id first :: front, word, behind, rfl, congrArg (· + 1) hfront⟩

end Part

/-- The octets with these parts are taken off the stream, however it goes on. -/
def Passes (run : Cursor → Except WireError (α × Cursor)) (order : ByteOrder) (cursor next : Cursor)
    (parts : List Part) (a : α) : Prop :=
  ∀ rest : List UInt8, rest.length = next.rest.length →
    run ⟨cursor.position, Part.message order parts ++ rest⟩ = .ok (a, ⟨next.position, rest⟩)

/-- Behind `taken` slots the run stops at the id for which there is none left under the limit,
whatever octets follow. -/
def Stops (limit taken : Nat) (run : Cursor → Except WireError (α × Cursor)) (order : ByteOrder)
    (cursor : Cursor) (parts : List Part) : Prop :=
  ∀ front word behind rest, parts = front ++ .id word :: behind →
    taken + (Part.ids front).length = limit →
      (Part.message order front ++ (order.octets 4 word.toNat ++ rest)).length =
        cursor.rest.length →
    run ⟨cursor.position, Part.message order front ++ (order.octets 4 word.toNat ++ rest)⟩ =
      .error (.limitExceeded (limit + 1) limit)

namespace Stops

variable {run : Cursor → Except WireError (α × Cursor)} {a : α}

theorem of_ids_eq_nil (h : Part.ids parts = []) : Stops limit taken run order cursor parts := by
  rintro front word behind rest rfl _ _
  rw [Part.ids_append] at h
  exact absurd (List.append_eq_nil_iff.1 h).2 (List.cons_ne_nil _ _)

theorem congr {run' : Cursor → Except WireError (α × Cursor)}
    (h : Stops limit taken run order cursor parts)
    (hrun : ∀ octets : List UInt8, octets.length = cursor.rest.length →
      run' ⟨cursor.position, octets⟩ = run ⟨cursor.position, octets⟩) :
    Stops limit taken run' order cursor parts := by
  intro front word behind rest hparts htaken hlength
  rw [hrun _ hlength]
  exact h front word behind rest hparts htaken hlength

theorem bind (later : α × Cursor → Except WireError (β × Cursor))
    (hcount : (Part.ids first).length = slots)
    (hrest : cursor.rest = Part.message order first ++ middle.rest)
    (hstops : Stops limit taken run order cursor first)
    (hpasses : taken + slots ≤ limit → Passes run order cursor middle first a)
    (hlater : Stops limit (taken + slots) (fun cursor => later (a, cursor)) order middle second) :
    Stops limit taken (fun cursor => run cursor >>= later) order cursor (first ++ second) := by
  intro front word behind rest hparts htaken hlength
  -- The id that is one too many is in the first part, or in the second and the first is passed.
  rcases Part.append_eq_append_id hparts with ⟨behind', hfirst⟩ | ⟨front', rfl, hsecond⟩
  · have herror := hstops front word behind' rest hfirst htaken hlength
    dsimp only
    rw [herror]
    rfl
  · rw [Part.ids_append, List.length_append, hcount, ← Nat.add_assoc] at htaken
    have hmiddle : (Part.message order front' ++ (order.octets 4 word.toNat ++ rest)).length =
        middle.rest.length := by
      rw [Part.message_append, List.append_assoc, hrest] at hlength
      simpa only [List.length_append, Nat.add_left_cancel_iff] using hlength
    have hfirst := hpasses (by omega) _ hmiddle
    dsimp only
    rw [Part.message_append, List.append_assoc, hfirst]
    exact hlater front' word behind rest hsecond htaken hmiddle

theorem map (h : Stops limit taken run order cursor parts) (f : α × Cursor → β × Cursor) :
    Stops limit taken (fun cursor => run cursor >>= fun result => .ok (f result)) order cursor
      parts := by
  intro front word behind rest hparts htaken hlength
  dsimp only
  rw [h front word behind rest hparts htaken hlength]
  rfl

theorem bind_reader {reader : Reader WireError α} {behind : α → Reader WireError β}
    (hcount : (Part.ids first).length = slots)
    (hrest : cursor.rest = Part.message order first ++ middle.rest)
    (hstops : Stops limit taken (reader.run order) order cursor first)
    (hpasses : taken + slots ≤ limit → Passes (reader.run order) order cursor middle first a)
    (hlater : Stops limit (taken + slots) ((behind a).run order) order middle second) :
    Stops limit taken ((reader >>= behind).run order) order cursor (first ++ second) := by
  have hboth :=
    bind (fun result => (behind result.1).run order result.2) hcount hrest hstops hpasses hlater
  exact hboth.congr fun _ _ => Reader.run_bind_eq _ _ _ _

theorem map_reader {reader : Reader WireError α}
    (h : Stops limit taken (reader.run order) order cursor parts) (f : α → β) :
    Stops limit taken ((reader >>= fun a => pure (f a)).run order) order cursor parts :=
  (h.map fun result => (f result.1, result.2)).congr fun _ _ => Reader.run_bind_eq _ _ _ _

end Stops

/-! ### Readers of values -/

/-- Each run of the telling reader is stopped by the limit. -/
def Halts (limit taken : Nat) (reader : Reader WireError (Found α))
    (telling : Telling (Found α)) : Prop :=
  ∀ order cursor found parts next, telling.run order cursor = .ok ((found, parts), next) →
    Stops limit taken (reader.run order) order cursor parts

/-- Under the limit the reader takes again what the telling reader has taken, if there are slots for
all of it. -/
def Retakes (limit taken : Nat) (reader : Reader WireError (Found α))
    (telling : Telling (Found α)) : Prop :=
  ∀ order cursor found parts next, telling.run order cursor = .ok ((found, parts), next) →
    taken + found.announced.length ≤ limit → Passes (reader.run order) order cursor next parts found

theorem Retakes.of_bounded {reader : Reader WireError (Found α)} {telling : Telling (Found α)}
    (hbounded : taken ≤ limit → Bounded limit (Found.slotsFrom taken) reader telling.erase)
    (h : telling.Announces) :
    Retakes limit taken reader telling := by
  intro order cursor found parts next heq hle rest hlength
  obtain ⟨hids, hindifferent⟩ := h order cursor found parts next heq
  have hagain :=
    hindifferent.again parts rest (Part.alike_self parts hindifferent.ids_ne_null) hlength
  have hrenamed : Announcement.renamed (Part.ids parts) found.announced = found.announced := by
    rw [hids, Announcement.renamed, List.zipWith_map_left, List.zipWith_self, List.map_id']
  rw [hrenamed] at hagain
  exact (hbounded (by omega) order _).eq_ok_iff.2 ⟨Telling.run_erase_of_run hagain, hle⟩

namespace Halts

variable {reader : Reader WireError (Found α)} {telling : Telling (Found α)}

theorem pure (a : α) : Halts limit taken (Pure.pure ⟨a, []⟩) (Pure.pure ⟨a, []⟩) := by
  intro order cursor found parts next heq
  cases heq
  exact .of_ids_eq_nil rfl

theorem front {γ : Type} {first : Telling γ} (h : first.Plain)
    {reader : γ → Reader WireError (Found α)} {telling : γ → Telling (Found α)}
    (hnext : ∀ c, Halts limit taken (reader c) (telling c)) :
    Halts limit taken (first.erase >>= reader) (first >>= telling) := by
  intro order cursor found parts last heq
  obtain ⟨c, parts, middle, parts', hfirst, hsecond, rfl⟩ := Telling.run_bind_eq_ok.1 heq
  obtain ⟨hids, hindifferent⟩ := h order cursor c parts middle hfirst
  have hlater := hnext c order middle found parts' last hsecond
  have hpasses : Passes (first.erase.run order) order cursor middle parts c := fun rest hlength =>
    Telling.run_erase_of_run (hindifferent.again parts rest
      (Part.alike_self parts hindifferent.ids_ne_null) hlength)
  exact .bind_reader (congrArg List.length hids) hindifferent.rest_eq (.of_ids_eq_nil hids)
    (fun _ => hpasses) hlater

theorem map (h : Halts limit taken reader telling) (f : α → β) :
    Halts limit taken (reader >>= fun found => Pure.pure (found.map f))
      (telling >>= fun found => Pure.pure (found.map f)) := by
  intro order cursor found parts last heq
  obtain ⟨found, hfound, rfl⟩ := Telling.run_map_eq_ok.1 heq
  exact (h order cursor found parts last hfound).map_reader _

theorem cons {others : Nat → Reader WireError (Found (List α))}
    {otherTellings : Nat → Telling (Found (List α))} (h : Halts limit taken reader telling)
    (hretakes : Retakes limit taken reader telling) (hannounces : telling.Announces)
    (hothers : ∀ taken, Halts limit taken (others taken) (otherTellings taken)) :
    Halts limit taken
      (do
        let first ← reader
        let others ← others (taken + first.announced.length)
        return ⟨first.value :: others.value, first.announced ++ others.announced⟩)
      (do
        let first ← telling
        let others ← otherTellings (taken + first.announced.length)
        return ⟨first.value :: others.value, first.announced ++ others.announced⟩) := by
  intro order cursor found parts last heq
  obtain ⟨first, parts, middle, parts', hfirst, hbehind, rfl⟩ := Telling.run_bind_eq_ok.1 heq
  obtain ⟨later, hlater, rfl⟩ := Telling.run_map_eq_ok.1 hbehind
  obtain ⟨hids, hindifferent⟩ := hannounces order cursor first parts middle hfirst
  have hlater := (hothers _ order middle later parts' _ hlater).map_reader fun later =>
    (⟨first.value :: later.value, first.announced ++ later.announced⟩ : Found (List α))
  exact .bind_reader (by rw [hids, List.length_map]) hindifferent.rest_eq
    (h order cursor first parts middle hfirst)
    (hretakes order cursor first parts middle hfirst) hlater

theorem elements {reader : Nat → Reader WireError (Found α)} {telling : Nat → Telling (Found α)}
    (h : ∀ taken, Halts limit taken (reader taken) (telling taken))
    (hretakes : ∀ taken, Retakes limit taken (reader taken) (telling taken))
    (hannounces : ∀ taken, (telling taken).Announces) (count taken : Nat) :
    Halts limit taken (readElements reader count taken) (Telling.elements telling count taken) := by
  have hrow : ∀ taken,
      Halts limit taken (readRow reader count taken) (Telling.row telling count taken) := by
    induction count with
    | zero => exact fun taken => pure []
    | succ count ih => exact fun taken => cons (h taken) (hretakes taken) (hannounces taken) ih
  intro order cursor found parts next heq
  simp only [Telling.elements] at heq
  split at heq
  · rename_i hroom
    refine (hrow taken order cursor found parts next heq).congr fun octets hlength => ?_
    rw [run_readElements, if_pos (by rwa [hlength])]
  · cases heq

end Halts

namespace Shape

theorem read_pointer_halts (target : Shape) (taken : Nat) :
    Halts limit taken (read (some limit) (.pointer target) taken)
      (tell none (.pointer target) taken) := by
  intro order cursor found parts last heq
  rw [tell] at heq
  obtain ⟨id, parts, middle, parts', hid, hbehind, rfl⟩ := Telling.run_bind_eq_ok.1 heq
  obtain ⟨word, skipped, hskipped, rfl, rfl, _, _⟩ := Telling.run_referentId_eq_ok.1 hid
  by_cases hnull : word = nullId
  · rw [if_pos hnull] at hbehind
    cases hbehind
    exact .of_ids_eq_nil (by rw [Telling.wordPart, if_pos hnull]; rfl)
  · rw [if_neg hnull] at hbehind
    cases hbehind
    rw [Telling.wordPart, if_neg hnull]
    intro front word' behind rest hparts htaken _
    obtain ⟨rfl, rfl⟩ : front = [.padding skipped] ∧ word' = word := by
      cases front with
      | nil => cases hparts
      | cons part front =>
        cases front with
        | nil =>
          cases hparts
          exact ⟨rfl, rfl⟩
        | cons part' front => simp at hparts
    obtain rfl : taken = limit := htaken
    have hword : Reader.referentId.run order
        ⟨cursor.position,
          Part.message order [.padding skipped] ++ (order.octets 4 word'.toNat ++ rest)⟩ =
          .ok (some word', ⟨cursor.position + padding 4 cursor.position + 4, rest⟩) := by
      rw [← Telling.erase_referentId]
      refine Telling.run_erase_of_run (Telling.run_referentId_eq_ok.2
        ⟨word', skipped, hskipped, (if_neg hnull).symm, rfl, ?_, rfl⟩)
      rw [Part.message_cons, Part.octets, List.append_assoc]
      rfl
    have hcheck : checkSlots (some taken) taken = .error (.limitExceeded (taken + 1) taken) :=
      if_pos (Nat.le_refl _)
    rw [read, Reader.run_bind, hword]
    dsimp only
    rw [Reader.run_bind, hcheck]
    rfl

theorem read_retakes (shape : Shape) (taken : Nat) :
    Retakes limit taken (read (some limit) shape taken) (tell none shape taken) := by
  refine .of_bounded (fun hle => ?_) (tell_announces none shape taken)
  rw [erase_tell]
  exact read_bounded shape taken hle

mutual

theorem read_halts : (shape : Shape) → (taken : Nat) →
    Halts limit taken (read (some limit) shape taken) (tell none shape taken)
  | .u8, _ => by
    rw [read, tell, ← Telling.erase_u8]
    exact .front ((Telling.word_plain _).map _) fun _ => .pure _
  | .u16, _ => by
    rw [read, tell, ← Telling.erase_u16]
    exact .front ((Telling.word_plain _).map _) fun _ => .pure _
  | .u32, _ => by
    rw [read, tell, ← Telling.erase_u32]
    exact .front ((Telling.word_plain _).map _) fun _ => .pure _
  | .u64, _ => by
    rw [read, tell, ← Telling.erase_u64]
    exact .front ((Telling.word_plain _).map _) fun _ => .pure _
  | .guid, _ => by
    rw [read, tell, ← Telling.erase_guid]
    exact .front Telling.guid_plain fun _ => .pure _
  | .pointer target, taken => read_pointer_halts target taken
  | .array element, taken => by
    rw [read, tell, ← Telling.erase_count]
    refine .front Telling.count_plain fun count => .map ?_ _
    exact .elements (read_halts element) (read_retakes element)
      (tell_announces none element) count taken
  | .struct members, taken => by
    rw [read, tell, ← Telling.erase_hoistedCount, ← Telling.erase_align]
    refine .front (Telling.hoistedCount_plain members) fun count =>
      .front (Telling.align_plain _) fun _ => .map ?_ _
    exact readMembers_halts members count taken

theorem readMembers_halts : (members : List Shape) → (count : Option Nat) → (taken : Nat) →
    Halts limit taken (readMembers (some limit) members count taken)
      (tellMembers none members count taken)
  | [], count, taken => by
    rw [readMembers, tellMembers]
    exact .pure _
  | member :: members, count, taken => by
    by_cases hspecial : ∃ element n, member = .array element ∧ members = [] ∧ count = some n
    · obtain ⟨element, n, rfl, rfl, rfl⟩ := hspecial
      rw [readMembers, tellMembers]
      exact .map (.elements (read_halts element) (read_retakes element)
        (tell_announces none element) n taken) _
    · have hmember : ∀ element n, count = some n → member = .array element → members = [] → False :=
        fun element n hcount hmember hmembers => hspecial ⟨element, n, hmember, hmembers, hcount⟩
      rw [readMembers.eq_3 _ _ _ _ _ hmember, tellMembers.eq_3 _ _ _ _ _ hmember]
      exact .cons (read_halts member taken) (read_retakes member taken)
        (tell_announces none member taken) (readMembers_halts members count)

end

end Shape

/-! ### The whole graph -/

theorem readReferents_stops {queue : List Announcement} {taken : Nat} {cursor last : Cursor}
    {referents : List Referent} {parts : List Part}
    (h : (tellQueue none queue taken).run order cursor = .ok ((referents, parts), last)) :
    Stops limit taken (readReferents (some limit) order queue taken) order cursor parts := by
  induction queue, taken, cursor using queue_induction none order generalizing referents parts with
  | nil taken cursor =>
    rw [tellQueue_nil] at h
    cases h
    exact .of_ids_eq_nil rfl
  | cons announcement queue taken cursor ih =>
    rw [tellQueue_cons] at h
    obtain ⟨found, parts, middle, parts', hfound, hbehind, rfl⟩ := Telling.run_bind_eq_ok.1 h
    obtain ⟨others, hothers, rfl⟩ := Telling.run_map_eq_ok.1 hbehind
    obtain ⟨hids, hindifferent⟩ :=
      Shape.tell_announces none announcement.target taken order cursor found parts middle hfound
    have hlater := (ih found middle (Shape.run_read_of_tell hfound) hothers).map fun others =>
      ((⟨announcement.id, found.value⟩ : Referent) :: others.1, others.2)
    have hboth := Stops.bind
      (fun result =>
        readReferents (some limit) order (queue ++ result.1.announced)
          (taken + result.1.announced.length) result.2 >>= fun others =>
        .ok (⟨announcement.id, result.1.value⟩ :: others.1, others.2))
      (by rw [hids, List.length_map]) hindifferent.rest_eq
      (Shape.read_halts announcement.target taken order cursor found parts middle hfound)
      (Shape.read_retakes announcement.target taken order cursor found parts middle hfound) hlater
    exact hboth.congr fun _ _ =>
      readReferents_cons_bind (some limit) order announcement queue taken _

namespace Graph

variable {shape : Shape} {graph : Graph}

theorem read_stops (h : (tell none shape).run order cursor = .ok ((graph, parts), next)) :
    Stops limit 0 ((read (some limit) shape).run order) order cursor parts := by
  obtain ⟨found, parts, middle, parts', hfound, hbehind, rfl⟩ := Telling.run_bind_eq_ok.1 h
  obtain ⟨referents, hreferents, rfl⟩ := Telling.run_map_eq_ok.1 hbehind
  obtain ⟨hids, hindifferent⟩ :=
    Shape.tell_announces none shape 0 order cursor found parts middle hfound
  have hstops : Stops limit _ _ _ _ _ := readReferents_stops hreferents
  have hlater := hstops.map fun referents => ((⟨found.value, referents.1⟩ : Graph), referents.2)
  exact Stops.bind
    (fun result =>
      readReferents (some limit) order result.1.announced result.1.announced.length result.2 >>=
        fun referents => .ok ((⟨result.1.value, referents.1⟩ : Graph), referents.2))
    (by rw [hids, List.length_map]) hindifferent.rest_eq
    (Shape.read_halts shape 0 order cursor found parts middle hfound)
    (Shape.read_retakes shape 0 order cursor found parts middle hfound)
    (by rw [Nat.zero_add]; exact hlater)

/-- Of the ids that reading without a limit tells, which are those of the referents in order, one
has `limit` ids in front of it. Under the limit, octets that are the same up to and including that
id, and as many, are all refused for the limit. -/
def StopsAtId (limit : Nat) (shape : Shape) (order : ByteOrder) (cursor next : Cursor)
    (graph : Graph) : Prop :=
  ∃ front word behind, (tell none shape).run order cursor =
    .ok ((graph, front ++ .id word :: behind), next) ∧ (Part.ids front).length = limit ∧
      Part.ids (front ++ .id word :: behind) = graph.referents.map (·.id) ∧
    cursor.rest = Part.message order front ++
      (order.octets 4 word.toNat ++ (Part.message order behind ++ next.rest)) ∧
    ∀ rest : List UInt8, rest.length = (Part.message order behind ++ next.rest).length →
      (read (some limit) shape).run order
          ⟨cursor.position, Part.message order front ++ (order.octets 4 word.toNat ++ rest)⟩ =
        .error (.limitExceeded (limit + 1) limit)

theorem stopsAtId_of_read (h : (read none shape).run order cursor = .ok (graph, next))
    (hmore : limit < graph.referents.length) : StopsAtId limit shape order cursor next graph := by
  rw [← erase_tell] at h
  obtain ⟨parts, htold⟩ := Telling.exists_run_of_erase h
  obtain ⟨hids, hindifferent⟩ := tell_indifferent htold
  rw [← List.length_map (·.id), hids] at hmore
  obtain ⟨front, word, behind, rfl, hfront⟩ := Part.exists_nth_id hmore
  have hrest : cursor.rest =
      Part.message order front ++
        (order.octets 4 word.toNat ++ (Part.message order behind ++ next.rest)) := by
    rw [hindifferent.rest_eq, Part.message_append, Part.message_cons, Part.octets,
      List.append_assoc, List.append_assoc]
  refine ⟨front, word, behind, htold, hfront, hids.symm, hrest, fun rest hlength => ?_⟩
  refine read_stops htold front word behind rest rfl (by rw [Nat.zero_add, hfront]) ?_
  rw [hrest]
  simp only [List.length_append] at hlength ⊢
  omega

/-- A limit on the number of referents only cuts off. A graph within the limit is read as without
one. A graph with more referents is refused, whatever stands behind the id of the first one too
many. What fails without a limit fails under it, in the same way or for the limit. So what is read
under a limit is read under a greater one. -/
theorem read_limited (limit : Nat) (shape : Shape) (order : ByteOrder) (cursor : Cursor) :
    (tell none shape).erase = read none shape ∧
      (∀ graph next, (read none shape).run order cursor = .ok (graph, next) →
        (graph.referents.length ≤ limit →
            (read (some limit) shape).run order cursor = .ok (graph, next)) ∧
          (limit < graph.referents.length →
            (read (some limit) shape).run order cursor = .error (.limitExceeded (limit + 1) limit) ∧
              StopsAtId limit shape order cursor next graph)) ∧
      (∀ error, (read none shape).run order cursor = .error error →
        (read (some limit) shape).run order cursor = .error error ∨
          (read (some limit) shape).run order cursor = .error (.limitExceeded (limit + 1) limit)) ∧
      ∀ more graph next, limit ≤ more →
        (read (some limit) shape).run order cursor = .ok (graph, next) →
        (read (some more) shape).run order cursor = .ok (graph, next) := by
  have hcut := read_cutOff limit shape order cursor
  refine ⟨erase_tell none shape,
    fun graph next h => ⟨fun hle => ?_, fun hmore => ⟨?_, stopsAtId_of_read h hmore⟩⟩,
    fun error h => ?_, fun more graph next hle h => ?_⟩
  · exact run_read_some_eq_ok_iff.2 ⟨h, hle⟩
  · rw [h] at hcut
    exact hcut.trans (if_neg (Nat.not_le.2 hmore))
  · rw [h] at hcut
    exact hcut
  · obtain ⟨hread, hreferents⟩ := run_read_some_eq_ok_iff.1 h
    exact run_read_some_eq_ok_iff.2 ⟨hread, Nat.le_trans hreferents hle⟩

/-- A list of three referents, with a null pointer between its first two ids, under limits of two
and of three. -/
theorem read_limited_list :
    let shape : Shape := .struct [.pointer (.struct [.pointer (.pointer .u8)]), .pointer .u16]
    let graph : Graph := ⟨.struct [.pointer (some 0), .pointer none],
      [⟨1, .struct [.pointer (some 1)]⟩, ⟨2, .pointer (some 2)⟩, ⟨3, .u8 7⟩]⟩
    let cursor : Cursor := ⟨0, [1, 0, 0, 0, 0, 0, 0, 0, 2, 0, 0, 0, 3, 0, 0, 0, 7]⟩
    (read none shape).run .little cursor = .ok (graph, ⟨17, []⟩) ∧ graph.referents.length = 3 ∧
      (read (some 3) shape).run .little cursor = .ok (graph, ⟨17, []⟩) ∧
      ∃ (front behind : List Part) (word : UInt32), (Part.ids front).length = 2 ∧
        Part.ids (front ++ .id word :: behind) = [1, 2, 3] ∧
        ∀ rest : List UInt8, rest.length = (Part.message .little behind ++ []).length →
          (read (some 2) shape).run .little
              ⟨0, Part.message .little front ++ (ByteOrder.little.octets 4 word.toNat ++ rest)⟩ =
                .error (.limitExceeded 3 2) := by
  intro shape graph cursor
  have hread : (read none shape).run .little cursor = .ok (graph, ⟨17, []⟩) := by
    unfold shape graph cursor
    cbv
  have hlength : graph.referents.length = 3 := rfl
  have hwithin := ((read_limited 3 shape .little cursor).2.1 _ _ hread).1 (Nat.le_of_eq hlength)
  obtain ⟨_, front, word, behind, _, hfront, hids, _, hstops⟩ :=
    ((read_limited 2 shape .little cursor).2.1 _ _ hread).2 (hlength ▸ Nat.lt_succ_self 2)
  exact ⟨hread, hlength, hwithin, front, behind, word, hfront, hids, hstops⟩

end Graph

end OrpcWire
