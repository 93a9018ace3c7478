import OrpcWire.Proofs.Graph.Drain

/-!
# Reading under a limit

A limit on the number of slots only cuts off. Where the reader without a limit finds a graph, the
one with a limit finds the same graph if its referents are within the limit, and otherwise fails at
the first slot too many. Where the reader without a limit fails, the other one fails as well
(`Graph.read_cutOff`, `Graph.run_read_some_eq_ok_iff`).

`CutOff` is closed under sequences in which the count of slots does not go down (`CutOff.bind`), so
each way to build readers needs one short argument.
-/

namespace OrpcWire

variable {α β : Type} {limit : Nat}

/-- What a reader finds under a limit, compared with what it finds without one. -/
def CutOff (limit : Nat) (count : α → Nat)
    (bounded unbounded : Except WireError (α × Cursor)) : Prop :=
  match unbounded with
  | .ok (a, next) =>
    bounded = if count a ≤ limit then .ok (a, next) else .error (.limitExceeded (limit + 1) limit)
  | .error error => bounded = .error error ∨ bounded = .error (.limitExceeded (limit + 1) limit)

namespace CutOff

variable {count : α → Nat} {count' : β → Nat} {bounded unbounded : Except WireError (α × Cursor)}

theorem refl (h : ∀ a next, unbounded = .ok (a, next) → count a ≤ limit) :
    CutOff limit count unbounded unbounded := by
  unfold CutOff
  split
  · rename_i a next
    rw [if_pos (h a next rfl)]
  · exact .inl rfl

theorem eq_ok_iff (h : CutOff limit count bounded unbounded) {a : α} {next : Cursor} :
    bounded = .ok (a, next) ↔ unbounded = .ok (a, next) ∧ count a ≤ limit := by
  unfold CutOff at h
  split at h
  · rename_i b last
    rw [h]
    by_cases hcount : count b ≤ limit
    · rw [if_pos hcount]
      constructor
      · intro heq
        cases heq
        exact ⟨rfl, hcount⟩
      · exact fun h => h.1
    · rw [if_neg hcount]
      constructor
      · intro heq
        cases heq
      · rintro ⟨heq, hle⟩
        cases heq
        exact absurd hle hcount
  · constructor
    · intro heq
      rcases h with h | h <;> cases h.symm.trans heq
    · rintro ⟨heq, _⟩
      cases heq

theorem bind {next next' : α × Cursor → Except WireError (β × Cursor)}
    (h : CutOff limit count bounded unbounded)
    (hnext : ∀ a cursor, unbounded = .ok (a, cursor) → count a ≤ limit →
      CutOff limit count' (next (a, cursor)) (next' (a, cursor)))
    (hcount : ∀ a cursor b last, next' (a, cursor) = .ok (b, last) → count a ≤ count' b) :
    CutOff limit count' (bounded >>= next) (unbounded >>= next') := by
  cases unbounded with
  | error error =>
    rcases h with h | h <;> rw [h]
    · exact .inl rfl
    · exact .inr rfl
  | ok result =>
    obtain ⟨a, cursor⟩ := result
    have hfirst : bounded = if count a ≤ limit then .ok (a, cursor)
        else .error (.limitExceeded (limit + 1) limit) := h
    by_cases hle : count a ≤ limit
    · rw [hfirst, if_pos hle]
      exact hnext a cursor rfl hle
    · rw [hfirst, if_neg hle]
      show CutOff limit count' (.error _) (next' (a, cursor))
      -- The first step is cut off already, and the second step would take no slot back.
      cases hlater : next' (a, cursor) with
      | error error => exact .inr rfl
      | ok result =>
        have := hcount a cursor result.1 result.2 hlater
        show Except.error _ = _
        rw [if_neg (by omega)]

end CutOff

/-- A reader under a limit and the same reader without one. -/
def Bounded (limit : Nat) (count : α → Nat) (bounded unbounded : Reader WireError α) : Prop :=
  ∀ order cursor, CutOff limit count (bounded.run order cursor) (unbounded.run order cursor)

namespace Bounded

variable {count : α → Nat} {count' : β → Nat} {bounded unbounded : Reader WireError α}

theorem pure {a : α} (h : count a ≤ limit) : Bounded limit count (pure a) (pure a) := by
  intro order cursor
  apply CutOff.refl
  intro b next heq
  cases heq
  exact h

theorem same {taken : Nat} (reader : Reader WireError α) (h : taken ≤ limit) :
    Bounded limit (fun _ => taken) reader reader :=
  fun _ _ => CutOff.refl fun _ _ _ => h

theorem bind {next next' : α → Reader WireError β} (h : Bounded limit count bounded unbounded)
    (hnext : ∀ a, count a ≤ limit → Bounded limit count' (next a) (next' a))
    (hcount : ∀ a order cursor b last, (next' a).run order cursor = .ok (b, last) →
      count a ≤ count' b) :
    Bounded limit count' (bounded >>= next) (unbounded >>= next') := by
  intro order cursor
  rw [Reader.run_bind_eq, Reader.run_bind_eq]
  exact (h order cursor).bind (fun a middle _ hle => hnext a hle order middle)
    (fun a middle b last => hcount a order middle b last)

end Bounded

/-- The slots taken behind what was found. -/
def Found.slotsFrom (taken : Nat) (found : Found α) : Nat := taken + found.announced.length

namespace Bounded

variable {taken : Nat}

theorem front {γ : Type} (reader : Reader WireError γ) (htaken : taken ≤ limit)
    {next next' : γ → Reader WireError (Found α)}
    (hnext : ∀ c, Bounded limit (Found.slotsFrom taken) (next c) (next' c)) :
    Bounded limit (Found.slotsFrom taken) (reader >>= next) (reader >>= next') := by
  refine (same reader htaken).bind (fun c _ => hnext c) ?_
  intro _ _ _ found _ _
  exact Nat.le_add_right taken found.announced.length

theorem leaf (reader : Reader WireError α) (htaken : taken ≤ limit) (f : α → β) :
    Bounded limit (Found.slotsFrom taken) (reader >>= fun a => Pure.pure ⟨f a, []⟩)
      (reader >>= fun a => Pure.pure ⟨f a, []⟩) :=
  front reader htaken fun _ => pure htaken

theorem map {bounded unbounded : Reader WireError (Found α)}
    (h : Bounded limit (Found.slotsFrom taken) bounded unbounded) (f : α → β) :
    Bounded limit (Found.slotsFrom taken) (bounded >>= fun found => Pure.pure (found.map f))
      (unbounded >>= fun found => Pure.pure (found.map f)) := by
  refine h.bind (fun found hle => pure hle) ?_
  intro found order cursor found' last heq
  cases heq
  exact Nat.le_refl _

theorem cons {bounded unbounded : Reader WireError (Found α)}
    {others others' : Nat → Reader WireError (Found (List α))}
    (h : Bounded limit (Found.slotsFrom taken) bounded unbounded)
    (hothers : ∀ taken ≤ limit,
      Bounded limit (Found.slotsFrom taken) (others taken) (others' taken)) :
    Bounded limit (Found.slotsFrom taken)
      (do
        let first ← bounded
        let others ← others (taken + first.announced.length)
        return ⟨first.value :: others.value, first.announced ++ others.announced⟩)
      (do
        let first ← unbounded
        let others ← others' (taken + first.announced.length)
        return ⟨first.value :: others.value, first.announced ++ others.announced⟩) := by
  have hsum : ∀ (first : Found α) (later : Found (List α)),
      taken + first.announced.length + later.announced.length =
        taken + (first.announced ++ later.announced).length := by
    intro first later
    rw [List.length_append, Nat.add_assoc]
  refine h.bind (fun first hle => (hothers _ hle).bind (fun later hlater => pure ?_) ?_) ?_
  · show taken + (first.announced ++ later.announced).length ≤ limit
    rw [← hsum]
    exact hlater
  · intro later order cursor found last heq
    cases heq
    exact Nat.le_of_eq (hsum first later)
  · intro first order cursor found last heq
    obtain ⟨later, middle, _, hpure⟩ := Reader.run_bind_eq_ok.1 heq
    cases hpure
    show taken + first.announced.length ≤ taken + (first.announced ++ later.announced).length
    rw [← hsum]
    exact Nat.le_add_right _ _

theorem elements {reader reader' : Nat → Reader WireError (Found α)}
    (h : ∀ taken ≤ limit, Bounded limit (Found.slotsFrom taken) (reader taken) (reader' taken))
    (count : Nat) (htaken : taken ≤ limit) :
    Bounded limit (Found.slotsFrom taken) (readElements reader count taken)
      (readElements reader' count taken) := by
  have hrow : ∀ taken ≤ limit, Bounded limit (Found.slotsFrom taken) (readRow reader count taken)
      (readRow reader' count taken) := by
    induction count with
    | zero => exact fun taken htaken => pure htaken
    | succ count ih => exact fun taken htaken => cons (h taken htaken) ih
  intro order cursor
  rw [run_readElements, run_readElements]
  by_cases hroom : count ≤ cursor.rest.length
  · rw [if_pos hroom, if_pos hroom]
    exact hrow taken htaken order cursor
  · rw [if_neg hroom, if_neg hroom]
    exact .inl rfl

end Bounded

namespace Shape

theorem read_pointer_bounded (target : Shape) {taken : Nat} (htaken : taken ≤ limit) :
    Bounded limit (Found.slotsFrom taken) (read (some limit) (.pointer target) taken)
      (read none (.pointer target) taken) := by
  rw [read, read]
  refine Bounded.front _ htaken fun id => ?_
  cases id with
  | none => exact Bounded.pure htaken
  | some id =>
    intro order cursor
    show _ = if taken + 1 ≤ limit then _ else _
    by_cases hle : limit ≤ taken
    · obtain rfl : taken = limit := by omega
      have hcheck : checkSlots (some taken) taken = .error (.limitExceeded (taken + 1) taken) :=
        if_pos hle
      rw [if_neg (by omega), Reader.run_bind]
      simp only [Reader.ofExcept, hcheck, Except.map]
    · have hcheck : checkSlots (some limit) taken = .ok () := if_neg hle
      rw [if_pos (by omega), Reader.run_bind]
      simp only [Reader.ofExcept, hcheck, Except.map]
      rfl

mutual

theorem read_bounded : (shape : Shape) → (taken : Nat) → taken ≤ limit →
    Bounded limit (Found.slotsFrom taken) (read (some limit) shape taken) (read none shape taken)
  | .u8, _, h | .u16, _, h | .u32, _, h | .u64, _, h | .guid, _, h => by
    rw [read, read]
    exact Bounded.leaf _ h _
  | .pointer target, _, h => read_pointer_bounded target h
  | .array element, _, h => by
    rw [read, read]
    refine Bounded.front _ h fun count => Bounded.map ?_ _
    exact Bounded.elements (read_bounded element) count h
  | .struct members, taken, h => by
    rw [read, read]
    refine Bounded.front _ h fun count => Bounded.front _ h fun _ => Bounded.map ?_ _
    exact readMembers_bounded members count taken h

theorem readMembers_bounded : (members : List Shape) → (count : Option Nat) → (taken : Nat) →
    taken ≤ limit →
    Bounded limit (Found.slotsFrom taken) (readMembers (some limit) members count taken)
      (readMembers none members count taken)
  | [], count, taken, h => by
    rw [readMembers, readMembers]
    exact Bounded.pure h
  | member :: members, count, taken, h => by
    by_cases hspecial : ∃ element n, member = .array element ∧ members = [] ∧ count = some n
    · obtain ⟨element, n, rfl, rfl, rfl⟩ := hspecial
      rw [readMembers, readMembers]
      exact Bounded.map (Bounded.elements (read_bounded element) n h) _
    · have hmember : ∀ element n, count = some n → member = .array element → members = [] → False :=
        fun element n hcount hmember hmembers => hspecial ⟨element, n, hmember, hmembers, hcount⟩
      rw [readMembers.eq_3 _ _ _ _ _ hmember, readMembers.eq_3 _ _ _ _ _ hmember]
      exact Bounded.cons (read_bounded member taken h) (readMembers_bounded members count)

end

end Shape

/-! ### The whole graph -/

variable {order : ByteOrder} {shape : Shape} {cursor next : Cursor}

theorem readReferents_cons_bind (bound : Option Nat) (order : ByteOrder)
    (announcement : Announcement) (queue : List Announcement) (taken : Nat) (cursor : Cursor) :
    readReferents bound order (announcement :: queue) taken cursor =
      ((announcement.target.read bound taken).run order cursor >>= fun result =>
        readReferents bound order (queue ++ result.1.announced)
          (taken + result.1.announced.length) result.2 >>= fun others =>
            .ok (⟨announcement.id, result.1.value⟩ :: others.1, others.2)) := by
  rw [readReferents_cons]
  cases (announcement.target.read bound taken).run order cursor with
  | error error => rfl
  | ok result =>
    show Except.map _ (readReferents bound order (queue ++ result.1.announced) _ result.2) =
      readReferents bound order (queue ++ result.1.announced) _ result.2 >>= _
    cases readReferents bound order (queue ++ result.1.announced)
      (taken + result.1.announced.length) result.2 <;> rfl

theorem length_queue_le {bound : Option Nat} {taken : Nat} {queue : List Announcement}
    {referents : List Referent}
    (h : readReferents bound order queue taken cursor = .ok (referents, next))
    (htaken : queue.length ≤ taken) : queue.length ≤ referents.length := by
  have hslot : taken = (taken - queue.length) + queue.length := by omega
  obtain ⟨resolved, hresolved, rfl⟩ := drains_of_readReferents hslot h
  rw [List.length_map, hresolved.length_eq]
  exact Nat.le_add_right _ _

theorem readReferents_cutOff {slot taken : Nat} (queue : List Announcement) (cursor : Cursor)
    (htaken : taken = slot + queue.length) (hle : taken ≤ limit) :
    CutOff limit (fun referents => slot + referents.length)
      (readReferents (some limit) order queue taken cursor)
        (readReferents none order queue taken cursor) := by
  induction queue, taken, cursor using queue_induction none order generalizing slot with
  | nil taken cursor =>
    rw [readReferents, readReferents]
    apply CutOff.refl
    intro referents next heq
    cases heq
    exact htaken ▸ hle
  | cons announcement queue taken cursor ih =>
    have hnext : ∀ found : Found Value,
        taken + found.announced.length = slot + 1 + (queue ++ found.announced).length := by
      intro found
      rw [htaken, List.length_append, List.length_cons]
      omega
    rw [readReferents_cons_bind, readReferents_cons_bind]
    refine (Shape.read_bounded announcement.target taken hle order cursor).bind
      (fun found middle hfound hfound_le => ?_) ?_
    · refine (ih found middle hfound (hnext found) hfound_le).bind
        (fun referents last _ hreferents => ?_) ?_
      · apply CutOff.refl
        intro all last' heq
        cases heq
        show slot + (referents.length + 1) ≤ limit
        omega
      · intro referents last all last' heq
        cases heq
        show slot + 1 + referents.length ≤ slot + (referents.length + 1)
        omega
    · intro found middle referents last heq
      obtain ⟨others, hothers, hpure⟩ := bind_eq_ok_iff.1 heq
      cases hpure
      have hslots := hnext found
      have hqueue : (queue ++ found.announced).length ≤ others.1.length :=
        length_queue_le hothers (hslots ▸ Nat.le_add_left _ _)
      show taken + found.announced.length ≤ slot + (others.1.length + 1)
      omega

/-- A limit cuts graphs with more referents off and changes nothing about others. -/
theorem Graph.read_cutOff (limit : Nat) (shape : Shape) :
    Bounded limit (fun graph => graph.referents.length) (Graph.read (some limit) shape)
      (Graph.read none shape) := by
  intro order cursor
  refine CutOff.bind (Shape.read_bounded shape 0 (Nat.zero_le _) order cursor)
    (fun found middle _ hle => ?_) ?_
  · rw [Found.slotsFrom, Nat.zero_add] at hle
    refine CutOff.bind (readReferents_cutOff _ middle (Nat.zero_add _).symm hle)
      (fun referents last _ hreferents => ?_) ?_
    · apply CutOff.refl
      intro graph last' heq
      cases heq
      rwa [Nat.zero_add] at hreferents
    · intro referents last graph last' heq
      cases heq
      exact Nat.le_of_eq (Nat.zero_add _)
  · intro found middle graph last heq
    obtain ⟨others, hothers, hpure⟩ := bind_eq_ok_iff.1 heq
    cases hpure
    show 0 + found.announced.length ≤ _
    rw [Nat.zero_add]
    exact length_queue_le hothers (Nat.le_refl _)

theorem Graph.run_read_some_eq_ok_iff {graph : Graph} :
    (Graph.read (some limit) shape).run order cursor = .ok (graph, next) ↔
      (Graph.read none shape).run order cursor = .ok (graph, next) ∧
      graph.referents.length ≤ limit :=
  (Graph.read_cutOff limit shape order cursor).eq_ok_iff

end OrpcWire
