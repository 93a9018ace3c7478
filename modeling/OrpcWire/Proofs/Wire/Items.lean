import OrpcWire.Proofs.Wire.Finds

/-!
# Readers of items

`reader.Items valid layout`: the reader answers with an item just where the layout of a valid one
stands. Nothing is said about where it answers none, since items may end in more than one way.
Repeating it then answers just the items that stand one after the other, up to where it answers none
(`Items.run_collect_eq_ok_iff`).
-/

namespace OrpcWire.Reader

section

variable {ε α β : Type} {valid : α → Prop} {layout : α → Layout} {order : ByteOrder}
  {cursor middle last : Cursor}

/-- The reader answers with an item just where its layout stands, and stops behind it. -/
def Items (reader : Reader ε (Option α)) (valid : α → Prop) (layout : α → Layout) : Prop :=
  ∀ order cursor a next,
    reader.run order cursor = .ok (some a, next) ↔ valid a ∧ (layout a).Between order cursor next

variable {reader : Reader ε (Option α)} {hreader : reader.Progresses} {items : List α}

theorem Items.run_collect_behind (h : reader.Items valid layout) (hitems : ∀ a ∈ items, valid a)
    (hbetween : Layout.Between order (items.flatMap layout) cursor middle) :
    (collect reader hreader).run order cursor =
      ((collect reader hreader).run order middle).map fun (more, last) =>
        (items ++ more, last) := by
  induction items generalizing cursor with
  | nil =>
    rw [Layout.between_nil.1 hbetween]
    cases (collect reader hreader).run order middle <;> rfl
  | cons a items ih =>
    obtain ⟨ha, hothers⟩ := List.forall_mem_cons.1 hitems
    rw [List.flatMap_cons] at hbetween
    obtain ⟨next, hfirst, hbetween⟩ := Layout.between_append.1 hbetween
    rw [collect_eq, run_bind, (h order cursor a next).2 ⟨ha, hfirst⟩]
    show ((collect reader hreader) >>= fun found => pure (a :: found)).run order next = _
    rw [run_bind, ih hothers hbetween, ← collect_eq]
    cases (collect reader hreader).run order middle <;> rfl

/-- Repeating the reader answers the items that stand one after the other, up to where it answers
none. -/
theorem Items.run_collect_eq_ok_iff (h : reader.Items valid layout) :
    (collect reader hreader).run order cursor = .ok (items, last) ↔ (∀ a ∈ items, valid a) ∧
      ∃ middle, Layout.Between order (items.flatMap layout) cursor middle ∧
        reader.run order middle = .ok (none, last) := by
  constructor
  · intro hrun
    induction items generalizing cursor with
    | nil =>
      rw [collect_eq] at hrun
      obtain ⟨answer, next, hanswer, hrun⟩ := run_bind_eq_ok.1 hrun
      cases answer with
      | none =>
        cases hrun
        exact ⟨by simp, cursor, Layout.between_nil.2 rfl, hanswer⟩
      | some a =>
        obtain ⟨found, next, _, hfound⟩ := run_bind_eq_ok.1 hrun
        cases hfound
    | cons a items ih =>
      rw [collect_eq] at hrun
      obtain ⟨answer, next, hanswer, hrun⟩ := run_bind_eq_ok.1 hrun
      cases answer with
      | none => cases hrun
      | some a' =>
        obtain ⟨found, last', hothers, hfound⟩ := run_bind_eq_ok.1 hrun
        cases hfound
        obtain ⟨ha, hfirst⟩ := (h order cursor a next).1 hanswer
        obtain ⟨hitems, middle, hbetween, hnone⟩ := ih hothers
        refine ⟨List.forall_mem_cons.2 ⟨ha, hitems⟩, middle, ?_, hnone⟩
        rw [List.flatMap_cons]
        exact Layout.between_append.2 ⟨next, hfirst, hbetween⟩
  · rintro ⟨hitems, middle, hbetween, hnone⟩
    rw [h.run_collect_behind hitems hbetween, collect_eq, run_bind, hnone]
    show Except.ok (items ++ [], last) = _
    rw [List.append_nil]

theorem collect_uses_first {n : Nat} (h : reader.Uses n) : (collect reader hreader).Uses n := by
  have hothers : ∀ answer, (match answer with
      | none => return []
      | some a => return a :: (← collect reader hreader) : Reader ε (List α)).Uses 0 := by
    intro answer
    cases answer with
    | none => exact Uses.pure _
    | some a =>
      exact (collect_uses reader hreader (h.mono (Nat.zero_le n))).bind fun _ => Uses.pure _
  rw [collect_eq]
  exact h.bind hothers

theorem Items.collect_exactOn (h : reader.Items valid layout) {stop : Layout}
    (hstop : ∀ order cursor next, reader.run order cursor = .ok (none, next) ↔
      stop.Between order cursor next) :
    (collect reader hreader).ExactOn (fun items => ∀ a ∈ items, valid a) fun items =>
      items.flatMap layout ++ stop := by
  intro order cursor items last
  simp only [h.run_collect_eq_ok_iff, hstop, Layout.between_append]

end

section

variable {α β : Type} {order : ByteOrder} {cursor next : Cursor} {a : α}

theorem run_lift_eq_ok_iff {reader : Reader WireError α} :
    (liftM reader : Reader OrpcError α).run order cursor = .ok (a, next) ↔
      reader.run order cursor = .ok (a, next) :=
  ⟨run_eq_ok_of_lift, run_lift⟩

theorem Exact.lift {reader : Reader WireError α} {layout : α → Layout} (h : reader.Exact layout) :
    (liftM reader : Reader OrpcError α).Exact layout := by
  intro order cursor a next
  rw [run_lift_eq_ok_iff, h]

theorem run_unless_atEnd_iff {ε : Type} {reader : Reader ε α} {n : Nat} (huses : reader.Uses n)
    (hn : 0 < n) {b : α} :
    (atEnd >>= fun done => if done = true then pure b else reader).run order cursor =
        .ok (a, next) ↔
      (cursor.rest = [] ∧ a = b ∧ next = cursor) ∨ reader.run order cursor = .ok (a, next) := by
  show (if cursor.rest.isEmpty = true then pure b else reader).run order cursor = .ok (a, next) ↔ _
  by_cases hend : cursor.rest = []
  · rw [hend, List.isEmpty_nil, if_pos rfl, run_pure]
    constructor
    · intro h
      cases h
      exact .inl ⟨rfl, rfl, rfl⟩
    · rintro (⟨_, rfl, rfl⟩ | h)
      · rfl
      · have hless := huses order cursor a next h
        rw [hend, List.length_nil] at hless
        omega
  · rw [List.isEmpty_eq_false_iff.2 hend, if_neg Bool.false_ne_true]
    exact ⟨.inr, fun h => h.resolve_left fun h => hend h.1⟩

/-- A sequence that begins with a reader exact on valid answers. -/
theorem ExactOn.run_bind_eq_ok {ε β : Type} {reader : Reader ε α} {valid : α → Prop}
    {layout : α → Layout} (h : reader.ExactOn valid layout) {f : α → Reader ε β} {b : β} :
    (reader >>= f).run order cursor = .ok (b, next) ↔ ∃ a middle, valid a ∧
      (layout a).Between order cursor middle ∧ (f a).run order middle = .ok (b, next) := by
  simp only [Reader.run_bind_eq_ok, h order cursor, and_assoc]

theorem run_within_eq_ok_iff {ε : Type} {reader : Reader ε α} {octets : List UInt8} :
    (within octets reader).run order cursor = .ok (a, next) ↔
      (∃ last, reader.run order ⟨0, octets⟩ = .ok (a, last)) ∧ next = cursor := by
  unfold within
  rw [map_eq_ok_iff]
  constructor
  · rintro ⟨⟨found, last⟩, hfound, h⟩
    cases h
    exact ⟨⟨last, hfound⟩, rfl⟩
  · rintro ⟨⟨last, hfound⟩, rfl⟩
    exact ⟨(a, last), hfound, rfl⟩

theorem run_ofExcept_eq_ok_iff {ε : Type} {result : Except ε α} :
    (ofExcept result).run order cursor = .ok (a, next) ↔ result = .ok a ∧ next = cursor := by
  unfold ofExcept
  rw [map_eq_ok_iff]
  constructor
  · rintro ⟨found, hfound, h⟩
    cases h
    exact ⟨hfound, rfl⟩
  · rintro ⟨hfound, rfl⟩
    exact ⟨a, hfound, rfl⟩

end

end OrpcWire.Reader
