import OrpcWire.Error
import OrpcWire.Proofs.Wire.Between

/-!
# Readers that find what was written

`reader.Finds a layout`: wherever the layout stands, the reader answers `a` and stops behind it.
Nothing is said about other octets, so this is less than `Reader.Exact`, but it is all that a round
trip needs, and it passes through `bind`. It also settles what octets stand for
(`Finds.eq_of_begins`).
-/

namespace OrpcWire

namespace Reader

variable {ε α β : Type} {reader : Reader ε α} {a : α} {b : β} {layout layout' : Layout}

/-- Where the layout stands the reader answers `a`. -/
def Finds (reader : Reader ε α) (a : α) (layout : Layout) : Prop :=
  ∀ order cursor next, layout.Between order cursor next → reader.run order cursor = .ok (a, next)

theorem Exact.finds {layout : α → Layout} (h : reader.Exact layout) (a : α) :
    reader.Finds a (layout a) :=
  fun order cursor next hbetween => (h order cursor a next).2 hbetween

theorem ExactOn.finds {valid : α → Prop} {layout : α → Layout} (h : reader.ExactOn valid layout)
    (ha : valid a) : reader.Finds a (layout a) :=
  fun order cursor next hbetween => (h order cursor a next).2 ⟨ha, hbetween⟩

theorem finds_pure (a : α) : (pure a : Reader ε α).Finds a [] := by
  intro order cursor next hbetween
  rw [Layout.between_nil.1 hbetween, run_pure]

theorem Finds.bind (h : reader.Finds a layout) {next : α → Reader ε β}
    (hnext : (next a).Finds b layout') : (reader >>= next).Finds b (layout ++ layout') := by
  intro order cursor last hbetween
  obtain ⟨middle, hfirst, hsecond⟩ := Layout.between_append.1 hbetween
  rw [run_bind, h order cursor middle hfirst]
  exact hnext order middle last hsecond

theorem Finds.map (h : reader.Finds a layout) (f : α → β) : (f <$> reader).Finds (f a) layout := by
  rw [← bind_pure_comp, ← List.append_nil layout]
  exact h.bind (finds_pure _)

theorem octets_finds (taken : List UInt8) : (octets taken.length).Finds taken [.raw taken] := by
  rw [octets, bind_pure_comp]
  exact ((block_exact taken.length).finds ⟨taken, rfl⟩).map Block.octets

/-- A reader does not look behind what it finds. Of two things that it finds in one place, neither
begins with the octets of the other. -/
theorem Finds.eq_of_begins {order : ByteOrder} {position : Nat} {a' : α} (h : reader.Finds a layout)
    (h' : reader.Finds a' layout')
    (hbegins : layout.render order position <+: layout'.render order position) : a = a' := by
  obtain ⟨rest, hrest⟩ := hbegins
  have hfirst := h order _ _ (Layout.between_render order position layout rest)
  have hsecond := h' order _ _ (Layout.between_render order position layout' [])
  rw [hrest] at hfirst
  rw [List.append_nil, hfirst] at hsecond
  exact (Prod.mk.inj (Except.ok.inj hsecond)).1

theorem run_lift {reader : Reader WireError α} {order : ByteOrder} {cursor next : Cursor}
    (h : reader.run order cursor = .ok (a, next)) :
    (liftM reader : Reader OrpcError α).run order cursor = .ok (a, next) := by
  show (reader.run order cursor).mapError OrpcError.wire = _
  rw [h]
  rfl

theorem run_eq_ok_of_lift {reader : Reader WireError α} {order : ByteOrder} {cursor next : Cursor}
    (h : (liftM reader : Reader OrpcError α).run order cursor = .ok (a, next)) :
    reader.run order cursor = .ok (a, next) := by
  change (reader.run order cursor).mapError OrpcError.wire = .ok (a, next) at h
  cases hreader : reader.run order cursor with
  | error error =>
    rw [hreader] at h
    cases h
  | ok result =>
    rw [hreader] at h
    cases h
    rfl

theorem run_lift_error {reader : Reader WireError α} {order : ByteOrder} {cursor : Cursor}
    {error : WireError} (h : reader.run order cursor = .error error) :
    (liftM reader : Reader OrpcError α).run order cursor = .error (.wire error) := by
  show (reader.run order cursor).mapError OrpcError.wire = _
  rw [h]
  rfl

theorem Finds.lift {reader : Reader WireError α} (h : reader.Finds a layout) :
    (liftM reader : Reader OrpcError α).Finds a layout :=
  fun order cursor next hbetween => run_lift (h order cursor next hbetween)

theorem Exact.run_lift_bind {reader : Reader WireError α} {layout : α → Layout}
    (h : reader.Exact layout) (f : α → Reader OrpcError β) {order : ByteOrder}
    {cursor next : Cursor} (ha : (layout a).Between order cursor next) :
    ((liftM reader : Reader OrpcError α) >>= f).run order cursor = (f a).run order next := by
  have hrun : (liftM reader : Reader OrpcError α).run order cursor = .ok (a, next) :=
    run_lift ((h order cursor a next).2 ha)
  rw [Reader.run_bind, hrun]

end Reader

end OrpcWire
