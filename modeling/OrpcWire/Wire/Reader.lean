import OrpcWire.Wire.Error
import OrpcWire.Wire.Field

/-!
# Readers

A reader takes octets off the front of a stream in a given byte order and knows the position it has
reached. It fails as a whole: a field whose padding and body are not both there is not begun.
`Reader.collect` repeats a reader until it answers none; it ends because the reader is known to use
up octets (`Reader.Progresses`), and `Reader.collect_eq` is its equation.

The position of a `Cursor` and the octets behind it together are meant to fit in a machine word, as
for a writer.
-/

namespace OrpcWire

/-- The octets not yet read and the stream position of the first of them. -/
structure Cursor where
  position : Nat
  rest : List UInt8
  deriving DecidableEq, Repr, Inhabited

/-- Reads an `α` off a stream, or fails with an `ε`. -/
@[ext] structure Reader (ε α : Type) where
  run : ByteOrder → Cursor → Except ε (α × Cursor)

namespace Reader

variable {ε ε' α β γ : Type}

/-- The second reader goes on with what the first one answered, where it stopped. -/
protected def bind (reader : Reader ε α) (next : α → Reader ε β) : Reader ε β where
  run order cursor :=
    match reader.run order cursor with
    | .ok (a, cursor) => (next a).run order cursor
    | .error error => .error error

instance : Monad (Reader ε) where
  pure a := ⟨fun _ cursor => .ok (a, cursor)⟩
  bind := Reader.bind

@[simp] theorem run_pure (a : α) (order : ByteOrder) (cursor : Cursor) :
    (pure a : Reader ε α).run order cursor = .ok (a, cursor) := rfl

theorem run_bind (reader : Reader ε α) (next : α → Reader ε β) (order : ByteOrder)
    (cursor : Cursor) :
    (reader >>= next).run order cursor = (match reader.run order cursor with
      | .ok (a, cursor) => (next a).run order cursor
      | .error error => .error error) := rfl

theorem run_bind_eq (reader : Reader ε α) (next : α → Reader ε β) (order : ByteOrder)
    (cursor : Cursor) :
    (reader >>= next).run order cursor =
      (reader.run order cursor >>= fun result => (next result.1).run order result.2) := by
  rw [run_bind]
  cases reader.run order cursor <;> rfl

/-- A sequence answers exactly if both readers do, one after the other. -/
theorem run_bind_eq_ok {reader : Reader ε α} {next : α → Reader ε β} {order : ByteOrder}
    {cursor last : Cursor} {b : β} :
    (reader >>= next).run order cursor = .ok (b, last) ↔
      ∃ a middle, reader.run order cursor = .ok (a, middle) ∧
        (next a).run order middle = .ok (b, last) := by
  rw [run_bind]
  cases reader.run order cursor with
  | error error => simp
  | ok result =>
    constructor
    · intro h
      exact ⟨result.1, result.2, rfl, h⟩
    · rintro ⟨a, middle, heq, hnext⟩
      cases heq
      exact hnext

instance : LawfulMonad (Reader ε) := by
  refine LawfulMonad.mk' (Reader ε) ?_ ?_ ?_
  · intro α reader
    ext order cursor : 3
    change (reader >>= fun a => pure a).run order cursor = _
    rw [run_bind]
    cases reader.run order cursor <;> rfl
  · intros
    rfl
  · intro α β γ reader next last
    ext order cursor : 3
    simp only [run_bind]
    cases reader.run order cursor <;> rfl

def fail (error : ε) : Reader ε α := ⟨fun _ _ => .error error⟩

/-- Takes over an answer or an error found without reading. -/
def ofExcept (result : Except ε α) : Reader ε α := ⟨fun _ cursor => result.map (·, cursor)⟩

def mapError (f : ε → ε') (reader : Reader ε α) : Reader ε' α :=
  ⟨fun order cursor => (reader.run order cursor).mapError f⟩

def atEnd : Reader ε Bool := ⟨fun _ cursor => .ok (cursor.rest.isEmpty, cursor)⟩

/-- Runs a reader on octets already taken off the stream, as a stream of its own that starts at
position 0. What it leaves of them is dropped. -/
def within (octets : List UInt8) (reader : Reader ε α) : Reader ε α :=
  ⟨fun order cursor => (reader.run order ⟨0, octets⟩).map fun (a, _) => (a, cursor)⟩

/-! ## raw octets and words -/

def block (n : Nat) : Reader WireError (Block n) where
  run _ cursor :=
    let taken := cursor.rest.take n
    if h : taken.length = n then
      .ok (⟨taken, h⟩, ⟨cursor.position + n, cursor.rest.drop n⟩)
    else
      .error (.underflow n cursor.rest.length)

def octets (n : Nat) : Reader WireError (List UInt8) := do
  return (← block n).octets

/-- The padding in front of the next multiple of `boundary`, and `size` octets behind it. Both must
be there; the padding is dropped. -/
def aligned (boundary size : Nat) : Reader WireError (List UInt8) where
  run order cursor :=
    let skipped := padding boundary cursor.position
    ((octets (skipped + size)).run order cursor).map fun (taken, cursor) =>
      (taken.drop skipped, cursor)

/-- Skips to the next multiple of `boundary`. -/
def align (boundary : Nat) : Reader WireError Unit := do
  let _ ← aligned boundary 0

/-- The number in a word of `size` octets, aligned to its size. -/
def word (size : Nat) : Reader WireError Nat where
  run order cursor := ((aligned size size).run order cursor).map fun (taken, cursor) =>
    (order.value taken, cursor)

def u8 : Reader WireError UInt8 := return .ofNat (← word 1)

def u16 : Reader WireError UInt16 := return .ofNat (← word 2)

def u32 : Reader WireError UInt32 := return .ofNat (← word 4)

/-- A signed word of four octets, the word with the same bits. -/
def i32 : Reader WireError Int32 := return (← u32).toInt32

def u64 : Reader WireError UInt64 := return .ofNat (← word 8)

/-- A GUID, each of its fields read on its own. -/
def guid : Reader WireError Guid := do
  let data1 ← u32
  let data2 ← u16
  let data3 ← u16
  let data4 ← block 8
  return ⟨data1, data2, data3, data4⟩

/-! ## what readers use up -/

/-- The reader leaves at least `n` octets fewer than it found whenever it answers. -/
def Uses (n : Nat) (reader : Reader ε α) : Prop :=
  ∀ order cursor a next, reader.run order cursor = .ok (a, next) →
    next.rest.length + n ≤ cursor.rest.length

theorem Uses.mono {m n : Nat} {reader : Reader ε α} (h : reader.Uses n) (hle : m ≤ n) :
    reader.Uses m := by
  intro order cursor a next heq
  have := h order cursor a next heq
  omega

theorem Uses.pure (a : α) : (pure a : Reader ε α).Uses 0 := by
  intro order cursor b next heq
  cases heq
  exact Nat.le_refl _

theorem Uses.fail (n : Nat) (error : ε) : (fail error : Reader ε α).Uses n := by
  intro order cursor b next heq
  cases heq

theorem Uses.ofExcept (result : Except ε α) : (ofExcept result).Uses 0 := by
  intro order cursor b next heq
  cases result with
  | error error => cases heq
  | ok a =>
    cases heq
    exact Nat.le_refl _

theorem Uses.bind {m n : Nat} {reader : Reader ε α} {next : α → Reader ε β} (h : reader.Uses m)
    (hnext : ∀ a, (next a).Uses n) : (reader >>= next).Uses (m + n) := by
  intro order cursor b last heq
  obtain ⟨a, middle, hreader, hrest⟩ := run_bind_eq_ok.1 heq
  have h1 := h order cursor a middle hreader
  have h2 := hnext a order middle b last hrest
  omega

theorem Uses.mapError {n : Nat} {reader : Reader ε α} (f : ε → ε') (h : reader.Uses n) :
    (reader.mapError f).Uses n := by
  intro order cursor a next heq
  apply h order cursor a next
  change (reader.run order cursor).mapError f = .ok (a, next) at heq
  cases hreader : reader.run order cursor with
  | error error =>
    rw [hreader] at heq
    cases heq
  | ok result =>
    rw [hreader] at heq
    cases heq
    rfl

theorem run_block (n : Nat) (order : ByteOrder) (cursor : Cursor) :
    (block n).run order cursor = if h : n ≤ cursor.rest.length
      then .ok (⟨cursor.rest.take n, List.length_take_of_le h⟩,
        ⟨cursor.position + n, cursor.rest.drop n⟩)
      else .error (.underflow n cursor.rest.length) := by
  unfold block
  by_cases h : n ≤ cursor.rest.length
  · simp only [dif_pos h]
    rw [dif_pos (by simp [h])]
  · simp only [dif_neg h]
    rw [dif_neg (by simp; omega)]

theorem block_uses (n : Nat) : (block n).Uses n := by
  intro order cursor a next heq
  rw [run_block] at heq
  split at heq
  · cases heq
    simp only [List.length_drop]
    omega
  · cases heq

theorem octets_uses (n : Nat) : (octets n).Uses n := (block_uses n).bind fun _ => Uses.pure _

theorem aligned_uses (boundary size : Nat) : (aligned boundary size).Uses size := by
  intro order cursor a next heq
  simp only [aligned] at heq
  cases hoctets : (octets (padding boundary cursor.position + size)).run order cursor with
  | error error => simp [hoctets, Except.map] at heq
  | ok result =>
    have := octets_uses _ order cursor _ _ hoctets
    simp only [hoctets, Except.map, Except.ok.injEq, Prod.mk.injEq] at heq
    rw [← heq.2]
    omega

theorem align_uses (boundary : Nat) : (align boundary).Uses 0 :=
  (aligned_uses boundary 0).bind fun _ => Uses.pure _

theorem word_uses (size : Nat) : (word size).Uses size := by
  intro order cursor a next heq
  simp only [word] at heq
  cases haligned : (aligned size size).run order cursor with
  | error error => simp [haligned, Except.map] at heq
  | ok result =>
    have := aligned_uses _ _ order cursor _ _ haligned
    simp only [haligned, Except.map, Except.ok.injEq, Prod.mk.injEq] at heq
    rw [← heq.2]
    exact this

theorem u8_uses : u8.Uses 1 := (word_uses 1).bind fun _ => Uses.pure _

theorem u16_uses : u16.Uses 2 := (word_uses 2).bind fun _ => Uses.pure _

theorem u32_uses : u32.Uses 4 := (word_uses 4).bind fun _ => Uses.pure _

theorem u64_uses : u64.Uses 8 := (word_uses 8).bind fun _ => Uses.pure _

theorem guid_uses : guid.Uses 16 :=
  u32_uses.bind fun _ => u16_uses.bind fun _ => u16_uses.bind fun _ => (block_uses 8).bind fun _ =>
    Uses.pure _

/-! ## repetition -/

/-- The reader uses up octets whenever it answers with something. -/
def Progresses (reader : Reader ε (Option α)) : Prop :=
  ∀ order cursor a next, reader.run order cursor = .ok (some a, next) →
    next.rest.length < cursor.rest.length

theorem Uses.progresses {n : Nat} {reader : Reader ε (Option α)} (h : reader.Uses n) (hn : 0 < n) :
    reader.Progresses := by
  intro order cursor a next heq
  have := h order cursor (some a) next heq
  omega

/-- Repeats a reader until it answers none, behind what was found so far, which is kept
backwards. -/
def collectOnto (reader : Reader ε (Option α)) (hreader : reader.Progresses) (order : ByteOrder)
    (cursor : Cursor) (found : List α) : Except ε (List α × Cursor) :=
  match _h : reader.run order cursor with
  | .ok (some a, next) => collectOnto reader hreader order next (a :: found)
  | .ok (none, next) => .ok (found.reverse, next)
  | .error error => .error error
termination_by cursor.rest.length
decreasing_by exact hreader order cursor a next _h

/-- The answers of a reader up to the first none. -/
def collect (reader : Reader ε (Option α)) (hreader : reader.Progresses) : Reader ε (List α) :=
  ⟨fun order cursor => collectOnto reader hreader order cursor []⟩

section

variable {reader : Reader ε (Option α)} {hreader : reader.Progresses} {order : ByteOrder}
  {cursor next : Cursor} {a : α} {found : List α} {error : ε}

theorem collectOnto_some (h : reader.run order cursor = .ok (some a, next)) :
    collectOnto reader hreader order cursor found =
      collectOnto reader hreader order next (a :: found) := by
  rw [collectOnto]
  split <;> simp_all

theorem collectOnto_none (h : reader.run order cursor = .ok (none, next)) :
    collectOnto reader hreader order cursor found = .ok (found.reverse, next) := by
  rw [collectOnto]
  split <;> simp_all

theorem collectOnto_error (h : reader.run order cursor = .error error) :
    collectOnto reader hreader order cursor found = .error error := by
  rw [collectOnto]
  split <;> simp_all

end

theorem collectOnto_eq (reader : Reader ε (Option α)) (hreader : reader.Progresses)
    (order : ByteOrder) (cursor : Cursor) (found : List α) :
    collectOnto reader hreader order cursor found =
      (collectOnto reader hreader order cursor []).map fun (more, last) =>
        (found.reverse ++ more, last) := by
  induction hlength : cursor.rest.length using Nat.strongRecOn generalizing cursor found with
  | _ n ih =>
    cases heq : reader.run order cursor with
    | error error => rw [collectOnto_error heq, collectOnto_error heq]; rfl
    | ok result =>
      obtain ⟨answer, next⟩ := result
      cases answer with
      | none => rw [collectOnto_none heq, collectOnto_none heq]; simp [Except.map]
      | some a =>
        have hless : next.rest.length < n := hlength ▸ hreader order cursor a next heq
        rw [collectOnto_some heq, collectOnto_some heq, ih _ hless next (a :: found) rfl,
          ih _ hless next [a] rfl]
        cases collectOnto reader hreader order next [] <;> simp [Except.map]

/-- The equation of `collect`: read once and, unless the answer is none, go on. -/
theorem collect_eq (reader : Reader ε (Option α)) (hreader : reader.Progresses) :
    collect reader hreader = (do
      match ← reader with
      | none => return []
      | some a => return a :: (← collect reader hreader)) := by
  ext order cursor : 3
  rw [run_bind]
  simp only [collect]
  cases heq : reader.run order cursor with
  | error error => rw [collectOnto_error heq]
  | ok result =>
    obtain ⟨a, next⟩ := result
    cases a with
    | none => rw [collectOnto_none heq]; rfl
    | some a =>
      rw [collectOnto_some heq, collectOnto_eq]
      simp only [run_bind]
      cases collectOnto reader hreader order next [] <;> rfl

theorem collect_uses (reader : Reader ε (Option α)) (hreader : reader.Progresses)
    (hnone : reader.Uses 0) : (collect reader hreader).Uses 0 := by
  intro order cursor found last heq
  simp only [collect] at heq
  generalize ([] : List α) = start at heq
  induction hlength : cursor.rest.length using Nat.strongRecOn generalizing cursor start with
  | _ n ih =>
    cases hrun : reader.run order cursor with
    | error error => rw [collectOnto_error hrun] at heq; cases heq
    | ok result =>
      obtain ⟨answer, next⟩ := result
      have := hnone order cursor answer next hrun
      cases answer with
      | none =>
        rw [collectOnto_none hrun] at heq
        cases heq
        omega
      | some a =>
        have hless := hreader order cursor a next hrun
        rw [collectOnto_some hrun] at heq
        have := ih _ (by omega) next (a :: start) heq rfl
        omega

end Reader

end OrpcWire
