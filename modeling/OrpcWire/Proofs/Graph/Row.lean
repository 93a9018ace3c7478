import OrpcWire.Proofs.Graph.Account
import OrpcWire.Proofs.Graph.Pieces

/-!
# Elements in a row

`readElements` keeps what it has found backwards. `readRow` is the same repetition without that, one
element and then the others, and `run_readElements` says that the two agree.
-/

namespace OrpcWire

variable {α : Type}

/-- `count` values, each behind the slots of those in front of it. -/
def readRow (reader : Nat → Reader WireError (Found α)) :
    Nat → Nat → Reader WireError (Found (List α))
  | 0, _ => pure ⟨[], []⟩
  | count + 1, taken => do
    let first ← reader taken
    let others ← readRow reader count (taken + first.announced.length)
    return ⟨first.value :: others.value, first.announced ++ others.announced⟩

theorem readElementsOnto_eq (reader : Nat → Reader WireError (Found α)) (order : ByteOrder)
    (count taken : Nat) (cursor : Cursor) (values : List α) (announced : List Announcement) :
    readElementsOnto reader order count taken cursor values announced =
      ((readRow reader count taken).run order cursor).map fun (found, next) =>
        (⟨values.reverse ++ found.value, announced.reverse ++ found.announced⟩, next) := by
  induction count generalizing taken cursor values announced with
  | zero => simp [readElementsOnto, readRow, Except.map]
  | succ count ih =>
    rw [readElementsOnto, readRow, Reader.run_bind]
    cases (reader taken).run order cursor with
    | error error => rfl
    | ok result =>
      simp only [ih]
      rw [Reader.run_bind]
      cases (readRow reader count (taken + result.1.announced.length)).run order result.2 <;>
        simp [Except.map]

/-- Elements are read in a row if there are at least as many octets. -/
theorem run_readElements (reader : Nat → Reader WireError (Found α)) (count taken : Nat)
    (order : ByteOrder) (cursor : Cursor) :
    (readElements reader count taken).run order cursor =
      if count ≤ cursor.rest.length then (readRow reader count taken).run order cursor
      else .error (.underflow count cursor.rest.length) := by
  have hroom : (cursor.rest.take count).length = count ↔ count ≤ cursor.rest.length := by
    rw [List.length_take]
    omega
  simp only [readElements, hroom, readElementsOnto_eq]
  congr 1
  cases (readRow reader count taken).run order cursor <;> simp [Except.map]

theorem length_of_readRow {reader : Nat → Reader WireError (Found α)} {count taken : Nat}
    {order : ByteOrder} {cursor next : Cursor} {found : Found (List α)}
    (h : (readRow reader count taken).run order cursor = .ok (found, next)) :
    found.value.length = count := by
  induction count generalizing taken cursor found with
  | zero =>
    cases h
    rfl
  | succ count ih =>
    obtain ⟨first, middle, _, h⟩ := Reader.run_bind_eq_ok.1 h
    obtain ⟨others, last, hothers, hpure⟩ := Reader.run_bind_eq_ok.1 h
    cases hpure
    rw [List.length_cons, ih hothers]

namespace Accounts

variable {W : α → List Piece → Prop}

theorem row {reader : Nat → Reader WireError (Found α)}
    (h : ∀ taken, Accounts W taken (reader taken)) (count taken : Nat) :
    Accounts (fun as written =>
      as.length = count ∧ Rows W as written) taken (readRow reader count taken) := by
  induction count generalizing taken with
  | zero => exact pure ⟨rfl, .nil⟩
  | succ count ih =>
    refine cons (h taken) ih ?_
    rintro a as first second hfirst ⟨hlength, hsecond⟩
    exact ⟨by rw [List.length_cons, hlength], .cons hfirst hsecond⟩

theorem elements {reader : Nat → Reader WireError (Found α)}
    (h : ∀ taken, Accounts W taken (reader taken)) (count taken : Nat) :
    Accounts (fun as written =>
      as.length = count ∧ Rows W as written) taken (readElements reader count taken) := by
  intro order cursor found next heq
  rw [run_readElements] at heq
  split at heq
  · rename_i hroom
    obtain ⟨written, hwritten, account⟩ := row h count taken order cursor found next heq
    refine ⟨written, hwritten, account.references, account.ids_ne_null, account.between, ?_⟩
    intro ids cursor' next' hlength hids hposition hrest hbetween
    rw [run_readElements, if_pos (by omega)]
    exact account.again ids cursor' next' hlength hids hposition hrest hbetween
  · cases heq

end Accounts

end OrpcWire
