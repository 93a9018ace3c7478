import Mathlib.Algebra.Group.Nat.Defs
import Mathlib.Data.List.Nodup
import OrpcWire.Proofs.Wire.Between
import OrpcWire.Wire.IdSupply

/-!
# Referent ids on the wire

A counter that started out fresh is never at the null id (`IdSupply.Reached.next_ne_null`), and the
first ids it gives out are `firstId`, four more, and so on (`IdSupply.draw_fresh`). An id that is
read is none or not the null id (`Reader.referentId_exact`).
-/

namespace OrpcWire

namespace IdSupply

/-- The counter has been reached from a fresh one by giving out ids. -/
def Reached (ids : IdSupply) : Prop := ∃ count, (draw count fresh).2 = ids

theorem advance_next_ne_null (ids : IdSupply) : ids.advance.next ≠ nullId := by
  unfold advance
  split
  · decide
  · assumption

theorem draw_succ (count : Nat) (ids : IdSupply) :
    draw (count + 1) ids = (ids.next :: (draw count ids.advance).1, (draw count ids.advance).2) :=
  rfl

theorem draw_add (first second : Nat) (ids : IdSupply) : draw (first + second) ids =
    ((draw first ids).1 ++ (draw second (draw first ids).2).1,
      (draw second (draw first ids).2).2) := by
  induction first generalizing ids with
  | zero =>
    rw [Nat.zero_add]
    rfl
  | succ first ih =>
    rw [Nat.add_right_comm, draw_succ, draw_succ, ih]
    rfl

@[simp] theorem length_draw (count : Nat) (ids : IdSupply) : (draw count ids).1.length = count := by
  induction count generalizing ids with
  | zero => rfl
  | succ count ih => rw [draw_succ, List.length_cons, ih]

theorem draw_ne_null {count : Nat} {ids : IdSupply} (h : ids.next ≠ nullId) :
    (∀ id ∈ (draw count ids).1, id ≠ nullId) ∧ (draw count ids).2.next ≠ nullId := by
  induction count generalizing ids with
  | zero => exact ⟨by simp [draw], h⟩
  | succ count ih =>
    obtain ⟨hids, hlast⟩ := ih ids.advance_next_ne_null
    rw [draw_succ]
    refine ⟨fun id hid => ?_, hlast⟩
    rcases List.mem_cons.1 hid with rfl | hid
    · exact h
    · exact hids id hid

theorem Reached.next_ne_null {ids : IdSupply} (h : ids.Reached) : ids.next ≠ nullId := by
  obtain ⟨count, rfl⟩ := h
  exact (draw_ne_null (by decide)).2

theorem reached_fresh : fresh.Reached := ⟨0, rfl⟩

theorem advance_next_toNat {ids : IdSupply} (h : ids.next.toNat + 4 < 2 ^ 32) :
    ids.advance.next.toNat = ids.next.toNat + 4 := by
  have hsum : (ids.next + 4).toNat = ids.next.toNat + 4 := by
    rw [UInt32.toNat_add, show (4 : UInt32).toNat = 4 from rfl]
    omega
  unfold advance
  rw [if_neg]
  · exact hsum
  · intro hnull
    have := congrArg UInt32.toNat hnull
    rw [hsum, show nullId.toNat = 0 from rfl] at this
    omega

theorem draw_eq_range {count : Nat} {ids : IdSupply} (h : ids.next.toNat + 4 * count ≤ 2 ^ 32) :
    (draw count ids).1 = (List.range count).map fun k => .ofNat (ids.next.toNat + 4 * k) := by
  induction count generalizing ids with
  | zero => rfl
  | succ count ih =>
    rw [draw_succ, List.range_succ_eq_map, List.map_cons, List.map_map]
    simp only [Nat.mul_zero, Nat.add_zero, UInt32.ofNat_toNat, List.cons.injEq, true_and]
    -- The last id may be the last one below 2 ^ 32; no other drawing can be.
    cases count with
    | zero => rfl
    | succ count =>
      have hnext : ids.advance.next.toNat = ids.next.toNat + 4 := advance_next_toNat (by omega)
      rw [ih (by omega), hnext]
      apply List.map_congr_left
      intro k _
      show UInt32.ofNat _ = UInt32.ofNat _
      congr 1
      omega

theorem draw_next_toNat {count : Nat} {ids : IdSupply} (h : ids.next.toNat + 4 * count < 2 ^ 32) :
    (draw count ids).2.next.toNat = ids.next.toNat + 4 * count := by
  induction count generalizing ids with
  | zero => rfl
  | succ count ih =>
    have hnext : ids.advance.next.toNat = ids.next.toNat + 4 := advance_next_toNat (by omega)
    rw [draw_succ, ih (by omega), hnext]
    omega

theorem draw_fresh {count : Nat} (h : count ≤ 2 ^ 30 - 2 ^ 15) :
    (draw count fresh).1 = (List.range count).map fun k => .ofNat (firstId.toNat + 4 * k) := by
  have hfirst : fresh.next.toNat = 2 ^ 17 := rfl
  exact draw_eq_range (by omega)

theorem nodup_draw_fresh {count : Nat} (h : count ≤ 2 ^ 30 - 2 ^ 15) :
    (draw count fresh).1.Nodup := by
  rw [draw_fresh h]
  have hfirst : firstId.toNat = 2 ^ 17 := rfl
  have htoNat : ∀ k ∈ List.range count,
      (UInt32.ofNat (firstId.toNat + 4 * k)).toNat = firstId.toNat + 4 * k := by
    intro k hk
    have := List.mem_range.1 hk
    exact UInt32.toNat_ofNat_of_lt' (show _ < 2 ^ 32 by omega)
  refine List.Nodup.map_on ?_ List.nodup_range
  intro k hk later hlater heq
  have := congrArg UInt32.toNat heq
  rw [htoNat k hk, htoNat later hlater] at this
  omega

end IdSupply

theorem Reader.referentId_exact : referentId.ExactOn (· ≠ some nullId) fun id =>
    [.u32 (id.getD nullId)] := by
  intro order cursor id next
  rw [Reader.referentId, Reader.u32_exact.run_bind_eq_ok]
  constructor
  · rintro ⟨word, middle, hword, hpure⟩
    cases hpure
    split
    · rename_i hnull
      rw [hnull] at hword
      exact ⟨by simp, hword⟩
    · rename_i hne
      exact ⟨by simpa using hne, hword⟩
  · rintro ⟨hne, hword⟩
    refine ⟨id.getD nullId, next, hword, ?_⟩
    cases id with
    | none => rfl
    | some id =>
      rw [Option.getD_some, if_neg (by simpa using hne)]
      rfl

end OrpcWire
