import Mathlib.Data.List.Rotate

namespace Aser.Library

variable {α : Type*}

/-- One turn of a carousel: everyone moves one place on, the last one to the front. -/
def turn (ring : List α) : List α := ring.rotate (ring.length - 1)

theorem turn_append_singleton (ring : List α) (last : α) :
    turn (ring ++ [last]) = last :: ring := by
  have length : (ring ++ [last]).length - 1 = ring.length := by simp
  rw [turn, length, List.rotate_append_length_eq, List.singleton_append]

theorem turn_iterate (ring : List α) (r : Nat) :
    turn^[r] ring = ring.rotate (r * (ring.length - 1)) := by
  induction r with
  | zero => simp
  | succ r ih =>
    rw [Function.iterate_succ_apply', ih, turn, List.length_rotate, List.rotate_rotate, Nat.succ_mul]

/-- After as many turns as there are places everyone is back. -/
theorem turn_iterate_full (ring : List α) : turn^[ring.length] ring = ring := by
  rw [turn_iterate, List.rotate_length_mul]

/-- Who sits in place `i` after `r` turns sat `r` places before it. -/
theorem turn_iterate_getElem? {ring : List α} {r i : Nat} (turns : r < ring.length)
    (place : i < ring.length) :
    (turn^[r] ring)[i]? = ring[if r ≤ i then i - r else i + ring.length - r]? := by
  rw [turn_iterate, List.getElem?_rotate place]
  congr 1
  obtain ⟨n, length⟩ : ∃ n, ring.length = n + 1 := ⟨ring.length - 1, by omega⟩
  rw [length] at turns place ⊢
  have behind : i + r * (n + 1 - 1) + r = i + r * (n + 1) := by
    rw [Nat.add_sub_cancel, Nat.mul_succ, Nat.add_assoc]
  split
  · rename_i within
    have seat : i + r * (n + 1 - 1) = i - r + r * (n + 1) := by omega
    rw [seat, Nat.add_mul_mod_self_right, Nat.mod_eq_of_lt (by omega)]
  · rename_i beyond
    obtain ⟨q, more⟩ : ∃ q, r = q + 1 := ⟨r - 1, by omega⟩
    have wrap : r * (n + 1) = q * (n + 1) + (n + 1) := by rw [more, Nat.succ_mul]
    have seat : i + r * (n + 1 - 1) = i + (n + 1) - r + q * (n + 1) := by omega
    rw [seat, Nat.add_mul_mod_self_right, Nat.mod_eq_of_lt (by omega)]

/-- During a full round of turns everyone sits in each place exactly once. -/
theorem turn_visits_once {ring : List α} (distinct : ring.Nodup) {x : α} (rider : x ∈ ring)
    {i : Nat} (place : i < ring.length) :
    ∃! r, r < ring.length ∧ (turn^[r] ring)[i]? = some x := by
  obtain ⟨j, seat, atSeat⟩ := List.getElem_of_mem rider
  have seatOf (r : Nat) (turns : r < ring.length) : (turn^[r] ring)[i]? = some x ↔
      (if r ≤ i then i - r else i + ring.length - r) = j := by
    rw [turn_iterate_getElem? turns place, ← atSeat, ← List.getElem?_eq_getElem seat]
    refine ⟨fun same => ?_, fun same => by rw [same]⟩
    exact (List.getElem?_inj (by split <;> omega) distinct).mp same
  refine ⟨if j ≤ i then i - j else i + ring.length - j, ⟨?_, ?_⟩, ?_⟩
  · split <;> omega
  · rw [seatOf _ (by split <;> omega)]
    split <;> split <;> omega
  · intro r visit
    obtain ⟨turns, arrived⟩ := visit
    rw [seatOf r turns] at arrived
    split at arrived <;> split <;> omega

end Aser.Library
