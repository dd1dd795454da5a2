import Mathlib.Data.List.Range
import Mathlib.Logic.Function.Basic

/-!
# Ring buffers

An array of `capacity` elements whose indices run on without end and are reduced when the
array is accessed. What the buffer holds is read off from the first index; as long as there
is room, an element that is written behind the last one does not disturb the others.
-/

namespace Lists

variable {α : Type}

/-- The `count` elements from index `start` on. -/
def ringContents (buffer : Nat → α) (capacity start count : Nat) : List α :=
  (List.range' start count).map fun i => buffer (i % capacity)

variable {buffer : Nat → α} {capacity start count : Nat}

theorem ringContents_cons :
    ringContents buffer capacity start (count + 1) =
      buffer (start % capacity) :: ringContents buffer capacity (start + 1) count := by
  unfold ringContents
  rw [List.range'_succ, List.map_cons]

/-- Two indices less than a round apart are not the same place. -/
theorem ring_ne {i j : Nat} (hle : i < j) (hlt : j < i + capacity) : i % capacity ≠ j % capacity := by
  intro h
  have hsame : (j - i) % capacity = 0 := Nat.sub_mod_eq_zero_of_mod_eq h.symm
  rw [Nat.mod_eq_of_lt (by omega)] at hsame
  omega

/-- One more element, while there is room. -/
theorem ringContents_snoc (hroom : count < capacity) (v : α) :
    ringContents (Function.update buffer ((start + count) % capacity) v) capacity start (count + 1) =
      ringContents buffer capacity start count ++ [v] := by
  unfold ringContents
  rw [List.range'_1_concat, List.map_append, List.map_singleton, Function.update_self]
  congr 1
  apply List.map_congr_left
  intro i hi
  obtain ⟨hmin, hmax⟩ := List.mem_range'_1.mp hi
  exact Function.update_of_ne (ring_ne hmax (by omega)) _ _

end Lists
