import Mathlib.Algebra.BigOperators.Group.Finset.Basic
import Mathlib.Data.Fintype.BigOperators
import Mathlib.Algebra.Order.BigOperators.Group.Finset

/-!
# Tallies over threads

A tally adds up a weight of every thread's place; with weights 0 and 1 it counts the
threads at some places. A step of one thread changes it by that thread's weights only.
-/

namespace Concurrency

section

variable {T P : Type} [Fintype T]

/-- The weights of the places of all threads, added up. -/
def tally (w : P → Nat) (place : T → P) : Nat := ∑ t, w (place t)

theorem tally_add (w w' : P → Nat) (place : T → P) :
    tally (fun p => w p + w' p) place = tally w place + tally w' place :=
  Finset.sum_add_distrib

theorem le_tally (w : P → Nat) (place : T → P) (t : T) : w (place t) ≤ tally w place :=
  Finset.single_le_sum (fun u _ => Nat.zero_le (w (place u))) (Finset.mem_univ t)

variable [DecidableEq T]

theorem tally_update (w : P → Nat) (place : T → P) (t : T) (p : P) :
    tally w (Function.update place t p) + w (place t) = tally w place + w p := by
  have hrest : ∑ u ∈ Finset.univ.erase t, w (Function.update place t p u) =
      ∑ u ∈ Finset.univ.erase t, w (place u) := by
    refine Finset.sum_congr rfl fun u hu => ?_
    rw [Function.update_of_ne (Finset.ne_of_mem_erase hu)]
  have hnew := Finset.add_sum_erase Finset.univ
    (fun u => w (Function.update place t p u)) (Finset.mem_univ t)
  have hold := Finset.add_sum_erase Finset.univ (fun u => w (place u)) (Finset.mem_univ t)
  rw [hrest, Function.update_self] at hnew
  unfold tally
  omega

/-- Two threads that both weigh something weigh at least two. -/
theorem eq_of_tally_le_one {w : P → Nat} {place : T → P} (h : tally w place ≤ 1) {t u : T}
    (ht : 0 < w (place t)) (hu : 0 < w (place u)) : t = u := by
  by_contra hne
  have hsum := Finset.add_sum_erase Finset.univ (fun v => w (place v)) (Finset.mem_univ t)
  have hle : w (place u) ≤ ∑ v ∈ Finset.univ.erase t, w (place v) :=
    Finset.single_le_sum (fun v _ => Nat.zero_le (w (place v)))
      (Finset.mem_erase.mpr ⟨Ne.symm hne, Finset.mem_univ u⟩)
  unfold tally at h
  omega

omit [DecidableEq T] in
theorem exists_of_tally_pos {w : P → Nat} {place : T → P} (h : 0 < tally w place) :
    ∃ t, 0 < w (place t) := by
  by_contra hnone
  have hzero : ∀ t, w (place t) = 0 := by
    intro t
    by_contra ht
    exact hnone ⟨t, Nat.pos_of_ne_zero ht⟩
  have hsum : tally w place = 0 := Finset.sum_eq_zero fun t _ => hzero t
  rw [hsum] at h
  exact absurd h (Nat.lt_irrefl 0)

end

end Concurrency
