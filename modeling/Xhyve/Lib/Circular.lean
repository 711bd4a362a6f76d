import Mathlib

/-!
# Circular buffers

A buffer of any size holds its elements from a start on, around the end. Adding one at the other end and taking
one off the start are what they are on lists.
-/

namespace Xhyve.Lib.Circular

universe u

variable {α : Type u} {buf : Nat → α} {size start n : Nat}

/-- The elements of a buffer, first in first. -/
def contents (buf : Nat → α) (size start n : Nat) : List α := (List.range n).map fun i => buf ((start + i) % size)

@[simp] theorem contents_zero : contents buf size start 0 = [] := rfl

@[simp] theorem length_contents : (contents buf size start n).length = n := by
  rw [contents, List.length_map, List.length_range]

/-- Places less than a turn apart are different cells. -/
theorem cell_ne {i j : Nat} (hij : i < j) (hj : j < size) : (start + i) % size ≠ (start + j) % size := by
  intro h
  have hdvd : size ∣ start + j - (start + i) := (Nat.modEq_iff_dvd' (by omega)).mp h
  have hz : start + j - (start + i) = 0 := Nat.eq_zero_of_dvd_of_lt hdvd (by omega)
  omega

theorem contents_push (h : n < size) (x : α) :
    contents (Function.update buf ((start + n) % size) x) size start (n + 1) = contents buf size start n ++ [x] := by
  unfold contents
  rw [List.range_succ, List.map_append, List.map_singleton, Function.update_self]
  congr 1
  refine List.map_congr_left fun i hi => ?_
  rw [Function.update_of_ne (cell_ne (List.mem_range.mp hi) h)]

theorem contents_pop (h : start < size) :
    contents buf size start (n + 1) = buf start :: contents buf size ((start + 1) % size) n := by
  unfold contents
  rw [List.range_succ_eq_map, List.map_cons, List.map_map, Nat.add_zero, Nat.mod_eq_of_lt h]
  congr 1
  refine List.map_congr_left fun i _ => ?_
  rw [Function.comp_apply, Nat.mod_add_mod, Nat.add_assoc, Nat.add_comm 1 i]

end Xhyve.Lib.Circular
