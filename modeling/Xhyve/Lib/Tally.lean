import Mathlib.Algebra.BigOperators.Fin
import Mathlib.Algebra.Order.BigOperators.Group.Finset
import Mathlib.Algebra.Order.Ring.Int
import Mathlib.Tactic.Common

/-!
# Counting the members of a finite type

How many members of a finite type are marked, as an integer, and how the number moves when the
mark of one of them does.
-/

namespace Xhyve.Lib

universe u

section Tally
variable {ι : Type u} [Fintype ι]

/-- What one mark counts for. -/
def mark (b : Bool) : Int := if b then 1 else 0

@[simp] theorem mark_true : mark true = 1 := rfl

@[simp] theorem mark_false : mark false = 0 := rfl

theorem mark_nonneg (b : Bool) : 0 ≤ mark b := by cases b <;> decide

def tally (p : ι → Bool) : Int := ∑ i, mark (p i)

theorem tally_nonneg (p : ι → Bool) : 0 ≤ tally p := Finset.sum_nonneg fun i _ => mark_nonneg (p i)

theorem tally_eq_card (p : ι → Bool) : tally p = (Finset.univ.filter fun i => p i = true).card := by
  simp [tally, mark, Finset.sum_boole]

/-- Only the member whose mark changed counts. -/
theorem tally_change [DecidableEq ι] {p q : ι → Bool} {a : ι} (h : ∀ i, i ≠ a → q i = p i) :
    tally q = tally p + (mark (q a) - mark (p a)) := by
  have hrest : ∑ i ∈ Finset.univ.erase a, mark (q i) = ∑ i ∈ Finset.univ.erase a, mark (p i) :=
    Finset.sum_congr rfl fun i hi => by rw [h i (Finset.ne_of_mem_erase hi)]
  rw [tally, tally, ← Finset.add_sum_erase _ _ (Finset.mem_univ a),
    ← Finset.add_sum_erase Finset.univ (fun i => mark (p i)) (Finset.mem_univ a), hrest]
  omega

theorem tally_false {p : ι → Bool} (h : ∀ i, p i = false) : tally p = 0 :=
  Finset.sum_eq_zero fun i _ => by rw [h i, mark_false]

theorem tally_pos {p : ι → Bool} {a : ι} (h : p a = true) : 0 < tally p :=
  Finset.sum_pos' (fun i _ => mark_nonneg (p i)) ⟨a, Finset.mem_univ a, by simp [h]⟩

end Tally

end Xhyve.Lib
