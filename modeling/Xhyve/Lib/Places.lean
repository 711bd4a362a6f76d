import Mathlib.Algebra.BigOperators.Group.Finset.Basic
import Mathlib.Algebra.Order.BigOperators.Group.Finset

/-!
# Threads and the places they are at

What a shared variable holds often follows from where the threads are: a set of the threads at certain
places, a mutex whose owner is at certain places. A thread that moves changes both together.
-/

namespace Xhyve.Lib

variable {ι ρ : Type*} [DecidableEq ι]

/-- The set of the threads whose place is of a kind. -/
def Follows (set : Finset ι) (pc : ι → ρ) (kind : ρ → Bool) : Prop := ∀ i, i ∈ set ↔ kind (pc i) = true

/-- The owner of a mutex is the thread whose place is of a kind. -/
def Owner (owner : Option ι) (pc : ι → ρ) (kind : ρ → Bool) : Prop := ∀ i, owner = some i ↔ kind (pc i) = true

namespace Follows

variable {set : Finset ι} {pc : ι → ρ} {kind : ρ → Bool} {i : ι} {q : ρ}

omit [DecidableEq ι] in
theorem not_mem (h : Follows set pc kind) (hkind : kind (pc i) = false) : i ∉ set := by
  rw [h i, hkind]
  exact Bool.false_ne_true

theorem keep (h : Follows set pc kind) (hkind : kind q = kind (pc i)) :
    Follows set (Function.update pc i q) kind := by
  intro j
  by_cases hj : j = i
  · subst hj
    rw [Function.update_self, hkind]
    exact h j
  · rw [Function.update_of_ne hj]
    exact h j

theorem insert (h : Follows set pc kind) (hkind : kind q = true) :
    Follows (Insert.insert i set) (Function.update pc i q) kind := by
  intro j
  by_cases hj : j = i
  · subst hj
    rw [Function.update_self, hkind]
    exact iff_of_true (Finset.mem_insert_self j set) rfl
  · rw [Function.update_of_ne hj, Finset.mem_insert]
    exact (or_iff_right hj).trans (h j)

theorem erase (h : Follows set pc kind) (hkind : kind q = false) :
    Follows (set.erase i) (Function.update pc i q) kind := by
  intro j
  by_cases hj : j = i
  · subst hj
    rw [Function.update_self, hkind]
    exact iff_of_false (Finset.notMem_erase j set) Bool.false_ne_true
  · rw [Function.update_of_ne hj, Finset.mem_erase]
    exact (and_iff_right hj).trans (h j)

end Follows

namespace Owner

variable {owner : Option ι} {pc : ι → ρ} {kind : ρ → Bool} {i : ι} {q : ρ}

theorem keep (h : Owner owner pc kind) (hkind : kind q = kind (pc i)) :
    Owner owner (Function.update pc i q) kind := by
  intro j
  by_cases hj : j = i
  · subst hj
    rw [Function.update_self, hkind]
    exact h j
  · rw [Function.update_of_ne hj]
    exact h j

theorem take (h : Owner none pc kind) (hkind : kind q = true) :
    Owner (some i) (Function.update pc i q) kind := by
  intro j
  by_cases hj : j = i
  · subst hj
    rw [Function.update_self, hkind]
    exact iff_of_true rfl rfl
  · rw [Function.update_of_ne hj, ← h j, Option.some.injEq]
    exact iff_of_false (Ne.symm hj) nofun

theorem release (h : Owner owner pc kind) (hheld : kind (pc i) = true) (hkind : kind q = false) :
    Owner none (Function.update pc i q) kind := by
  intro j
  by_cases hj : j = i
  · subst hj
    rw [Function.update_self, hkind]
    exact iff_of_false nofun Bool.false_ne_true
  · rw [Function.update_of_ne hj, ← h j, (h i).mpr hheld, Option.some.injEq]
    exact iff_of_false nofun (Ne.symm hj)

end Owner

/-- A thread that comes closer to its end, where no other goes back. -/
theorem sum_rank_lt [Fintype ι] {pc pc' : ι → ρ} {rank : ρ → Nat} (i : ι)
    (hcloser : rank (pc' i) < rank (pc i)) (hothers : ∀ j, j ≠ i → rank (pc' j) ≤ rank (pc j)) :
    ∑ j, rank (pc' j) < ∑ j, rank (pc j) := by
  refine Finset.sum_lt_sum (fun j _ => ?_) ⟨i, Finset.mem_univ i, hcloser⟩
  by_cases hj : j = i
  · rw [hj]
    exact hcloser.le
  · exact hothers j hj

end Xhyve.Lib
