import Mathlib.Tactic

/-!
# Power-of-two rings indexed by wrapping counters

A producer and a consumer advance free-running `w`-bit counters and reach a ring
of `2 ^ k` cells by masking. The true, unbounded positions are ordinary naturals;
the lemmas relate masks and ring writes to them.
-/

namespace Xhyve.Lib.Ring

universe u

variable {α : Type u} {k w : Nat}

theorem mask_wrapped (i : Nat) (h : k ≤ w) : (i % 2 ^ w) &&& (2 ^ k - 1) = i % 2 ^ k := by
  rw [Nat.and_two_pow_sub_one_eq_mod, Nat.mod_mod_of_dvd _ (Nat.pow_dvd_pow 2 h)]

/-- Two positions less than a whole turn apart wrap to the same value only when equal. -/
theorem wrapped_eq_iff {m head tail : Nat} (hle : head ≤ tail) (hlt : tail - head < m) :
    head % m = tail % m ↔ head = tail := by
  constructor
  · intro he
    have hdvd : m ∣ tail - head := (Nat.modEq_iff_dvd' hle).mp he
    have hz : tail - head = 0 := Nat.eq_zero_of_dvd_of_lt hdvd hlt
    omega
  · rintro rfl
    rfl

/-- The cells hold the elements of `xs` at positions `lo` up to its end. -/
def Holds (k : Nat) (cells : Nat → α) (xs : List α) (lo : Nat) : Prop :=
  ∀ i (h : i < xs.length), lo ≤ i → cells (i % 2 ^ k) = xs[i]

theorem Holds.mono {cells : Nat → α} {xs : List α} {lo lo' : Nat} (h : Holds k cells xs lo)
    (hle : lo ≤ lo') : Holds k cells xs lo' :=
  fun i hi hlo => h i hi (hle.trans hlo)

/-- Writing the next cell overwrites only positions a whole ring behind. -/
theorem Holds.push {cells : Nat → α} {xs : List α} {lo : Nat} (h : Holds k cells xs lo)
    (hroom : xs.length < lo + 2 ^ k) (x : α) :
    Holds k (Function.update cells (xs.length % 2 ^ k) x) (xs ++ [x]) lo := by
  intro i hi hlo
  by_cases he : i = xs.length
  · subst he
    simp
  · have hlt : i < xs.length := by
      rw [List.length_append, List.length_singleton] at hi
      omega
    have hne : i % 2 ^ k ≠ xs.length % 2 ^ k :=
      fun hm => he ((wrapped_eq_iff hlt.le (by omega)).mp hm)
    rw [Function.update_of_ne hne, List.getElem_append_left hlt]
    exact h i hlt hlo

end Xhyve.Lib.Ring
