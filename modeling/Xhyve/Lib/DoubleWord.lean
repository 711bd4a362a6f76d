import Mathlib.Tactic.IntervalCases
import Mathlib.Tactic.Ring

/-!
# Numbers in two words

Addition and subtraction with the carry read off the low word, and comparison word by word. Both are those of the
numbers modulo the square of the word size. The high word may be a count of units and the low one their fraction.
-/

namespace Xhyve.Lib

@[ext] structure DoubleWord (w : Nat) where
  hi : BitVec w
  lo : BitVec w
deriving DecidableEq, Repr

namespace DoubleWord

variable {w : Nat}

def value (a : DoubleWord w) : Nat := a.hi.toNat * 2 ^ w + a.lo.toNat

/-- The low word is smaller than what it was when it has been carried out of. -/
def add (a b : DoubleWord w) : DoubleWord w :=
  let lo := a.lo + b.lo
  let hi := if lo < a.lo then a.hi + 1 else a.hi
  ⟨hi + b.hi, lo⟩

def sub (a b : DoubleWord w) : DoubleWord w :=
  let lo := a.lo - b.lo
  let hi := if a.lo < lo then a.hi - 1 else a.hi
  ⟨hi - b.hi, lo⟩

def lt (a b : DoubleWord w) : Bool := if a.hi = b.hi then a.lo < b.lo else a.hi < b.hi

theorem value_lt (a : DoubleWord w) : a.value < 2 ^ w * 2 ^ w := by
  have hhi := a.hi.isLt
  have hlo := a.lo.isLt
  have hle : a.hi.toNat * 2 ^ w + 2 ^ w ≤ 2 ^ w * 2 ^ w := by
    rw [← Nat.succ_mul]
    exact Nat.mul_le_mul_right _ hhi
  unfold value
  omega

/-- The comparison is that of the numbers. -/
theorem lt_iff (a b : DoubleWord w) : lt a b = true ↔ a.value < b.value := by
  have hahi := a.lo.isLt
  have hblo := b.lo.isLt
  unfold lt value
  by_cases heq : a.hi = b.hi
  · rw [if_pos heq, heq, decide_eq_true_eq, BitVec.lt_def]
    omega
  · rw [if_neg heq, decide_eq_true_eq, BitVec.lt_def]
    have hne : a.hi.toNat ≠ b.hi.toNat := fun h => heq (BitVec.eq_of_toNat_eq h)
    rcases Nat.lt_or_gt_of_ne hne with hlt | hgt
    · have hle := Nat.mul_le_mul_right (2 ^ w) (Nat.succ_le_of_lt hlt)
      rw [Nat.succ_mul] at hle
      omega
    · have hle := Nat.mul_le_mul_right (2 ^ w) (Nat.succ_le_of_lt hgt)
      rw [Nat.succ_mul] at hle
      omega

/-! ## One word -/

theorem mod_of_lt_two_mul {n B : Nat} (h : n < 2 * B) : n % B = if n < B then n else n - B := by
  split_ifs with hlt
  · exact Nat.mod_eq_of_lt hlt
  · rw [Nat.mod_eq_sub_mod (Nat.le_of_not_lt hlt), Nat.mod_eq_of_lt (by omega)]

theorem toNat_add_word (x y : BitVec w) :
    (x + y).toNat = if x.toNat + y.toNat < 2 ^ w then x.toNat + y.toNat else x.toNat + y.toNat - 2 ^ w := by
  have hx := x.isLt
  have hy := y.isLt
  rw [BitVec.toNat_add, mod_of_lt_two_mul (by omega)]

theorem toNat_sub_word (x y : BitVec w) :
    (x - y).toNat = if y.toNat ≤ x.toNat then x.toNat - y.toNat else x.toNat + 2 ^ w - y.toNat := by
  have hx := x.isLt
  have hy := y.isLt
  rw [BitVec.toNat_sub, mod_of_lt_two_mul (by omega)]
  split_ifs <;> omega

/-- A word with a one carried into it. -/
theorem one_lt_of_carry {x : BitVec w} (hx : 0 < x.toNat) : (1 : BitVec w).toNat = 1 := by
  have hlt := x.isLt
  rw [show (1 : BitVec w) = BitVec.ofNat w 1 from rfl, BitVec.toNat_ofNat, Nat.mod_eq_of_lt (by omega)]

/-! ## Both words -/

/-- The sum, but for a carry out of the high word. -/
theorem add_value_add (a b : DoubleWord w) :
    ∃ k ≤ 1, (add a b).value + k * (2 ^ w * 2 ^ w) = a.value + b.value := by
  have halo := a.lo.isLt
  have hblo := b.lo.isLt
  have hahi := a.hi.isLt
  have hbhi := b.hi.isLt
  have hlo := toNat_add_word a.lo b.lo
  -- the high words with the carry
  obtain ⟨c, k, hk, hc, hhi⟩ : ∃ c k, k ≤ 1 ∧ (a.lo + b.lo).toNat + c * 2 ^ w = a.lo.toNat + b.lo.toNat ∧
      (add a b).hi.toNat + k * 2 ^ w = a.hi.toNat + b.hi.toNat + c := by
    unfold add
    dsimp only
    by_cases hcarry : a.lo + b.lo < a.lo
    · rw [if_pos hcarry]
      rw [BitVec.lt_def] at hcarry
      have hpos : 0 < a.lo.toNat := by omega
      have hone := one_lt_of_carry hpos
      have hinc := toNat_add_word a.hi 1
      have hsum := toNat_add_word (a.hi + 1) b.hi
      rw [hone] at hinc
      split_ifs at hlo hinc hsum
      all_goals first
        | omega
        | exact ⟨1, 0, by omega, by omega, by omega⟩
        | exact ⟨1, 1, by omega, by omega, by omega⟩
    · rw [if_neg hcarry]
      rw [BitVec.lt_def] at hcarry
      have hsum := toNat_add_word a.hi b.hi
      split_ifs at hlo hsum
      all_goals first
        | omega
        | exact ⟨0, 0, by omega, by omega, by omega⟩
        | exact ⟨0, 1, by omega, by omega, by omega⟩
  refine ⟨k, hk, ?_⟩
  calc (add a b).value + k * (2 ^ w * 2 ^ w)
      = ((add a b).hi.toNat + k * 2 ^ w) * 2 ^ w + (a.lo + b.lo).toNat := by
        show (add a b).hi.toNat * 2 ^ w + (a.lo + b.lo).toNat + _ = _
        ring
    _ = (a.hi.toNat + b.hi.toNat) * 2 ^ w + ((a.lo + b.lo).toNat + c * 2 ^ w) := by rw [hhi]; ring
    _ = a.value + b.value := by
        rw [hc]
        unfold value
        ring

/-- The difference, but for a borrow into the high word. -/
theorem sub_value_add (a b : DoubleWord w) :
    ∃ k ≤ 1, (sub a b).value + b.value = a.value + k * (2 ^ w * 2 ^ w) := by
  have halo := a.lo.isLt
  have hblo := b.lo.isLt
  have hahi := a.hi.isLt
  have hbhi := b.hi.isLt
  have hlo := toNat_sub_word a.lo b.lo
  -- the high words with the borrow
  obtain ⟨c, k, hk, hc, hhi⟩ : ∃ c k, k ≤ 1 ∧ (a.lo - b.lo).toNat + b.lo.toNat = a.lo.toNat + c * 2 ^ w ∧
      (sub a b).hi.toNat + b.hi.toNat + c = a.hi.toNat + k * 2 ^ w := by
    unfold sub
    dsimp only
    by_cases hborrow : a.lo < a.lo - b.lo
    · rw [if_pos hborrow]
      rw [BitVec.lt_def] at hborrow
      have hpos : 0 < b.lo.toNat := by
        split_ifs at hlo
        all_goals omega
      have hone := one_lt_of_carry hpos
      have hdec := toNat_sub_word a.hi 1
      have hdiff := toNat_sub_word (a.hi - 1) b.hi
      rw [hone] at hdec
      split_ifs at hlo hdec hdiff
      all_goals first
        | omega
        | exact ⟨1, 0, by omega, by omega, by omega⟩
        | exact ⟨1, 1, by omega, by omega, by omega⟩
    · rw [if_neg hborrow]
      rw [BitVec.lt_def] at hborrow
      have hdiff := toNat_sub_word a.hi b.hi
      split_ifs at hlo hdiff
      all_goals first
        | omega
        | exact ⟨0, 0, by omega, by omega, by omega⟩
        | exact ⟨0, 1, by omega, by omega, by omega⟩
  refine ⟨k, hk, ?_⟩
  calc (sub a b).value + b.value
      = ((sub a b).hi.toNat + b.hi.toNat) * 2 ^ w + ((a.lo - b.lo).toNat + b.lo.toNat) := by
        show (sub a b).hi.toNat * 2 ^ w + (a.lo - b.lo).toNat + (b.hi.toNat * 2 ^ w + b.lo.toNat) = _
        ring
    _ = ((sub a b).hi.toNat + b.hi.toNat + c) * 2 ^ w + a.lo.toNat := by rw [hc]; ring
    _ = a.value + k * (2 ^ w * 2 ^ w) := by
        rw [hhi]
        unfold value
        ring

/-- The sum, where it fits. -/
theorem add_value {a b : DoubleWord w} (h : a.value + b.value < 2 ^ w * 2 ^ w) : (add a b).value = a.value + b.value := by
  obtain ⟨k, hk, heq⟩ := add_value_add a b
  interval_cases k <;> omega

/-- The difference, where there is one. -/
theorem sub_value {a b : DoubleWord w} (h : b.value ≤ a.value) : (sub a b).value = a.value - b.value := by
  have hlt := (sub a b).value_lt
  obtain ⟨k, hk, heq⟩ := sub_value_add a b
  interval_cases k <;> omega

/-- A difference below zero is counted from the top. -/
theorem sub_value_wrapped {a b : DoubleWord w} (h : a.value < b.value) :
    (sub a b).value = 2 ^ w * 2 ^ w - (b.value - a.value) := by
  have hlt := b.value_lt
  obtain ⟨k, hk, heq⟩ := sub_value_add a b
  interval_cases k <;> omega

end DoubleWord

end Xhyve.Lib
