import Mathlib.Tactic

/-!
# Flags of a machine word

A flag is a power of two; testing it against a mask reads one bit.
-/

namespace Xhyve.Lib

section Flags
variable {w k : Nat}

theorem flag_ne_zero (hk : k < w) : BitVec.twoPow w k ≠ 0 := by
  intro h
  have hbit := congrArg (BitVec.getLsbD · k) h
  simp [hk] at hbit

/-- A test of a flag is a test of its bit. -/
theorem and_flag_eq_zero (hk : k < w) (x : BitVec w) :
    x &&& BitVec.twoPow w k = 0 ↔ x.getLsbD k = false := by
  rw [BitVec.and_twoPow]
  cases hx : x.getLsbD k with
  | false => simp
  | true => simpa using flag_ne_zero hk

theorem and_flag_ne_zero (hk : k < w) (x : BitVec w) :
    x &&& BitVec.twoPow w k ≠ 0 ↔ x.getLsbD k = true := by
  rw [Ne, and_flag_eq_zero hk, Bool.not_eq_false]

theorem and_flag_eq_flag (hk : k < w) (x : BitVec w) :
    x &&& BitVec.twoPow w k = BitVec.twoPow w k ↔ x.getLsbD k = true := by
  rw [BitVec.and_twoPow]
  cases hx : x.getLsbD k with
  | false => simpa using (flag_ne_zero hk).symm
  | true => simp

/-- Two values have the same flag, read as a masked word or as a bit. -/
theorem and_flag_eq (hk : k < w) (x y : BitVec w) :
    x &&& BitVec.twoPow w k = y &&& BitVec.twoPow w k ↔ x.getLsbD k = y.getLsbD k := by
  constructor
  · intro h
    have hx := and_flag_ne_zero hk x
    rw [h, and_flag_ne_zero hk y] at hx
    exact Bool.eq_iff_iff.mpr hx.symm
  · intro h
    rw [BitVec.and_twoPow, BitVec.and_twoPow, h]

/-- Two words have a bit in common. -/
theorem and_ne_zero_iff (x y : BitVec w) :
    x &&& y ≠ 0 ↔ ∃ i, x.getLsbD i = true ∧ y.getLsbD i = true := by
  constructor
  · intro h
    by_contra hnone
    apply h
    apply BitVec.eq_of_getLsbD_eq
    intro i _
    rw [BitVec.getLsbD_and]
    cases hx : x.getLsbD i with
    | false => simp
    | true =>
      cases hy : y.getLsbD i with
      | false => simp
      | true => exact absurd ⟨i, hx, hy⟩ hnone
  · intro ⟨i, hx, hy⟩ h
    have hbit := congrArg (BitVec.getLsbD · i) h
    simp [BitVec.getLsbD_and, hx, hy] at hbit

/-- The mask of the lowest `n` bits. -/
theorem getLsbD_lowMask (n i : Nat) :
    (BitVec.ofNat w (2 ^ n - 1)).getLsbD i = (decide (i < w) && decide (i < n)) := by
  rw [BitVec.getLsbD_ofNat, Nat.testBit_two_pow_sub_one]

end Flags

end Xhyve.Lib
