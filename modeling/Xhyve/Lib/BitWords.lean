import Mathlib.Data.List.Sort
import Mathlib.Tactic

/-!
# Bit sets kept in an array of machine words

Bit `v` lives in word `v / w` at position `v % w`. Setting, clearing and the
scan for the highest set bit are related to one list: the set bits below a bound
in ascending order. The scan runs over the words from the top, as hardware
interrupt registers are read. Masks of a single bit and of a run of bits are read as
arithmetic.
-/

namespace Xhyve.Lib

/-- One past the position of the most significant set bit, zero when there is none. -/
def fls {w : Nat} (x : BitVec w) : Nat := if x = 0 then 0 else x.toNat.log2 + 1

section Fls
variable {w : Nat} {x : BitVec w}

theorem toNat_ne_zero (h : x ≠ 0) : x.toNat ≠ 0 :=
  fun hz => h (BitVec.eq_of_toNat_eq (by simpa using hz))

theorem fls_eq_zero_iff : fls x = 0 ↔ x = 0 := by
  unfold fls
  by_cases h : x = 0 <;> simp [h]

theorem fls_le : fls x ≤ w := by
  unfold fls
  split
  · omega
  · rename_i h
    exact (Nat.log2_lt (toNat_ne_zero h)).mpr x.isLt

theorem getLsbD_fls (h : x ≠ 0) : x.getLsbD (fls x - 1) = true := by
  rw [fls, if_neg h, Nat.add_sub_cancel]
  exact Nat.testBit_log2 (toNat_ne_zero h)

theorem lt_fls_of_getLsbD {i : Nat} (h : x.getLsbD i = true) : i < fls x := by
  have hx : x ≠ 0 := by
    rintro rfl
    simp at h
  have hle := Nat.ge_two_pow_of_testBit (x := x.toNat) (i := i) h
  rw [fls, if_neg hx]
  exact Nat.lt_succ_of_le ((Nat.le_log2 (toNat_ne_zero hx)).mpr hle)

end Fls

section Masks

theorem and_two_pow_eq_zero (x i : Nat) : x &&& 2 ^ i = 0 ↔ x.testBit i = false := by
  constructor
  · intro h
    have hbit := congrArg (·.testBit i) h
    simpa [Nat.testBit_and, Nat.testBit_two_pow_self] using hbit
  · intro h
    refine Nat.eq_of_testBit_eq fun j => ?_
    rw [Nat.testBit_and, Nat.zero_testBit]
    by_cases hj : i = j
    · rw [← hj, h, Bool.false_and]
    · rw [Nat.testBit_two_pow_of_ne hj, Bool.and_false]

theorem or_two_pow_of_testBit {x i : Nat} (h : x.testBit i = true) : x ||| 2 ^ i = x := by
  refine Nat.eq_of_testBit_eq fun j => ?_
  rw [Nat.testBit_or, Nat.testBit_two_pow]
  by_cases hj : i = j
  · subst hj; simp [h]
  · simp [hj]

theorem and_mask_eq (x s k : Nat) : x &&& ((2 ^ k - 1) <<< s) = x / 2 ^ s % 2 ^ k * 2 ^ s := by
  refine Nat.eq_of_testBit_eq fun i => ?_
  rw [← Nat.shiftLeft_eq]
  simp only [Nat.testBit_and, Nat.testBit_shiftLeft, Nat.testBit_two_pow_sub_one,
    Nat.testBit_mod_two_pow, Nat.testBit_div_two_pow]
  by_cases hi : s ≤ i
  · rw [Nat.sub_add_cancel hi]
    simp [hi, Bool.and_comm]
  · simp [hi]

end Masks

abbrev BitWords (w : Nat) := Nat → BitVec w

namespace BitWords

variable {w : Nat}

def has (r : BitWords w) (v : Nat) : Bool := (r (v / w)).getLsbD (v % w)

def set (r : BitWords w) (v : Nat) : BitWords w :=
  Function.update r (v / w) (r (v / w) ||| (1#w <<< (v % w)))

def clear (r : BitWords w) (v : Nat) : BitWords w :=
  Function.update r (v / w) (r (v / w) &&& ~~~(1#w <<< (v % w)))

/-- Scan words `n-1, …, 0` for the highest set bit. -/
def highest (r : BitWords w) : Nat → Option Nat
  | 0 => none
  | n + 1 => if fls (r n) ≠ 0 then some (n * w + (fls (r n) - 1)) else highest r n

/-- The set bits below `n`, in ascending order. -/
def elems (r : BitWords w) (n : Nat) : List Nat := (List.range n).filter r.has

/-- Two bits share a word exactly when they agree after division, and a position
when they agree after remainder. -/
theorem getLsbD_bit {u v : Nat} (hw : 0 < w) (hd : u / w = v / w) :
    (1#w <<< (v % w)).getLsbD (u % w) = decide (u = v) := by
  have hu := Nat.mod_lt u hw
  have hiff : u % w = v % w ↔ u = v := by
    constructor
    · intro hm
      rw [← Nat.div_add_mod u w, ← Nat.div_add_mod v w, hd, hm]
    · rintro rfl
      rfl
  simp only [BitVec.getLsbD_shiftLeft, BitVec.getLsbD_one, ← hiff]
  by_cases h : u % w = v % w <;> simp [h, hu] <;> omega

theorem has_set {r : BitWords w} {u v : Nat} (hw : 0 < w) :
    (r.set v).has u = (decide (u = v) || r.has u) := by
  unfold has set
  by_cases hd : u / w = v / w
  · rw [hd, Function.update_self, BitVec.getLsbD_or, getLsbD_bit hw hd, Bool.or_comm]
  · have hne : u ≠ v := fun he => hd (by rw [he])
    rw [Function.update_of_ne hd]
    simp [hne]

theorem has_clear {r : BitWords w} {u v : Nat} (hw : 0 < w) :
    (r.clear v).has u = (!decide (u = v) && r.has u) := by
  unfold has clear
  by_cases hd : u / w = v / w
  · rw [hd, Function.update_self, BitVec.getLsbD_and, BitVec.getLsbD_not, getLsbD_bit hw hd,
      Bool.and_comm]
    simp [Nat.mod_lt u hw]
  · have hne : u ≠ v := fun he => hd (by rw [he])
    rw [Function.update_of_ne hd]
    simp [hne]

@[simp] theorem mem_elems {r : BitWords w} {n v : Nat} :
    v ∈ r.elems n ↔ v < n ∧ r.has v = true := by
  simp [elems]

theorem elems_pairwise (r : BitWords w) (n : Nat) : (r.elems n).Pairwise (· < ·) :=
  List.pairwise_lt_range.filter _

/-- Setting a bit above every set bit appends it. -/
theorem elems_set {r : BitWords w} {n v : Nat} (hw : 0 < w) (hv : v < n)
    (hmax : ∀ u ∈ r.elems n, u < v) : (r.set v).elems n = r.elems n ++ [v] := by
  have hp : (r.elems n ++ [v]).Pairwise (· < ·) := by
    rw [List.pairwise_append]
    exact ⟨elems_pairwise r n, List.pairwise_singleton _ _, by simpa using hmax⟩
  refine List.Perm.eq_of_pairwise (fun a b _ _ hab hba => ?_) (elems_pairwise _ _) hp ?_
  · omega
  · refine (List.perm_ext_iff_of_nodup ((elems_pairwise _ _).imp Nat.ne_of_lt)
      (hp.imp Nat.ne_of_lt)).mpr fun u => ?_
    simp only [mem_elems, List.mem_append, List.mem_singleton, has_set hw, Bool.or_eq_true,
      decide_eq_true_eq]
    by_cases he : u = v <;> simp [he, hv]

/-- Clearing the highest set bit removes the last element. -/
theorem elems_clear {r : BitWords w} {n v : Nat} {l : List Nat} (hw : 0 < w)
    (hl : r.elems n = l ++ [v]) : (r.clear v).elems n = l := by
  have hp := elems_pairwise r n
  rw [hl, List.pairwise_append] at hp
  have hmem : ∀ u, u ∈ l ++ [v] ↔ u < n ∧ r.has u = true := by
    intro u
    rw [← hl, mem_elems]
  refine List.Perm.eq_of_pairwise (fun a b _ _ hab hba => ?_) (elems_pairwise _ _) hp.1 ?_
  · omega
  · refine (List.perm_ext_iff_of_nodup ((elems_pairwise _ _).imp Nat.ne_of_lt)
      (hp.1.imp Nat.ne_of_lt)).mpr fun u => ?_
    have hlt : u ∈ l → u < v := fun hu => hp.2.2 u hu v (by simp)
    have hu := hmem u
    simp only [List.mem_append, List.mem_singleton] at hu
    simp only [mem_elems, has_clear hw, Bool.and_eq_true, Bool.not_eq_true',
      decide_eq_false_iff_not]
    constructor
    · rintro ⟨hn, hne, hr⟩
      exact (hu.mpr ⟨hn, hr⟩).resolve_right hne
    · intro h
      exact ⟨(hu.mp (Or.inl h)).1, Nat.ne_of_lt (hlt h), (hu.mp (Or.inl h)).2⟩

theorem getLast?_of_max {l : List Nat} {v : Nat} (hp : l.Pairwise (· < ·)) (hv : v ∈ l)
    (hmax : ∀ u ∈ l, u ≤ v) : l.getLast? = some v := by
  cases hl : l.getLast? with
  | none => simp [List.getLast?_eq_none_iff.mp hl] at hv
  | some x =>
    obtain ⟨a, rfl⟩ := List.getLast?_eq_some_iff.mp hl
    rcases List.mem_append.mp hv with h | h
    · have hlt := (List.pairwise_append.mp hp).2.2 v h x (by simp)
      have hle := hmax x (by simp)
      omega
    · rw [List.mem_singleton.mp h]

/-- The word scan finds the last element of the ascending list. -/
theorem highest_eq_getLast? {r : BitWords w} (hw : 0 < w) (n : Nat) :
    r.highest n = (r.elems (n * w)).getLast? := by
  induction n with
  | zero => simp [highest, elems]
  | succ n ih =>
    by_cases hz : r n = 0
    · have hskip : r.elems ((n + 1) * w) = r.elems (n * w) := by
        have hnone : ∀ u ∈ List.range w, ¬ (r.has ∘ fun x => n * w + x) u = true := by
          intro u hu
          have hlt : u < w := by simpa using hu
          simp [has, Nat.mul_comm n w, Nat.mul_add_div hw, Nat.div_eq_of_lt hlt, hz]
        unfold elems
        rw [Nat.succ_mul, List.range_add, List.filter_append, List.filter_map,
          List.filter_eq_nil_iff.mpr hnone, List.map_nil, List.append_nil]
      rw [highest, if_neg (by simpa using fls_eq_zero_iff.mpr hz), ih, hskip]
    · have hf : fls (r n) ≠ 0 := fun h => hz (fls_eq_zero_iff.mp h)
      have hle : fls (r n) ≤ w := fls_le
      have hdiv : (n * w + (fls (r n) - 1)) / w = n := by
        rw [Nat.mul_comm n w, Nat.mul_add_div hw, Nat.div_eq_of_lt (by omega), Nat.add_zero]
      have hmod : (n * w + (fls (r n) - 1)) % w = fls (r n) - 1 := by
        rw [Nat.mul_comm n w, Nat.mul_add_mod, Nat.mod_eq_of_lt (by omega)]
      rw [highest, if_pos hf]
      refine (getLast?_of_max (elems_pairwise _ _) ?_ ?_).symm
      · rw [mem_elems, has, hdiv, hmod]
        exact ⟨by rw [Nat.succ_mul]; omega, getLsbD_fls hz⟩
      · intro u hu
        rw [mem_elems, Nat.mul_comm] at hu
        have hun : u / w ≤ n := Nat.lt_succ_iff.mp (Nat.div_lt_of_lt_mul hu.1)
        have hdm := Nat.div_add_mod u w
        have hlt := Nat.mod_lt u hw
        rcases Nat.lt_or_eq_of_le hun with h | h
        · have := Nat.mul_le_mul_left w (Nat.succ_le_of_lt h)
          rw [Nat.mul_succ, Nat.mul_comm w n] at this
          omega
        · have hb := hu.2
          rw [has, h] at hb
          have hbit := lt_fls_of_getLsbD hb
          rw [h, Nat.mul_comm] at hdm
          omega

end BitWords
end Xhyve.Lib
