import Mathlib
import Xhyve.Lib.WordSet

/-!
# Going round a word

A loop goes round the bits of a word, one position at a time, and clears those it finds set. Its rank goes down with every
position, so that it comes to its end within so many rounds as there are bits.
-/

namespace Xhyve.Lib.WordSet

section RoundRobin
variable {w : Nat} {p : BitVec w} {i : Nat}

/-- The bit `k` positions on from `i`. -/
def bitFrom (p : BitVec w) (i k : Nat) : Bool := p.getLsbD ((i + k) % w)

/-- The way to the next bit that is set. -/
noncomputable def ahead (p : BitVec w) (i : Nat) : Nat := sInf {k | bitFrom p i k = true}

noncomputable def rank (p : BitVec w) (i : Nat) : Nat := w * (elems p).length + ahead p i

theorem ahead_le {k : Nat} (hk : bitFrom p i k = true) : ahead p i ≤ k := Nat.sInf_le hk

theorem bitFrom_ahead {k : Nat} (hk : bitFrom p i k = true) : bitFrom p i (ahead p i) = true :=
  Nat.sInf_mem (s := {k | bitFrom p i k = true}) ⟨k, hk⟩

theorem ahead_lt (hw : 0 < w) (p : BitVec w) (i : Nat) : ahead p i < w := by
  by_cases h : ∃ k, bitFrom p i k = true
  · obtain ⟨k, hk⟩ := h
    -- the same bit, less than a round on
    have hmod : bitFrom p i (k % w) = true := by
      unfold bitFrom at hk ⊢
      rwa [Nat.add_mod_mod]
    exact Nat.lt_of_le_of_lt (ahead_le hmod) (Nat.mod_lt k hw)
  · have hnone : {k | bitFrom p i k = true} = ∅ := Set.eq_empty_of_forall_notMem fun k hk => h ⟨k, hk⟩
    have hzero : ahead p i = 0 := by rw [ahead, hnone, Nat.sInf_empty]
    omega

/-- Where some bit is set, one is some way on. -/
theorem exists_bitFrom (hp : p ≠ 0) (i : Nat) : ∃ k, bitFrom p i k = true := by
  by_contra hnone
  apply hp
  apply BitVec.eq_of_getLsbD_eq
  intro j hj
  have hj' : ¬ bitFrom p i (j + w * (i + 1) - i) = true := fun h => hnone ⟨_, h⟩
  have hmul := Nat.mul_le_mul_right (i + 1) (Nat.succ_le_of_lt (Nat.zero_lt_of_lt hj))
  have hsum : i + (j + w * (i + 1) - i) = j + w * (i + 1) := by omega
  unfold bitFrom at hj'
  rw [hsum, Nat.add_mul_mod_self_left, Nat.mod_eq_of_lt hj, Bool.not_eq_true] at hj'
  rw [hj']
  exact BitVec.getLsbD_zero.symm

/-- The next bit comes nearer. -/
theorem ahead_next (hp : p ≠ 0) (hi : i < w) (hclear : p.getLsbD i = false) : ahead p ((i + 1) % w) < ahead p i := by
  obtain ⟨k, hk⟩ := exists_bitFrom hp i
  have hfound := bitFrom_ahead hk
  have hpos : ahead p i ≠ 0 := by
    intro hzero
    unfold bitFrom at hfound
    rw [hzero, Nat.add_zero, Nat.mod_eq_of_lt hi, hclear] at hfound
    cases hfound
  have hnext : bitFrom p ((i + 1) % w) (ahead p i - 1) = true := by
    unfold bitFrom at hfound ⊢
    rw [Nat.mod_add_mod, show i + 1 + (ahead p i - 1) = i + ahead p i by omega]
    exact hfound
  have hle := ahead_le hnext
  omega

/-- Passing a bit that is clear brings the loop nearer to its end. -/
theorem rank_pass (hp : p ≠ 0) (hi : i < w) (hclear : p.getLsbD i = false) : rank p ((i + 1) % w) < rank p i :=
  Nat.add_lt_add_left (ahead_next hp hi hclear) _

theorem nodup_elems (p : BitVec w) : (elems p).Nodup := List.nodup_range.filter _

/-- Without one of its bits a word has fewer of them. -/
theorem length_elems_lt {q : BitVec w} (hset : p.getLsbD i = true)
    (hsub : ∀ j, q.getLsbD j = true → p.getLsbD j = true ∧ j ≠ i) : (elems q).length < (elems p).length := by
  have hmem : i ∈ elems p := mem_elems.mpr hset
  have hinto : elems q ⊆ (elems p).erase i := by
    intro j hj
    obtain ⟨hbit, hne⟩ := hsub j (mem_elems.mp hj)
    exact (nodup_elems p).mem_erase_iff.mpr ⟨hne, mem_elems.mpr hbit⟩
  have hle := ((nodup_elems q).subperm hinto).length_le
  rw [List.length_erase_of_mem hmem] at hle
  have hpos := List.length_pos_of_mem hmem
  omega

/-- So does clearing one that is set. -/
theorem rank_shrink {q : BitVec w} (hset : p.getLsbD i = true)
    (hsub : ∀ j, q.getLsbD j = true → p.getLsbD j = true ∧ j ≠ i) (j : Nat) : rank q j < rank p i := by
  have hw : 0 < w := Nat.zero_lt_of_lt (BitVec.lt_of_getLsbD hset)
  have hahead := ahead_lt hw q j
  have hmul := Nat.mul_le_mul_left w (Nat.succ_le_of_lt (length_elems_lt hset hsub))
  rw [Nat.mul_succ] at hmul
  unfold rank
  omega

theorem rank_lt (hw : 0 < w) (p : BitVec w) (i : Nat) : rank p i < w * (w + 1) := by
  have hlen : (elems p).length ≤ w :=
    Nat.le_trans (List.length_filter_le _ _) (Nat.le_of_eq List.length_range)
  have hmul := Nat.mul_le_mul_left w hlen
  have hahead := ahead_lt hw p i
  unfold rank
  rw [Nat.mul_succ]
  omega

end RoundRobin

end Xhyve.Lib.WordSet
