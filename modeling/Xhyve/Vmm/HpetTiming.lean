import Xhyve.Lib.Pacing
import Xhyve.Vmm.HpetStatus

/-!
# When the HPET's timers fire

The comparator a periodic timer is moved on to, and the interrupts of a timer against the counter,
which is followed here past its 32 bits.
-/

namespace Xhyve.Vmm.Hpet

open Xhyve.Lib

theorem freqSbt_pos : 0 < freqSbt := by decide

/-! ## The next comparator -/

/-- Where the counter is on the comparator: past it, or not there yet. Their 32 bits do not tell. -/
inductive Side
  | past
  | ahead
deriving DecidableEq, Repr

/-- How far the counter has gone past the comparator; less than nothing while it is not there. -/
def beyond (side : Side) (counter compval : BitVec 32) : Int :=
  match side with
  | .past => (counter - compval).toNat
  | .ahead => -(compval - counter).toNat

/-- The new comparator is ahead of the counter by at most a period, and whole periods away from the
old one. -/
structure AheadInPhase (side : Side) (counter : BitVec 32) (old new : Timer) : Prop where
  ahead : 1 ≤ (new.compval - counter).toNat
  within : (new.compval - counter).toNat ≤ old.comprate.toNat
  phase : (old.comprate.toNat : Int) ∣ beyond side counter old.compval + (new.compval - counter).toNat

/-- The distance from the comparator, rounded up to a whole period. -/
theorem units_past (d r : BitVec 32) (hr : r ≠ 0) :
    (d / r + 1) * r = d + (r - d % r) ∧ d % r ≤ r := by
  have hpos : 0 < r.toNat := Nat.pos_of_ne_zero fun h => hr (BitVec.eq_of_toNat_eq h)
  have hlt := Nat.mod_lt d.toNat hpos
  have hle : d % r ≤ r := by
    rw [BitVec.le_def, BitVec.toNat_umod]
    exact hlt.le
  have hm := Nat.div_add_mod d.toNat r.toNat
  refine ⟨BitVec.eq_of_toNat_eq ?_, hle⟩
  rw [BitVec.toNat_add, BitVec.toNat_sub_of_le hle, BitVec.toNat_mul, BitVec.toNat_add,
    BitVec.toNat_udiv, BitVec.toNat_umod, Nat.mod_mul_mod]
  congr 1
  change (d.toNat / r.toNat + 1) * r.toNat = _
  rw [Nat.add_mul, Nat.mul_comm (_ / _)]
  omega

section Adjust

variable (t : Timer) (counter : BitVec 32)

/-- The new comparator is ahead of the counter by what the period has left. -/
theorem adjust_ahead (hr : t.comprate ≠ 0) :
    ((vhpetAdjustCompval t counter).compval - counter).toNat =
      t.comprate.toNat - (counter - t.compval).toNat % t.comprate.toNat := by
  obtain ⟨hunits, hle⟩ := units_past (counter - t.compval) t.comprate hr
  have hnext : (vhpetAdjustCompval t counter).compval - counter =
      t.comprate - (counter - t.compval) % t.comprate := by
    simp only [vhpetAdjustCompval, hunits]
    bv_omega
  rw [hnext, BitVec.toNat_sub_of_le hle, BitVec.toNat_umod]

theorem adjust_within (hr : t.comprate ≠ 0) :
    1 ≤ ((vhpetAdjustCompval t counter).compval - counter).toNat ∧
      ((vhpetAdjustCompval t counter).compval - counter).toNat ≤ t.comprate.toNat := by
  have hpos : 0 < t.comprate.toNat := Nat.pos_of_ne_zero fun h => hr (BitVec.eq_of_toNat_eq h)
  have hlt := Nat.mod_lt (counter - t.compval).toNat hpos
  rw [adjust_ahead t counter hr]
  omega

/-- From a counter past the comparator the next one is whole periods on. -/
theorem adjust_units (hr : t.comprate ≠ 0) :
    (t.comprate.toNat : Int) ∣ (counter - t.compval).toNat +
      ((vhpetAdjustCompval t counter).compval - counter).toNat := by
  have hpos : 0 < t.comprate.toNat := Nat.pos_of_ne_zero fun h => hr (BitVec.eq_of_toNat_eq h)
  have hlt := Nat.mod_lt (counter - t.compval).toNat hpos
  have hm := Nat.div_add_mod (counter - t.compval).toNat t.comprate.toNat
  rw [adjust_ahead t counter hr, ← Nat.cast_add, Int.natCast_dvd_natCast]
  refine ⟨(counter - t.compval).toNat / t.comprate.toNat + 1, ?_⟩
  rw [Nat.mul_add, Nat.mul_one]
  omega

/-- The next comparator is ahead of the counter by at most a period, and in phase exactly if the counter
was not behind the old one or the period divides the counter's range. -/
theorem adjust_in_phase (side : Side) (hr : t.comprate ≠ 0) :
    AheadInPhase side counter t (vhpetAdjustCompval t counter) ↔
      side = .past ∨ counter = t.compval ∨ t.comprate.toNat ∣ 2 ^ 32 := by
  obtain ⟨hahead, hwithin⟩ := adjust_within t counter hr
  have hunits := adjust_units t counter hr
  cases side with
  | past => exact ⟨fun _ => .inl rfl, fun _ => ⟨hahead, hwithin, hunits⟩⟩
  | ahead =>
    by_cases heq : counter = t.compval
    · refine ⟨fun _ => .inr (.inl heq), fun _ => ⟨hahead, hwithin, ?_⟩⟩
      simpa [beyond, heq] using hunits
    · -- The two distances, one from each side, make up the counter's range.
      have hround : (beyond .ahead counter t.compval : Int) = (counter - t.compval).toNat - 2 ^ 32 := by
        have hne : counter.toNat ≠ t.compval.toNat := fun h => heq (BitVec.eq_of_toNat_eq h)
        simp only [beyond]
        bv_omega
      have hiff : AheadInPhase .ahead counter t (vhpetAdjustCompval t counter) ↔
          (t.comprate.toNat : Int) ∣ 2 ^ 32 := by
        constructor
        · intro ⟨_, _, hphase⟩
          rw [hround] at hphase
          have hsub := Int.dvd_sub hunits hphase
          simpa using hsub
        · intro hd
          refine ⟨hahead, hwithin, ?_⟩
          rw [hround]
          have hsub := Int.dvd_sub hunits hd
          have hsum : ∀ x y : Int, x - 2 ^ 32 + y = x + y - 2 ^ 32 := fun x y => by omega
          rwa [hsum]
      rw [hiff]
      simp only [reduceCtorEq, heq, false_or]
      exact_mod_cast Iff.rfl

end Adjust

/-- A timer of period 30 whose comparator is ten ticks ahead. -/
def aheadTimer : Timer where
  capConfig := hpetTcnfType
  msireg := 0
  compval := 100
  comprate := 30
  active := true
  pending := false
  dispatched := false
  calloutSbt := 0

/-- The comparator goes from 100 to 114 where the counter is at 90. -/
theorem adjust_out_of_phase :
    aheadTimer.comprate ≠ 0 ∧ (vhpetAdjustCompval aheadTimer 90).compval = 114 ∧
      ¬ AheadInPhase .ahead 90 aheadTimer (vhpetAdjustCompval aheadTimer 90) := by
  refine ⟨by decide, by decide, ?_⟩
  intro h
  exact absurd h.phase (by decide)

theorem adjust_in_phase_past :
    AheadInPhase .past 190 aheadTimer (vhpetAdjustCompval aheadTimer 190) :=
  (adjust_in_phase aheadTimer 190 .past (by decide)).mpr (.inl rfl)

end Xhyve.Vmm.Hpet
