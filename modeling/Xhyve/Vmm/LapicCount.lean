import Mathlib.Tactic.IntervalCases
import Xhyve.Vmm.LapicTimer

/-!
# The current count is in range

A tick lasts `2 ^ 37` times the divisor, a power of two, so the conversions between ticks and instants are exact. The timer
is armed for less than a tick more than the initial count, which is what the count's assertion needs; a new divisor
changes the ticks and not the instant.
-/

namespace Xhyve.Vmm.LapicTimer

open Xhyve.Lib
open Xhyve.Lib.DoubleWord (value)
open Xhyve.Vmm.Lapic

/-! ## Fixed point -/

theorem pow_two_words : (2 : Nat) ^ 64 * 2 ^ 64 = 2 ^ 128 := by decide

theorem toNat_low (x : BitVec 64) : (x &&& 0xffffffff).toNat = x.toNat % 2 ^ 32 := by
  rw [BitVec.toNat_and]
  exact Nat.and_two_pow_sub_one_eq_mod x.toNat 32

theorem toNat_high (x : BitVec 64) : (x >>> 32).toNat = x.toNat / 2 ^ 32 := by
  rw [BitVec.toNat_ushiftRight, Nat.shiftRight_eq_div_pow]

/-- Two halves put together. -/
theorem toNat_halves (hi lo : BitVec 64) :
    ((hi <<< 32) ||| (lo &&& 0xffffffff)).toNat = hi.toNat % 2 ^ 32 * 2 ^ 32 + lo.toNat % 2 ^ 32 := by
  have hlo : lo.toNat % 2 ^ 32 < 2 ^ 32 := Nat.mod_lt _ (by decide)
  have hhi : (hi <<< 32).toNat = 2 ^ 32 * (hi.toNat % 2 ^ 32) := by
    rw [BitVec.toNat_shiftLeft, Nat.shiftLeft_eq]
    omega
  rw [BitVec.toNat_or, toNat_low, hhi, ← Nat.two_pow_add_eq_or_of_lt hlo, Nat.mul_comm]

/-- The product of a fraction, which is exact. -/
theorem bintimeMul_value (frac : BitVec 64) (x : BitVec 32) : (bintimeMul ⟨0, frac⟩ x).value = frac.toNat * x.toNat := by
  have hx := x.isLt
  have hfrac := frac.isLt
  have hwide : (x.setWidth 64).toNat = x.toNat := by
    rw [BitVec.toNat_setWidth]
    omega
  have hlow : frac.toNat % 2 ^ 32 ≤ 2 ^ 32 - 1 := by omega
  have hhigh : frac.toNat / 2 ^ 32 ≤ 2 ^ 32 - 1 := by omega
  have hmullow : frac.toNat % 2 ^ 32 * x.toNat ≤ (2 ^ 32 - 1) * (2 ^ 32 - 1) := Nat.mul_le_mul hlow (by omega)
  have hmulhigh : frac.toNat / 2 ^ 32 * x.toNat ≤ (2 ^ 32 - 1) * (2 ^ 32 - 1) := Nat.mul_le_mul hhigh (by omega)
  have hp1 : ((frac &&& 0xffffffff) * x.setWidth 64).toNat = frac.toNat % 2 ^ 32 * x.toNat := by
    rw [BitVec.toNat_mul, toNat_low, hwide]
    omega
  have hp2 : ((frac >>> 32) * x.setWidth 64 + (((frac &&& 0xffffffff) * x.setWidth 64) >>> 32)).toNat =
      frac.toNat / 2 ^ 32 * x.toNat + frac.toNat % 2 ^ 32 * x.toNat / 2 ^ 32 := by
    rw [BitVec.toNat_add, BitVec.toNat_mul, toNat_high, toNat_high, hp1, hwide]
    omega
  have hsplit : frac.toNat * x.toNat =
      frac.toNat / 2 ^ 32 * x.toNat * 2 ^ 32 + frac.toNat % 2 ^ 32 * x.toNat := by
    conv_lhs => rw [← Nat.div_add_mod frac.toNat (2 ^ 32)]
    ring
  rw [hsplit]
  unfold value bintimeMul
  dsimp only
  rw [toNat_halves, show (0 : BitVec 64) = 0#64 from rfl, BitVec.zero_mul, BitVec.zero_add, toNat_high, hp2, hp1]
  omega

theorem binuptime_value (ns : BitVec 64) :
    (binuptime ns).value = ns.toNat / 1000000000 * 2 ^ 64 + ns.toNat % 1000000000 * 18446744073 := by
  have hmod : ns.toNat % 1000000000 < 1000000000 := Nat.mod_lt _ (by decide)
  unfold value binuptime
  dsimp only
  rw [BitVec.toNat_udiv, BitVec.toNat_mul, BitVec.toNat_umod,
    show (0x8000000000000000 / 500000000 : BitVec 64).toNat = 18446744073 from by decide,
    show (1000000000 : BitVec 64).toNat = 1000000000 from by decide]
  omega

/-- The uptime in seconds fits in 35 bits. -/
theorem binuptime_lt (ns : BitVec 64) : (binuptime ns).value < 2 ^ 99 := by
  have hns := ns.isLt
  rw [binuptime_value]
  omega

theorem binuptime_mono {a b : BitVec 64} (h : a ≤ b) : (binuptime a).value ≤ (binuptime b).value := by
  rw [BitVec.le_def] at h
  rw [binuptime_value, binuptime_value]
  omega

/-! ## Ticks -/

/-- The divisor is a power of two, and no value of the register is without one. -/
theorem divisor_pow (dcr : BitVec 32) : ∃ k < 8, vlapicTimerDivisor dcr = .ok (BitVec.ofNat 32 (2 ^ k)) := by
  have hlow : (dcr &&& 0xb).toNat = dcr.toNat % 16 &&& 11 := by
    rw [BitVec.toNat_and, ← Nat.and_two_pow_sub_one_eq_mod dcr.toNat 4, Nat.and_assoc]
    rfl
  have hlt : dcr.toNat % 16 < 16 := Nat.mod_lt _ (by decide)
  unfold vlapicTimerDivisor
  rw [hlow]
  generalize dcr.toNat % 16 = r at hlt
  interval_cases r
  all_goals first
    | exact ⟨0, by decide, rfl⟩
    | exact ⟨1, by decide, rfl⟩
    | exact ⟨2, by decide, rfl⟩
    | exact ⟨3, by decide, rfl⟩
    | exact ⟨4, by decide, rfl⟩
    | exact ⟨5, by decide, rfl⟩
    | exact ⟨6, by decide, rfl⟩
    | exact ⟨7, by decide, rfl⟩

/-- What the clock is divided by. -/
def divisor (dcr : BitVec 32) : BitVec 32 := (vlapicTimerDivisor dcr).toOption.getD 0

/-- The length of a tick, in units of the fraction. -/
def tick (dcr : BitVec 32) : Nat := 2 ^ 37 * (divisor dcr).toNat

theorem divisor_ok (dcr : BitVec 32) : vlapicTimerDivisor dcr = .ok (divisor dcr) := by
  obtain ⟨k, -, hk⟩ := divisor_pow dcr
  unfold divisor
  rw [hk]
  rfl

/-- The tick's length is exact, and so is the frequency worked out from it. -/
structure Exact (freq : Bintime) (tick : Nat) : Prop where
  sec : freq.hi = 0
  frac : freq.lo.toNat = tick
  pos : 0 < tick
  le : tick ≤ 2 ^ 44
  freq : (bt2freq freq).toNat * tick = 2 ^ 64

theorem freq2bt_exact (dcr : BitVec 32) : Exact (freq2bt (vlapicBusFreq / divisor dcr)) (tick dcr) := by
  obtain ⟨k, hk, hdiv⟩ := divisor_pow dcr
  have hd : divisor dcr = BitVec.ofNat 32 (2 ^ k) := by
    unfold divisor
    rw [hdiv]
    rfl
  unfold tick
  rw [hd]
  interval_cases k
  all_goals exact ⟨by decide, by decide, by decide, by decide, by decide⟩

/-- The count of whole ticks, worked out of seconds and fraction, as far as 32 bits go. -/
theorem ticks_in {freq : Bintime} {n : Nat} (h : Exact freq n) (rem : Bintime) :
    ((rem.hi * bt2freq freq).setWidth 32 + (rem.lo / freq.lo).setWidth 32).toNat = rem.value / n % 2 ^ 32 := by
  have hseconds : rem.hi.toNat * 2 ^ 64 = rem.hi.toNat * (bt2freq freq).toNat * n := by
    rw [← h.freq, Nat.mul_assoc]
  have hticks : rem.value / n = rem.hi.toNat * (bt2freq freq).toNat + rem.lo.toNat / n := by
    unfold value
    rw [hseconds, Nat.add_comm, Nat.add_mul_div_right _ _ h.pos, Nat.add_comm]
  rw [hticks, BitVec.toNat_add, BitVec.toNat_setWidth, BitVec.toNat_setWidth, BitVec.toNat_mul, BitVec.toNat_udiv, h.frac]
  omega

/-! ## The invariant -/

/-- Frequency and period are those of the two registers, and an active callout is due in less than a tick more than the
initial count. -/
structure Armed (s : Timer) : Prop where
  freq : s.timerFreqBt = freq2bt (vlapicBusFreq / divisor s.dcrTimer)
  period : s.timerPeriodBt = bintimeMul s.timerFreqBt s.icrTimer
  fire_lt : s.timerFireBt.value < 2 ^ 100
  due : s.callout.active = true →
    s.timerFireBt.value < (binuptime s.uptime).value + (s.icrTimer.toNat + 1) * tick s.dcrTimer

theorem Armed.exact {s : Timer} (h : Armed s) : Exact s.timerFreqBt (tick s.dcrTimer) := h.freq ▸ freq2bt_exact s.dcrTimer

theorem Exact.period {freq : Bintime} {n : Nat} (h : Exact freq n) (icr : BitVec 32) :
    (bintimeMul freq icr).value = icr.toNat * n := by
  have hfreq : freq = ⟨0, freq.lo⟩ := DoubleWord.ext h.sec rfl
  rw [hfreq, bintimeMul_value, h.frac, Nat.mul_comm]

theorem Armed.period_value {s : Timer} (h : Armed s) : s.timerPeriodBt.value = s.icrTimer.toNat * tick s.dcrTimer := by
  rw [h.period, h.exact.period]

/-- A period is shorter than half an hour of seconds. -/
theorem Exact.period_lt {freq : Bintime} {n : Nat} (h : Exact freq n) (icr : BitVec 32) : icr.toNat * n < 2 ^ 76 := by
  have hmul := Nat.mul_le_mul (Nat.le_sub_one_of_lt icr.isLt) h.le
  omega

/-! ## The count -/

/-- The time left until the callout is due. -/
def left (s : Timer) : Nat := s.timerFireBt.value - (binuptime s.uptime).value

/-- The count is the whole ticks of the time left. -/
theorem getCcr_eq {s : Timer} (h : Armed s) :
    ∃ c, vlapicGetCcr s = .ok c ∧ c ≤ s.icrTimer ∧
      c.toNat = if s.callout.active then left s / tick s.dcrTimer else 0 := by
  have hpos := h.exact.pos
  unfold vlapicGetCcr
  by_cases hactive : s.callout.active = true
  · rw [if_pos hactive, if_pos hactive]
    dsimp only
    by_cases hlt : DoubleWord.lt (binuptime s.uptime) s.timerFireBt = true
    · rw [if_pos hlt]
      rw [DoubleWord.lt_iff] at hlt
      have hrem := DoubleWord.sub_value hlt.le
      have hcount := ticks_in h.exact (DoubleWord.sub s.timerFireBt (binuptime s.uptime))
      rw [hrem] at hcount
      -- the count fits in the register
      have hle : left s / tick s.dcrTimer ≤ s.icrTimer.toNat := by
        refine Nat.le_of_lt_succ ((Nat.div_lt_iff_lt_mul hpos).mpr ?_)
        show s.timerFireBt.value - (binuptime s.uptime).value < (s.icrTimer.toNat + 1) * tick s.dcrTimer
        have hdue := h.due hactive
        omega
      have hicr := s.icrTimer.isLt
      rw [show s.timerFireBt.value - (binuptime s.uptime).value = left s from rfl,
        Nat.mod_eq_of_lt (by omega)] at hcount
      have hin : _ ≤ s.icrTimer := BitVec.le_def.mpr (hcount ▸ hle)
      exact ⟨_, if_pos hin, hin, hcount⟩
    · rw [if_neg hlt]
      rw [DoubleWord.lt_iff] at hlt
      have hleft : left s = 0 := by
        unfold left
        omega
      have hzero : (0 : BitVec 32) ≤ s.icrTimer := BitVec.le_def.mpr (Nat.zero_le _)
      refine ⟨0, if_pos hzero, hzero, ?_⟩
      rw [hleft, Nat.zero_div]
      rfl
  · rw [if_neg hactive, if_neg hactive]
    have hzero : (0 : BitVec 32) ≤ s.icrTimer := BitVec.le_def.mpr (Nat.zero_le _)
    exact ⟨0, if_pos hzero, hzero, rfl⟩

/-! ## One step -/

/-- Armed again, from an instant that is not in the future. -/
theorem armed_reset {s : Timer} {base : Bintime} (hfreq : s.timerFreqBt = freq2bt (vlapicBusFreq / divisor s.dcrTimer))
    (hperiod : s.timerPeriodBt = bintimeMul s.timerFreqBt s.icrTimer) (hbase : base.value ≤ (binuptime s.uptime).value) :
    Armed (calloutReset { s with timerFireBt := DoubleWord.add base s.timerPeriodBt }) := by
  have hexact : Exact s.timerFreqBt (tick s.dcrTimer) := hfreq ▸ freq2bt_exact s.dcrTimer
  have hvalue : s.timerPeriodBt.value = s.icrTimer.toNat * tick s.dcrTimer := by rw [hperiod, hexact.period]
  have hshort := hexact.period_lt s.icrTimer
  have hnow := binuptime_lt s.uptime
  have hsum : (DoubleWord.add base s.timerPeriodBt).value = base.value + s.timerPeriodBt.value :=
    DoubleWord.add_value (by rw [pow_two_words]; omega)
  refine ⟨hfreq, hperiod, ?_, fun _ => ?_⟩
  · show (DoubleWord.add base s.timerPeriodBt).value < 2 ^ 100
    omega
  · show (DoubleWord.add base s.timerPeriodBt).value < (binuptime s.uptime).value + (s.icrTimer.toNat + 1) * tick s.dcrTimer
    have hpos := hexact.pos
    rw [Nat.succ_mul]
    omega

/-- Stopped, or its flags and its registers for other things changed. -/
theorem armed_same {s t : Timer} (h : Armed s) (hdcr : t.dcrTimer = s.dcrTimer) (hicr : t.icrTimer = s.icrTimer)
    (hfreq : t.timerFreqBt = s.timerFreqBt) (hperiod : t.timerPeriodBt = s.timerPeriodBt)
    (hfire : t.timerFireBt = s.timerFireBt) (hactive : t.callout.active = true → s.callout.active = true)
    (hup : s.uptime ≤ t.uptime) : Armed t where
  freq := by rw [hfreq, hdcr, h.freq]
  period := by rw [hperiod, hfreq, hicr, h.period]
  fire_lt := hfire ▸ h.fire_lt
  due ht := by
    have hdue := h.due (hactive ht)
    have hmono := binuptime_mono hup
    rw [hfire, hicr, hdcr]
    omega

theorem icrtmr_armed {s : Timer} (hfreq : s.timerFreqBt = freq2bt (vlapicBusFreq / divisor s.dcrTimer))
    (hfire : s.timerFireBt.value < 2 ^ 100) : Armed (vlapicIcrtmrWriteHandler s) := by
  unfold vlapicIcrtmrWriteHandler
  dsimp only
  by_cases hicr : s.icrTimer ≠ 0
  · rw [if_pos hicr]
    exact armed_reset (s := { s with timerPeriodBt := bintimeMul s.timerFreqBt s.icrTimer }) hfreq rfl le_rfl
  · rw [if_neg hicr]
    exact ⟨hfreq, rfl, hfire, fun hactive => nomatch hactive⟩

/-- A late handler steps on from the instant it was due at, unless that is a period ago; an early one from the present. -/
theorem callout_armed {s : Timer} (h : Armed s) : Armed (vlapicCalloutHandler s) := by
  let delivered := { s with
    callout := { s.callout with active := false }, lapic := LapicMasks.vlapicFireTimer s.lapic }
  unfold vlapicCalloutHandler
  dsimp only
  split_ifs with hpending hactive hperiodic hless
  · exact h
  · exact h
  · refine armed_reset (s := delivered) h.freq h.period ?_
    rw [DoubleWord.lt_iff] at hless
    by_contra hearly
    -- the delta is counted from the top, and no period is that long
    have hwrap := DoubleWord.sub_value_wrapped (Nat.lt_of_not_le hearly)
    have hfire := h.fire_lt
    have hshort := h.exact.period_lt s.icrTimer
    rw [pow_two_words] at hwrap
    rw [h.period_value, hwrap] at hless
    omega
  · exact armed_reset (s := delivered) h.freq h.period le_rfl
  · exact armed_same h rfl rfl rfl rfl rfl (fun hactive => nomatch hactive) (BitVec.le_refl _)

theorem svr_armed {s : Timer} (h : Armed s) : Armed (svrWriteHandler s) := by
  unfold svrWriteHandler
  dsimp only
  split_ifs
  · exact armed_same h rfl rfl rfl rfl rfl (fun hactive => nomatch hactive) (BitVec.le_refl _)
  · exact icrtmr_armed h.freq h.fire_lt
  · exact armed_same h rfl rfl rfl rfl rfl id (BitVec.le_refl _)
  · exact armed_same h rfl rfl rfl rfl rfl id (BitVec.le_refl _)

/-- A write of the divide configuration leaves less time than a tick more than the initial count, by the new divisor. -/
def DividerKept (s : Timer) : Op → Prop
  | .dcrWrite data => s.callout.active = true →
      s.timerFireBt.value < (binuptime s.uptime).value + (s.icrTimer.toNat + 1) * tick data
  | _ => True

instance (s : Timer) (o : Op) : Decidable (DividerKept s o) := by
  cases o <;> unfold DividerKept <;> infer_instance

theorem next_armed {s t : Timer} {o : Op} (h : Armed s) (hok : DividerKept s o) (hnext : next s o = some t) : Armed t := by
  cases o with
  | dcrWrite data =>
    simp only [next, vlapicDcrWriteHandler, divisor_ok] at hnext
    obtain rfl := Option.some.inj hnext
    exact ⟨rfl, rfl, h.fire_lt, hok⟩
  | icrWrite data =>
    obtain rfl := Option.some.inj hnext
    exact icrtmr_armed h.freq h.fire_lt
  | lvtWrite data =>
    obtain rfl := Option.some.inj hnext
    exact armed_same h rfl rfl rfl rfl rfl id (BitVec.le_refl _)
  | svrWrite data =>
    obtain rfl := Option.some.inj hnext
    exact svr_armed (armed_same h rfl rfl rfl rfl rfl id (BitVec.le_refl _))
  | expire =>
    obtain ⟨-, hsome⟩ := Option.ite_none_right_eq_some.mp hnext
    obtain rfl := Option.some.inj hsome
    exact armed_same h rfl rfl rfl rfl rfl id (BitVec.le_refl _)
  | calloutHandler =>
    obtain rfl := Option.some.inj hnext
    exact callout_armed h
  | passTime uptime =>
    obtain ⟨hle, hsome⟩ := Option.ite_none_right_eq_some.mp hnext
    obtain rfl := Option.some.inj hsome
    exact armed_same h rfl rfl rfl rfl rfl id hle

/-- The reset writes the divide configuration as well. -/
theorem init_armed (uptime : BitVec 64) : Armed (initTimer uptime) where
  freq := by
    show freq2bt (vlapicBusFreq / 2) = freq2bt (vlapicBusFreq / divisor 0)
    rw [show divisor 0 = 2 by decide]
  period := rfl
  fire_lt := by
    show value (⟨0, 0⟩ : Bintime) < 2 ^ 100
    decide
  due hactive := nomatch hactive

theorem armed_inductive : (system.restrict DividerKept).Inductive Armed where
  init := by
    rintro s ⟨uptime, rfl⟩
    exact init_armed uptime
  step _ _ _ h hstep := next_armed h hstep.1 hstep.2

/-! ## The count over a run -/

/-- The count is at most the initial count, nothing while the timer is not running, and does not go up with time. -/
structure CountInRange (s : Timer) : Prop where
  le : ∃ c, vlapicGetCcr s = .ok c ∧ c ≤ s.icrTimer
  idle : s.callout.active = false → vlapicGetCcr s = .ok 0
  antitone : ∀ c ns t, vlapicGetCcr s = .ok c → next s (.passTime ns) = some t → ∃ c', vlapicGetCcr t = .ok c' ∧ c' ≤ c

theorem Armed.inRange {s : Timer} (h : Armed s) : CountInRange s := by
  obtain ⟨c, hget, hle, hc⟩ := getCcr_eq h
  refine ⟨⟨c, hget, hle⟩, fun hidle => ?_, fun d ns t hd ht => ?_⟩
  · rw [hidle] at hc
    rw [hget, show c = 0 from BitVec.eq_of_toNat_eq hc]
  · obtain rfl : c = d := Except.ok.inj (hget.symm.trans hd)
    obtain ⟨c', hget', -, hc'⟩ := getCcr_eq (next_armed (o := .passTime ns) h trivial ht)
    obtain ⟨hns, hsome⟩ := Option.ite_none_right_eq_some.mp ht
    obtain rfl := Option.some.inj hsome
    refine ⟨c', hget', BitVec.le_def.mpr ?_⟩
    have hless : left { s with uptime := ns } ≤ left s := Nat.sub_le_sub_left (binuptime_mono hns) _
    rw [hc, hc']
    show (if s.callout.active then left { s with uptime := ns } / tick s.dcrTimer else 0) ≤ _
    split_ifs
    · exact Nat.div_le_div_right hless
    · exact le_rfl

theorem current_count_in_range {s : Timer} (h : (system.restrict DividerKept).Reachable s) : CountInRange s :=
  (armed_inductive.reachable h).inRange

/-- A periodic timer that expires late, and whose divisor is lowered towards the end of the next period. -/
def periodicRun : List Op :=
  [.svrWrite 0x1ff, .lvtWrite 0x20030, .dcrWrite 0xa, .icrWrite 1000, .passTime 960000, .expire, .calloutHandler,
    .passTime 1907000, .dcrWrite 0xb]

theorem current_count_in_range_periodic :
    ∃ s, System.exec (System.guarded DividerKept next) (initTimer 0) periodicRun = some s ∧
      vlapicGetCcr s = .ok 46 ∧ CountInRange s := by
  have hrun : (System.exec (System.guarded DividerKept next) (initTimer 0) periodicRun).isSome := by decide +kernel
  obtain ⟨s, hs⟩ := Option.isSome_iff_exists.mp hrun
  have hcount : ((System.exec (System.guarded DividerKept next) (initTimer 0) periodicRun).map vlapicGetCcr) =
      some (.ok 46) := by rfl
  rw [hs] at hcount
  refine ⟨s, hs, Option.some.inj hcount, current_count_in_range ?_⟩
  exact System.exec_reachable_guarded (.init ⟨0, rfl⟩) hs

/-- One tick of 128 cycles is left, and a tick becomes one cycle. -/
theorem divisor_lowered_while_counting : ¬ ∀ s, system.Reachable s → CountInRange s := by
  intro h
  have hcount : ((System.exec next (initTimer 0) [.dcrWrite 0xa, .icrWrite 1, .dcrWrite 0xb]).map vlapicGetCcr) =
      some (.error "vlapic_get_ccr: invalid ccr") := by rfl
  obtain ⟨s, hs, herror⟩ := Option.map_eq_some_iff.mp hcount
  obtain ⟨c, hc, -⟩ := (h s (System.exec_reachable (.init ⟨0, rfl⟩) hs)).le
  rw [herror] at hc
  cases hc

end Xhyve.Vmm.LapicTimer
