import Xhyve.Vmm.Pit

/-!
# Programming a channel of the 8254 timer

A control word does not start the pair of bytes of a count over, and the interval timer of channel 0 is started before a
count of 0 becomes the largest one. Between the two, the conditions under which a control word and two bytes program a
channel are exact.
-/

namespace Xhyve.Vmm.Pit

open Xhyve.Lib

/-- A control word that announces both bytes of a channel's count, in any mode. -/
structure Word16 (n : Fin 3) (ctl : BitVec 8) : Prop where
  sel : (ctl >>> 6).toNat = n.val
  rw : ctl &&& timerRwMask = timer16bit

def outb (port : Port) (val : BitVec 8) : Op := .io false port 1 (val.setWidth 32)

/-- The guest programs a channel. -/
def program (n : Fin 3) (ctl lo hi : BitVec 8) : List Op := [outb .mode ctl, outb (.cntr n) lo, outb (.cntr n) hi]

def countOf (lo hi : BitVec 8) : BitVec 16 := lo.setWidth 16 ||| hi.setWidth 16 <<< 8

/-- A count of 0 stands for the largest one. -/
def wholeCount (v : BitVec 16) : BitVec 16 := if v = 0 then 0xffff else v

/-- From `s` to `t` the channel has got a count, and channel 0 an interval timer for it. -/
structure Programmed (up : Uptime) (s t : Vatpit) (n : Fin 3) (v : BitVec 16) : Prop where
  initial : (t.channel n).initial = wholeCount v
  timer : n = 0 → s.resets < t.resets ∧ ∃ k, s.ups ≤ k ∧ k < t.ups ∧
    (t.channel 0).callout = ⟨true, true, up.read k + (wholeCount v).toNat * freqSbt⟩

/-! ## Two bytes -/

theorem countOf_toNat (lo hi : BitVec 8) : (countOf lo hi).toNat = lo.toNat + 256 * hi.toNat := by
  have hlo := lo.isLt
  have hhi := hi.isLt
  unfold countOf
  rw [BitVec.toNat_or, BitVec.toNat_shiftLeft, BitVec.toNat_setWidth, BitVec.toNat_setWidth, Nat.mod_eq_of_lt (by omega),
    Nat.mod_eq_of_lt (by omega), Nat.lor_comm, Nat.shiftLeft_eq, Nat.mod_eq_of_lt (by omega), ← Nat.shiftLeft_eq,
    ← Nat.shiftLeft_add_eq_or_of_lt hlo, Nat.shiftLeft_eq]
  omega

theorem countOf_eq_zero_iff (lo hi : BitVec 8) : countOf lo hi = 0 ↔ lo = 0 ∧ hi = 0 := by
  have h := countOf_toNat lo hi
  constructor
  · intro h0
    rw [h0] at h
    constructor <;> bv_omega
  · rintro ⟨rfl, rfl⟩
    rfl

theorem wholeCount_toNat (v : BitVec 16) : (wholeCount v).toNat = if v.toNat = 0 then 65535 else v.toNat := by
  unfold wholeCount
  by_cases h : v = 0
  · rw [if_pos h, h]
    rfl
  · have h0 : v.toNat ≠ 0 := fun h0 => h (BitVec.eq_of_toNat_eq h0)
    rw [if_neg h, if_neg h0]

/-- The byte a count begins with is the one it ends with. -/
theorem wholeCount_shifted (x lo hi : BitVec 8) :
    wholeCount (countOf x lo) = wholeCount (countOf lo hi) ↔ x = lo ∧ lo = hi := by
  have hx := x.isLt
  have hlo := lo.isLt
  have hhi := hi.isLt
  constructor
  · intro h
    have h := congrArg BitVec.toNat h
    rw [wholeCount_toNat, wholeCount_toNat, countOf_toNat, countOf_toNat] at h
    have hbytes : x.toNat = lo.toNat ∧ lo.toNat = hi.toNat := by
      split_ifs at h <;> omega
    exact ⟨BitVec.eq_of_toNat_eq hbytes.1, BitVec.eq_of_toNat_eq hbytes.2⟩
  · rintro ⟨rfl, rfl⟩
    rfl

/-! ## One write -/

section Writes

variable {up : Uptime} {s t : Vatpit} {n : Fin 3} {v w : BitVec 16}

/-- What the second byte of a count does, with both bytes of it. -/
structure Loaded (up : Uptime) (s t : Vatpit) (n : Fin 3) (v : BitVec 16) : Prop where
  initial : (t.channel n).initial = wholeCount v
  crbyte : (t.channel n).crbyte = 0
  idle : v = 0 → t.resets = s.resets
  armed : n = 0 → v ≠ 0 → s.resets < t.resets ∧ ∃ k, s.ups ≤ k ∧ k < t.ups ∧
    (t.channel 0).callout = ⟨true, true, up.read k + v.toNat * freqSbt⟩

/-- A new count is measured from now, or from a moment ago. -/
theorem pitTimerStartCntr0_armed (up : Uptime) (h0 : (s.channel 0).initial ≠ 0) :
    ∃ base, (base = (s.channel 0).calloutSbt ∨ base = up.read s.ups) ∧
      ((pitTimerStartCntr0 up s).channel 0).callout =
        ⟨true, true, base + (s.channel 0).initial.toNat * freqSbt⟩ := by
  have hc : ((pitTimerStartCntr0 up s).channel 0).callout =
      ⟨true, true, (s.channel 0).target (sbinuptime up s)⟩ := by
    rw [pitTimerStartCntr0, if_pos h0]
    exact congrArg Channel.callout (Vatpit.set_self ..)
  rw [hc]
  by_cases hover : (s.channel 0).calloutSbt + (s.channel 0).initial.toNat * freqSbt < sbinuptime up s
  · exact ⟨up.read s.ups, .inr rfl, by rw [Channel.target, if_pos hover]; rfl⟩
  · exact ⟨(s.channel 0).calloutSbt, .inl rfl, by rw [Channel.target, if_neg hover]⟩

theorem pitTimerStartCntr0_counts (up : Uptime) (h0 : (s.channel 0).initial ≠ 0) :
    (pitTimerStartCntr0 up s).ups = s.ups + 1 ∧ (pitTimerStartCntr0 up s).resets = s.resets + 1 := by
  rw [pitTimerStartCntr0, if_pos h0]
  exact ⟨rfl, rfl⟩

theorem pitTimerStartCntr0_initial :
    ((pitTimerStartCntr0 up s).channel 0).initial = (s.channel 0).initial ∧
      ((pitTimerStartCntr0 up s).channel 0).crbyte = (s.channel 0).crbyte := by
  unfold pitTimerStartCntr0
  split
  · simp only [calloutResetSbt, Vatpit.set_self, and_self]
  · exact ⟨rfl, rfl⟩

theorem startCount_loaded (up : Uptime) (s : Vatpit) (n : Fin 3) (c : Channel) :
    ((startCount up s n c).channel n).initial = countOf (c.cr 0) (c.cr 1) ∧
      ((startCount up s n c).channel n).crbyte = 0 := by
  unfold startCount
  dsimp only
  split
  · rename_i hn
    rw [hn, pitTimerStartCntr0_initial.1, pitTimerStartCntr0_initial.2, Vatpit.set_self]
    exact ⟨rfl, rfl⟩
  · rw [Vatpit.set_self]
    exact ⟨rfl, rfl⟩

theorem startCount_resets {c : Channel} (hz : countOf (c.cr 0) (c.cr 1) = 0) :
    (startCount up s n c).resets = s.resets := by
  unfold startCount
  dsimp only
  split
  · rename_i hn
    subst hn
    rw [pitTimerStartCntr0, if_neg]
    · rfl
    · rw [Vatpit.set_self]
      exact not_not.mpr hz
  · rfl

theorem startCount_armed {c : Channel} (hz : countOf (c.cr 0) (c.cr 1) ≠ 0) :
    s.resets < (startCount up s 0 c).resets ∧ ∃ k, s.ups ≤ k ∧ k < (startCount up s 0 c).ups ∧
      ((startCount up s 0 c).channel 0).callout =
        ⟨true, true, up.read k + (countOf (c.cr 0) (c.cr 1)).toNat * freqSbt⟩ := by
  have hs := s.tick.set_self 0 { c.loaded (sbinuptime up s) with calloutSbt := sbinuptime up s }
  have hi := congrArg Channel.initial hs
  have h0 := hi.trans_ne hz
  obtain ⟨hups, hresets⟩ := pitTimerStartCntr0_counts up h0
  obtain ⟨base, hbase, hc⟩ := pitTimerStartCntr0_armed up h0
  rw [hi] at hc
  have hk : ∃ k, s.ups ≤ k ∧ k < s.ups + 2 ∧ base = up.read k := by
    rcases hbase with hb | hb
    · exact ⟨s.ups, le_rfl, Nat.lt_add_of_pos_right Nat.zero_lt_two, hb.trans (congrArg Channel.calloutSbt hs)⟩
    · exact ⟨s.ups + 1, Nat.le_succ _, Nat.lt_succ_self _, hb⟩
  obtain ⟨k, hle, hlt, rfl⟩ := hk
  exact ⟨(Nat.lt_succ_self s.resets).trans_eq hresets.symm, k, hle, hlt.trans_eq hups.symm, hc⟩

theorem load_loaded {c : Channel} : Loaded up s (load up s n c) n (countOf (c.cr 0) (c.cr 1)) := by
  obtain ⟨hi, hb⟩ := startCount_loaded up s n c
  unfold load
  dsimp only
  split
  · rename_i h0
    have hz := hi.symm.trans h0
    refine ⟨?_, ?_, fun _ => startCount_resets hz, fun _ hnz => absurd hz hnz⟩
    · rw [Vatpit.set_self, wholeCount, if_pos hz]
    · rw [Vatpit.set_self]
      exact hb
  · rename_i h0
    have hz : countOf (c.cr 0) (c.cr 1) ≠ 0 := fun hz => h0 (hi.trans hz)
    refine ⟨?_, hb, fun hz' => absurd hz' hz, ?_⟩
    · rw [wholeCount, if_neg hz]
      exact hi
    · rintro rfl -
      exact startCount_armed hz

/-- What a control word leaves to the bytes of a count. -/
structure SameWriting (n : Fin 3) (s t : Vatpit) : Prop where
  cr : (t.channel n).cr = (s.channel n).cr
  crbyte : (t.channel n).crbyte = (s.channel n).crbyte
  ups : t.ups = s.ups
  resets : t.resets = s.resets

theorem timerSelReadback_shift (ctl : BitVec 8) (h : ctl &&& timerSelMask = timerSelReadback) : (ctl >>> 6).toNat = 3 := by
  revert ctl
  decide +kernel

theorem Word16.channelOf {ctl : BitVec 8} (h : Word16 n ctl) : channelOf ctl = n :=
  Fin.ext ((congrArg (· % 3) h.sel).trans (Nat.mod_eq_of_lt n.isLt))

/-- A control word leaves the bytes of a count where they are. -/
theorem Word16.step {ctl : BitVec 8} (h : Word16 n ctl) (up : Uptime) (s : Vatpit) : SameWriting n s (step up s (outb .mode ctl)) := by
  have hsel : ctl &&& timerSelMask ≠ timerSelReadback := fun hr =>
    n.isLt.ne (h.sel.symm.trans (timerSelReadback_shift ctl hr))
  have hval : (ctl.setWidth 32).setWidth 8 = ctl := by simp
  change SameWriting n s (vatpitUpdateMode up s ((ctl.setWidth 32).setWidth 8)).2
  unfold vatpitUpdateMode
  simp only [hval, if_neg hsel, h.rw, h.channelOf]
  split_ifs with h1 h2 h3
  · exact ⟨rfl, rfl, rfl, rfl⟩
  · exact ⟨rfl, rfl, rfl, rfl⟩
  · exact absurd h3 (by decide)
  · constructor
    · rw [Vatpit.set_self]
    · rw [Vatpit.set_self]
    · rfl
    · rfl

/-- The first byte of a count is kept for later. -/
theorem step_first (up : Uptime) (h0 : (s.channel n).crbyte = 0) (val : BitVec 8) :
    step up s (outb (.cntr n) val) =
      s.set n { s.channel n with cr := Function.update (s.channel n).cr 0 val, crbyte := 1 } := by
  have hval : (val.setWidth 32).setWidth 8 = val := by simp
  change writeCntr up s n ((val.setWidth 32).setWidth 8) = _
  simp only [hval, writeCntr, h0]
  rfl

theorem step_second (up : Uptime) (h1 : (s.channel n).crbyte = 1) (val : BitVec 8) :
    Loaded up s (step up s (outb (.cntr n) val)) n (countOf ((s.channel n).cr 0) val) := by
  have hval : (val.setWidth 32).setWidth 8 = val := by simp
  change Loaded up s (writeCntr up s n ((val.setWidth 32).setWidth 8)) n _
  simp only [hval, writeCntr, h1]
  exact load_loaded

end Writes

/-! ## Three writes -/

section Program

variable {up : Uptime} {s t u : Vatpit} {n : Fin 3} {v w : BitVec 16}

theorem Loaded.programmed_iff (h : Loaded up s t n v) :
    Programmed up s t n w ↔ wholeCount v = wholeCount w ∧ (n = 0 → v ≠ 0) := by
  constructor
  · intro hp
    refine ⟨h.initial.symm.trans hp.initial, fun hn hz => ?_⟩
    exact (hp.timer hn).1.ne' (h.idle hz)
  · rintro ⟨hv, hz⟩
    refine ⟨h.initial.trans hv, fun hn => ?_⟩
    obtain ⟨hr, k, hle, hlt, hc⟩ := h.armed hn (hz hn)
    refine ⟨hr, k, hle, hlt, ?_⟩
    rw [hc, ← hv, wholeCount, if_neg (hz hn)]

theorem Loaded.since (h : Loaded up s t n v) (hups : s.ups = u.ups) (hresets : s.resets = u.resets) :
    Loaded up u t n v where
  initial := h.initial
  crbyte := h.crbyte
  idle hz := (h.idle hz).trans hresets
  armed hn hz := by
    rw [← hups, ← hresets]
    exact h.armed hn hz

/-- A byte more changes nothing about the count that is loaded. -/
theorem Loaded.until (h : Loaded up s t n v) (val : BitVec 8) :
    (Programmed up s (step up t (outb (.cntr n) val)) n w ↔ Programmed up s t n w) := by
  have hch : ∀ m, ((step up t (outb (.cntr n) val)).channel m).initial = (t.channel m).initial ∧
      ((step up t (outb (.cntr n) val)).channel m).callout = (t.channel m).callout := by
    intro m
    rw [step_first up h.crbyte]
    by_cases hm : m = n
    · rw [hm, Vatpit.set_self]
      exact ⟨rfl, rfl⟩
    · rw [Vatpit.set_ne _ _ hm]
      exact ⟨rfl, rfl⟩
  have hups : (step up t (outb (.cntr n) val)).ups = t.ups := by
    rw [step_first up h.crbyte]
    rfl
  have hresets : (step up t (outb (.cntr n) val)).resets = t.resets := by
    rw [step_first up h.crbyte]
    rfl
  constructor
  · rintro ⟨hi, ht⟩
    rw [hups, hresets, (hch 0).2] at ht
    exact ⟨(hch n).1.symm.trans hi, ht⟩
  · rintro ⟨hi, ht⟩
    rw [← hups, ← hresets, ← (hch 0).2] at ht
    exact ⟨(hch n).1.trans hi, ht⟩

/-- Programming a channel works out when no byte was left over from before, or all three are the same, and
on channel 0 the count is not 0. -/
theorem program_iff (h : (system up).Reachable s) {ctl : BitVec 8} (hctl : Word16 n ctl) (lo hi : BitVec 8) :
    Programmed up s ((program n ctl lo hi).foldl (step up) s) n (countOf lo hi) ↔
      ((s.channel n).crbyte = 0 ∨ ((s.channel n).cr 0 = lo ∧ lo = hi)) ∧ (n = 0 → lo ≠ 0 ∨ hi ≠ 0) := by
  have hz : countOf lo hi ≠ 0 ↔ lo ≠ 0 ∨ hi ≠ 0 := by
    rw [Ne, countOf_eq_zero_iff, not_and_or]
  have hword := hctl.step up s
  change Programmed up s (step up (step up (step up s (outb .mode ctl)) (outb (.cntr n) lo)) (outb (.cntr n) hi)) n _ ↔ _
  generalize step up s (outb .mode ctl) = a at hword ⊢
  have hlt := (inv_reachable h n).crbyte
  by_cases h0 : (s.channel n).crbyte = 0
  · have hfirst := step_first up (hword.crbyte.trans h0) lo
    have hself : ((step up a (outb (.cntr n) lo)).channel n) =
        { a.channel n with cr := Function.update (a.channel n).cr 0 lo, crbyte := 1 } := by
      rw [hfirst, Vatpit.set_self]
    have hload := step_second up (congrArg Channel.crbyte hself) hi
    rw [hself] at hload
    have hload := hload.since (u := s) (by rw [hfirst]; exact hword.ups) (by rw [hfirst]; exact hword.resets)
    rw [hload.programmed_iff, ← hz]
    simp [h0]
  · have h1 : (s.channel n).crbyte = 1 := by omega
    have hload := (step_second up (hword.crbyte.trans h1) lo).since hword.ups hword.resets
    rw [hload.until, hload.programmed_iff, hword.cr, wholeCount_shifted]
    constructor
    · rintro ⟨⟨rfl, rfl⟩, hne⟩
      exact ⟨.inr ⟨rfl, rfl⟩, fun hn => hz.mp (hne hn)⟩
    · rintro ⟨h01 | ⟨rfl, rfl⟩, hne⟩
      · exact absurd h01 h0
      · exact ⟨⟨rfl, rfl⟩, fun hn => hz.mpr (hne hn)⟩

end Program

/-! ## Two ways it does not -/

/-- An uptime that stands still. -/
def noTime : Uptime := ⟨fun _ => 0, monotone_const, le_rfl⟩

/-- One byte left over on channel 2 shifts the count; a count of 0 does not start the timer of channel 0. -/
theorem program_fails :
    ((system noTime).Reachable (step noTime vatpitInit (outb (.cntr 2) 0x12)) ∧ Word16 2 0xb6 ∧
      ¬ Programmed noTime (step noTime vatpitInit (outb (.cntr 2) 0x12))
        ((program 2 0xb6 0x34 0x12).foldl (step noTime) (step noTime vatpitInit (outb (.cntr 2) 0x12))) 2
        (countOf 0x34 0x12)) ∧
      (system noTime).Reachable vatpitInit ∧ Word16 0 0x34 ∧
      ¬ Programmed noTime vatpitInit ((program 0 0x34 0 0).foldl (step noTime) vatpitInit) 0 (countOf 0 0) := by
  refine ⟨⟨.step (.init rfl) rfl, ⟨by decide, by decide⟩, ?_⟩, .init rfl, ⟨by decide, by decide⟩, ?_⟩
  · intro h
    exact absurd h.initial (by decide)
  · intro h
    exact absurd (h.timer rfl).1 (by decide)

theorem program_hundred_hertz :
    Programmed noTime vatpitInit ((program 0 0x34 0x9c 0x2e).foldl (step noTime) vatpitInit) 0 (countOf 0x9c 0x2e) :=
  (program_iff (.init rfl) ⟨by decide, by decide⟩ 0x9c 0x2e).mpr ⟨.inl rfl, fun _ => .inl (by decide)⟩

end Xhyve.Vmm.Pit
