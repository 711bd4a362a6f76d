import Xhyve.Vmm.RtcTime

/-!
# The turns of `vrtc_time_update`

The loop ends when the time equals the new one. With the alarm interrupt enabled it goes on by a second in each turn, so that
a new time behind the old one is not reached within their distance. A turn compares the alarm with the host's clock, not with
the second it has come to.
-/

namespace Xhyve.Vmm.Rtc

open Xhyve.Lib

/-- The alarm matches a date and time. -/
def hit (f : Format) (alarm : BitVec 8 × BitVec 8 × BitVec 8) (ct : Clocktime) : Bool :=
  (0xC0 ≤ alarm.1.toNat || alarm.1 = rtcset f ct.sec) &&
    (0xC0 ≤ alarm.2.1.toNat || alarm.2.1 = rtcset f ct.min) &&
    (0xC0 ≤ alarm.2.2.toNat || alarm.2.2 = hourset f ct.hour)

def alarmBytes (s : Vrtc) : BitVec 8 × BitVec 8 × BitVec 8 := (s.ram 1, s.ram 3, s.ram 5)

def alarmFlag (s : Vrtc) : Bool := set s.regC rtcirAlarm

section Turns

variable (clk : Clocks) (alarm : BitVec 8 × BitVec 8 × BitVec 8) (oldtime : Option Nat) (newtime : Nat)

/-- The state after so many turns. -/
def turns (n : Nat) (s : Vrtc) : Vrtc := (updateTurn clk alarm oldtime newtime)^[n] s

/-- The loop ends with turn `n`. -/
structure EndsAfter (s : Vrtc) (n : Nat) : Prop where
  pos : 0 < n
  last : (turns clk alarm oldtime newtime n s).baseRtctime = some newtime
  before : ∀ k, 0 < k → k < n → (turns clk alarm oldtime newtime k s).baseRtctime ≠ some newtime

end Turns

/-- The seconds from the old time to the new one, and one for the turn that is always made. -/
def distance (oldtime : Option Nat) (newtime : Nat) : Nat :=
  match oldtime with
  | none => 1
  | some old => max 1 (newtime - old)

/-- A call ends within the distance, and a second it passes that matches the alarm sets the flag. -/
structure Updates (clk : Clocks) (s : Vrtc) (newtime : Option Nat) (newbase : Int) : Prop where
  ends : ∀ new, newtime = some new → s.baseRtctime ≠ some new → rtcHalted s = false →
    ∃ n ≤ distance s.baseRtctime new,
      EndsAfter clk (alarmBytes s) s.baseRtctime new { s with baseUptime := newbase } n
  alarm : ∀ t, vrtcTimeUpdate clk s newtime newbase = some (t, 0) →
    ∀ old new sec, s.baseRtctime = some old → newtime = some new → old < sec → sec ≤ new →
      hit (format s.regB) (alarmBytes s) (clockTsToCt sec) = true → alarmFlag t = true

/-- With the alarm interrupt enabled the new time is not behind; and where a second in between matches the alarm, the flag is
set already, or the interrupt is enabled and the host's clock matches it at one of the readings. -/
def Covered (clk : Clocks) (s : Vrtc) (newtime : Option Nat) : Prop :=
  ∀ old new, s.baseRtctime = some old → newtime = some new → old ≠ new → rtcHalted s = false →
    (aintrEnabled s = true → old < new) ∧
    ((∃ sec, old < sec ∧ sec ≤ new ∧ hit (format s.regB) (alarmBytes s) (clockTsToCt sec) = true) →
      alarmFlag s = true ∨ aintrEnabled s = true ∧
        ∃ i < new - old, hit (format s.regB) (alarmBytes s) (clockTsToCt (clk.host (s.hosts + i))) = true)

section Loop

variable {clk : Clocks} {alarm : BitVec 8 × BitVec 8 × BitVec 8} {oldtime : Option Nat} {newtime : Nat} {s : Vrtc}

theorem turns_succ (n : Nat) (s : Vrtc) :
    turns clk alarm oldtime newtime (n + 1) s = turns clk alarm oldtime newtime n (updateTurn clk alarm oldtime newtime s) :=
  Function.iterate_succ_apply ..

@[simp] theorem turns_zero (s : Vrtc) : turns clk alarm oldtime newtime 0 s = s := rfl

theorem turns_succ' (n : Nat) (s : Vrtc) :
    turns clk alarm oldtime newtime (n + 1) s = updateTurn clk alarm oldtime newtime (turns clk alarm oldtime newtime n s) :=
  Function.iterate_succ_apply' ..

/-- The loop of the code, run for enough turns, is left in the state after the last. -/
theorem updateLoop_of_ends {n fuel : Nat} (h : EndsAfter clk alarm oldtime newtime s n) (hf : n ≤ fuel) :
    updateLoop clk alarm oldtime newtime fuel s = some (turns clk alarm oldtime newtime n s) := by
  induction fuel generalizing n s with
  | zero =>
    have := h.pos
    omega
  | succ fuel ih =>
    obtain ⟨m, rfl⟩ := Nat.exists_eq_add_of_lt h.pos
    rw [Nat.zero_add] at h hf ⊢
    rw [updateLoop]
    cases m with
    | zero =>
      have hlast := h.last
      rw [turns_succ, turns_zero] at hlast ⊢
      rw [if_pos hlast]
    | succ m =>
      have hfirst := h.before 1 (by omega) (by omega)
      rw [turns_succ, turns_zero] at hfirst
      have hrest : EndsAfter clk alarm oldtime newtime (updateTurn clk alarm oldtime newtime s) (m + 1) := by
        refine ⟨by omega, ?_, fun k hk hkm => ?_⟩
        · rw [← turns_succ]
          exact h.last
        · rw [← turns_succ]
          exact h.before (k + 1) (by omega) (by omega)
      rw [if_neg hfirst, turns_succ]
      exact ih hrest (by omega)

/-- A turn leaves the registers alone. -/
theorem turns_frame (clk : Clocks) (alarm : BitVec 8 × BitVec 8 × BitVec 8) (oldtime : Option Nat) (newtime n : Nat) (s : Vrtc) :
    Frame s (turns clk alarm oldtime newtime n s) := by
  induction n with
  | zero => exact Frame.refl s
  | succ n ih =>
    rw [turns_succ']
    exact ih.trans (updateTurn_spec clk alarm oldtime newtime _).1

theorem aintrEnabled_of_frame {s t : Vrtc} (h : Frame s t) : aintrEnabled t = aintrEnabled s := by
  unfold aintrEnabled
  rw [h.regB]

theorem rtcHalted_of_frame {s t : Vrtc} (h : Frame s t) : rtcHalted t = rtcHalted s := by
  unfold rtcHalted
  rw [h.regB]

/-- With the alarm interrupt enabled each turn is a second. -/
theorem turns_time {b : Nat} (ha : aintrEnabled s = true) (hold : oldtime.isSome = true) (hb : s.baseRtctime = some b) (n : Nat) :
    (turns clk alarm oldtime newtime n s).baseRtctime = some (b + n) := by
  induction n with
  | zero => exact hb
  | succ n ih =>
    obtain ⟨-, -, htime⟩ := updateTurn_spec clk alarm oldtime newtime (turns clk alarm oldtime newtime n s)
    rw [turns_succ', htime, aintrEnabled_of_frame (turns_frame ..), ha, hold, Bool.and_self, if_pos rfl, ih]
    rfl

theorem ends_forward {b : Nat} (ha : aintrEnabled s = true) (hold : oldtime.isSome = true) (hb : s.baseRtctime = some b)
    (hlt : b < newtime) : EndsAfter clk alarm oldtime newtime s (newtime - b) where
  pos := by omega
  last := by
    rw [turns_time ha hold hb]
    exact congrArg some (by omega)
  before k _ hk := by
    rw [turns_time ha hold hb]
    intro heq
    have := Option.some.inj heq
    omega

/-- Without it, and from a broken time, one turn is the jump. -/
theorem ends_jump (h : (aintrEnabled s && oldtime.isSome) = false) : EndsAfter clk alarm oldtime newtime s 1 where
  pos := by omega
  last := by
    obtain ⟨-, -, htime⟩ := updateTurn_spec clk alarm oldtime newtime s
    rw [turns_succ, turns_zero, htime, h, if_neg Bool.false_ne_true]
  before k hk hk1 := by omega

/-- The first turn towards a time that is behind goes the other way. -/
theorem not_ends_backward {b n : Nat} (ha : aintrEnabled s = true) (hold : oldtime.isSome = true) (hb : s.baseRtctime = some b)
    (hle : newtime ≤ b) : ¬ EndsAfter clk alarm oldtime newtime s n := by
  intro h
  have hlast := h.last
  rw [turns_time ha hold hb] at hlast
  have := Option.some.inj hlast
  have := h.pos
  omega

/-! ## The alarm flag -/

theorem alarmFlag_setRegC_alarm (s : Vrtc) : alarmFlag (vrtcSetRegC s (s.regC ||| rtcirAlarm)) = true := by
  have hbits : ∀ (c : BitVec 8) (irq : Bool),
      set ((if irq then rtcirInt else 0) ||| ((c ||| rtcirAlarm) &&& (rtcirAlarm ||| rtcirPeriod ||| rtcirUpdate))) rtcirAlarm =
        true := by decide
  exact hbits s.regC _

theorem alarmFlag_setRegC_update (s : Vrtc) : alarmFlag (vrtcSetRegC s (s.regC ||| rtcirUpdate)) = alarmFlag s := by
  have hbits : ∀ (c : BitVec 8) (irq : Bool),
      set ((if irq then rtcirInt else 0) ||| ((c ||| rtcirUpdate) &&& (rtcirAlarm ||| rtcirPeriod ||| rtcirUpdate))) rtcirAlarm =
        set c rtcirAlarm := by decide
  exact hbits s.regC _

/-- A turn of a clock that is not halted, with the alarm interrupt enabled, reads the host's clock once and compares with it. -/
theorem alarmFlag_turn {b : Nat} (ha : aintrEnabled s = true) (hold : oldtime.isSome = true) (hb : s.baseRtctime = some b)
    (hh : rtcHalted s = false) :
    (updateTurn clk alarm oldtime newtime s).hosts = s.hosts + 1 ∧
      alarmFlag (updateTurn clk alarm oldtime newtime s) =
        (alarmFlag s || hit (format s.regB) alarm (clockTsToCt (clk.host s.hosts))) := by
  have hput : ∀ u : Vrtc, aintrEnabled u = true → rtcHalted u = false → u.baseRtctime.isSome = true →
      (alarmCheck clk alarm u).hosts = u.hosts + 1 ∧
        alarmFlag (alarmCheck clk alarm u) = (alarmFlag u || hit (format u.regB) alarm (clockTsToCt (clk.host u.hosts))) := by
    intro u hua huh hub
    obtain ⟨v, hv⟩ := Option.isSome_iff_exists.mp hub
    have hfields : secsToRtc clk u.baseRtctime u false = { u with
        ram := putClocktime (format u.regB) u.ram (clockTsToCt (clk.host u.hosts)), hosts := u.hosts + 1 } := by
      rw [hv]
      simp [secsToRtc, huh, ← hv]
    have hmatch : alarmMatches alarm { u with
        ram := putClocktime (format u.regB) u.ram (clockTsToCt (clk.host u.hosts)), hosts := u.hosts + 1 } =
          hit (format u.regB) alarm (clockTsToCt (clk.host u.hosts)) := rfl
    unfold alarmCheck
    rw [if_pos hua, hfields]
    dsimp only
    rw [hmatch]
    by_cases hhit : hit (format u.regB) alarm (clockTsToCt (clk.host u.hosts)) = true
    · rw [if_pos hhit, hhit, Bool.or_true]
      exact ⟨rfl, alarmFlag_setRegC_alarm _⟩
    · rw [if_neg hhit, Bool.not_eq_true _ |>.mp hhit, Bool.or_false]
      exact ⟨rfl, rfl⟩
  have htime : ((if aintrEnabled s && oldtime.isSome then s.baseRtctime.map (· + 1) else some newtime : Option Nat)).isSome =
      true := by
    rw [ha, hold, hb]
    rfl
  exact hput { s with
    baseRtctime := if aintrEnabled s && oldtime.isSome then s.baseRtctime.map (· + 1) else some newtime } ha hh htime

/-- The flag after some turns: it was set, or the host's clock matched at one of the readings. -/
theorem alarmFlag_turns {b : Nat} (ha : aintrEnabled s = true) (hold : oldtime.isSome = true) (hb : s.baseRtctime = some b)
    (hh : rtcHalted s = false) (n : Nat) :
    (turns clk alarm oldtime newtime n s).hosts = s.hosts + n ∧
      (alarmFlag (turns clk alarm oldtime newtime n s) = true ↔ alarmFlag s = true ∨
        ∃ i < n, hit (format s.regB) alarm (clockTsToCt (clk.host (s.hosts + i))) = true) := by
  induction n with
  | zero => simp [turns]
  | succ n ih =>
    obtain ⟨hhosts, hflag⟩ := ih
    have hframe := turns_frame clk alarm oldtime newtime n s
    obtain ⟨hhosts', hflag'⟩ := @alarmFlag_turn clk alarm _ newtime _ _
      ((aintrEnabled_of_frame hframe).trans ha) hold (turns_time ha hold hb n) ((rtcHalted_of_frame hframe).trans hh)
    rw [turns_succ', hhosts', hflag', hhosts, hframe.regB, Bool.or_eq_true, hflag]
    refine ⟨rfl, ?_⟩
    constructor
    · rintro ((hset | ⟨i, hi, hhit⟩) | hhit)
      · exact .inl hset
      · exact .inr ⟨i, by omega, hhit⟩
      · exact .inr ⟨n, by omega, hhit⟩
    · rintro (hset | ⟨i, hi, hhit⟩)
      · exact .inl (.inl hset)
      · rcases Nat.lt_succ_iff_lt_or_eq.mp hi with hlt | rfl
        · exact .inl (.inr ⟨i, hlt, hhit⟩)
        · exact .inr hhit

/-- Without the alarm interrupt nothing is compared. -/
theorem alarmFlag_jump (ha : aintrEnabled s = false) :
    alarmFlag (updateTurn clk alarm oldtime newtime s) = alarmFlag s := by
  have hoff : ∀ b : Option Nat, aintrEnabled { s with baseRtctime := b } = false := fun _ => ha
  unfold updateTurn alarmCheck
  rw [if_neg (by rw [hoff]; exact Bool.false_ne_true)]
  rfl

end Loop

/-! ## A call -/

section Call

variable {clk : Clocks} {s : Vrtc} {new n : Nat} {newbase : Int}

/-- What a call that comes to its loop leaves behind. -/
theorem vrtcTimeUpdate_of_ends (hne : s.baseRtctime ≠ some new) (hh : rtcHalted s = false)
    (h : EndsAfter clk (alarmBytes s) s.baseRtctime new { s with baseUptime := newbase } n) (hn : n ≤ new + 1) :
    ∃ t, vrtcTimeUpdate clk s (some new) newbase = some (t, 0) ∧
      alarmFlag t = alarmFlag (turns clk (alarmBytes s) s.baseRtctime new n { s with baseUptime := newbase }) := by
  have hloop : updateLoop clk (s.ram 1, s.ram 3, s.ram 5) s.baseRtctime new (new + 1) { s with baseUptime := newbase } = _ :=
    updateLoop_of_ends h hn
  have hhalted : rtcHalted { s with baseUptime := newbase } = false := hh
  unfold vrtcTimeUpdate
  dsimp only
  rw [if_neg fun heq => hne heq.symm, hhalted, if_neg Bool.false_ne_true, hloop]
  dsimp only
  split
  · exact ⟨_, rfl, alarmFlag_setRegC_update _⟩
  · exact ⟨_, rfl, rfl⟩

theorem ends_of_covered (hcov : Covered clk s (some new)) (hne : s.baseRtctime ≠ some new) (hh : rtcHalted s = false) :
    ∃ n ≤ distance s.baseRtctime new, n ≤ new + 1 ∧
      EndsAfter clk (alarmBytes s) s.baseRtctime new { s with baseUptime := newbase } n := by
  rcases Option.eq_none_or_eq_some s.baseRtctime with hold | ⟨old, hold⟩
  · refine ⟨1, by rw [hold]; exact le_refl 1, by omega, ends_jump ?_⟩
    rw [hold, Option.isSome_none, Bool.and_false]
  · have hdist : distance s.baseRtctime new = max 1 (new - old) := by rw [hold]; rfl
    cases ha : aintrEnabled s with
    | false =>
      have hoff : aintrEnabled { s with baseUptime := newbase } = false := ha
      exact ⟨1, by omega, by omega, ends_jump (by rw [hoff, Bool.false_and])⟩
    | true =>
      have hlt : old < new := (hcov old new hold rfl (fun heq => hne (heq ▸ hold)) hh).1 ha
      exact ⟨new - old, by omega, by omega, ends_forward ha (Option.isSome_iff_exists.mpr ⟨old, hold⟩) hold hlt⟩

/-- A call that passes seconds, and the flag it leaves. -/
theorem alarmFlag_update {old : Nat} (hold : s.baseRtctime = some old) (hlt : old < new) (hh : rtcHalted s = false) :
    ∃ t, vrtcTimeUpdate clk s (some new) newbase = some (t, 0) ∧
      (alarmFlag t = true ↔ alarmFlag s = true ∨ aintrEnabled s = true ∧
        ∃ i < new - old, hit (format s.regB) (alarmBytes s) (clockTsToCt (clk.host (s.hosts + i))) = true) := by
  have hne : s.baseRtctime ≠ some new := by
    rw [hold]
    intro heq
    have := Option.some.inj heq
    omega
  cases ha : aintrEnabled s with
  | true =>
    have hends : EndsAfter clk (alarmBytes s) s.baseRtctime new { s with baseUptime := newbase } (new - old) :=
      ends_forward ha (by rw [hold]; rfl) hold hlt
    obtain ⟨t, ht, hflag⟩ := vrtcTimeUpdate_of_ends hne hh hends (by omega)
    obtain ⟨-, hturns⟩ := @alarmFlag_turns clk (alarmBytes s) s.baseRtctime new { s with baseUptime := newbase } _ ha (by rw [hold]; rfl) hold hh (new - old)
    refine ⟨t, ht, ?_⟩
    rw [hflag, hturns]
    simp only [true_and]
    rfl
  | false =>
    have hoff : aintrEnabled { s with baseUptime := newbase } = false := ha
    have hends : EndsAfter clk (alarmBytes s) s.baseRtctime new { s with baseUptime := newbase } 1 :=
      ends_jump (by rw [hoff, Bool.false_and])
    obtain ⟨t, ht, hflag⟩ := vrtcTimeUpdate_of_ends hne hh hends (by omega)
    refine ⟨t, ht, ?_⟩
    rw [hflag, turns_succ, turns_zero, alarmFlag_jump hoff]
    simp only [Bool.false_eq_true, false_and, or_false]
    rfl

end Call

/-- For any times and registers, and any readings of the host's clock, a call of `vrtc_time_update` ends within the distance
from the old time to the new one, and sets the alarm flag for each second in between that matches, exactly if the new time is
not behind an old one with the alarm interrupt enabled, and for a matching second in between the flag is set already, or the
interrupt is enabled and the host's clock matches the alarm at one of the readings the loop takes. -/
theorem time_update_ends_iff (clk : Clocks) (s : Vrtc) (newtime : Option Nat) (newbase : Int) :
    Updates clk s newtime newbase ↔ Covered clk s newtime := by
  constructor
  · rintro hup old new hold rfl hne hh
    have hne' : s.baseRtctime ≠ some new := by
      rw [hold]
      exact fun heq => hne (Option.some.inj heq)
    constructor
    · intro ha
      by_contra hle
      obtain ⟨n, -, hends⟩ := hup.ends new rfl hne' hh
      exact not_ends_backward (s := { s with baseUptime := newbase }) ha (Option.isSome_iff_exists.mpr ⟨old, hold⟩) hold
        (Nat.le_of_not_lt hle) hends
    · rintro ⟨sec, hlo, hhi, hhit⟩
      obtain ⟨t, ht, hflag⟩ := @alarmFlag_update clk s new newbase old hold (by omega) hh
      exact hflag.mp (hup.alarm t ht old new sec hold rfl hlo hhi hhit)
  · intro hcov
    constructor
    · rintro new rfl hne hh
      obtain ⟨n, hn, -, hends⟩ := @ends_of_covered clk s new newbase hcov hne hh
      exact ⟨n, hn, hends⟩
    · rintro t ht old new sec hold rfl hlo hhi hhit
      have hh : rtcHalted s = false := by
        by_contra hhalted
        have hebusy : vrtcTimeUpdate clk s (some new) newbase = some ({ s with baseUptime := newbase }, ebusy) := by
          have hhalted' : rtcHalted { s with baseUptime := newbase } = true := Bool.not_eq_false _ |>.mp hhalted
          have hne : some new ≠ s.baseRtctime := by
            rw [hold]
            intro heq
            have := Option.some.inj heq
            omega
          unfold vrtcTimeUpdate
          dsimp only
          rw [if_neg hne, if_pos hhalted']
        rw [hebusy] at ht
        cases ht
      obtain ⟨u, hu, hflag⟩ := @alarmFlag_update clk s new newbase old hold (by omega) hh
      obtain ⟨rfl, -⟩ := Prod.mk.inj (Option.some.inj (hu.symm.trans ht))
      exact hflag.mpr ((hcov old new hold rfl (by omega) hh).2 ⟨sec, hlo, hhi, hhit⟩)

/-- The guest sets the second of January, enables the alarm interrupt and selects the century byte. -/
def alarmedClock : List Op := setClock ++ [.write 0x22, .addr 0x32]

/-- Writing the century byte then, where the host's clock shows the first of January, puts the time back: the loop does not
end within any number of turns, and the write does not return. -/
theorem century_written_back : ∃ s, (system stillClocks).Reachable s ∧ s.baseRtctime = some 86400 ∧
    aintrEnabled s = true ∧ next stillClocks s (.write 0x19) = none ∧ ¬ Updates stillClocks s (some 0) 0 ∧
    ∀ n, ¬ EndsAfter stillClocks (alarmBytes s) s.baseRtctime 0 { s with baseUptime := 0 } n := by
  have hrun : (System.exec (next stillClocks) (vrtcInit stillClocks) alarmedClock).map (fun s =>
      (s.baseRtctime, aintrEnabled s, rtcHalted s, (next stillClocks s (.write 0x19)).isNone)) =
        some (some 86400, true, false, true) := by decide +kernel
  obtain ⟨s, hs, heq⟩ := Option.map_eq_some_iff.mp hrun
  obtain ⟨hb, heq⟩ := Prod.mk.inj heq
  obtain ⟨ha, heq⟩ := Prod.mk.inj heq
  obtain ⟨hh, hnone⟩ := Prod.mk.inj heq
  have hnext : next stillClocks s (.write 0x19) = none := Option.isNone_iff_eq_none.mp hnone
  have hold : s.baseRtctime.isSome = true := by
    rw [hb]
    rfl
  have hnever : ∀ n, ¬ EndsAfter stillClocks (alarmBytes s) s.baseRtctime 0 { s with baseUptime := 0 } n := fun _ =>
    not_ends_backward (s := { s with baseUptime := 0 }) ha hold hb (Nat.zero_le _)
  refine ⟨s, System.exec_reachable (.init rfl) hs, hb, ha, hnext, fun hup => ?_, hnever⟩
  obtain ⟨n, -, hends⟩ := hup.ends 0 rfl (by rw [hb]; decide) hh
  exact hnever n hends

end Xhyve.Vmm.Rtc
