import Xhyve.Vmm.RtcCallout

/-!
# The RTC's interrupt flag

`vrtc_set_reg_c` alone computes IRQF and pulses the line. Register B changes beside it: where the halt bit
takes the update interrupt with it, and where a write is refused half way, the flag is left as it was.
-/

namespace Xhyve.Vmm.Rtc

open Xhyve.Lib

/-- What the last look at the flags found. -/
def level : List Sample → Bool
  | [] => false
  | x :: _ => x.raised

/-- The line was pulsed at the looks that found the condition where the one before had not. -/
def PulsedAtRises : List Sample → Prop
  | [] => True
  | x :: xs => x.pulsed = (x.raised && !level xs) ∧ PulsedAtRises xs

structure InterruptOk (s : Vrtc) : Prop where
  /-- IRQF is set just while a flag is set together with its enable bit. -/
  irqf : set s.regC rtcirInt = raised s.regB s.regC
  /-- The condition has not changed since the last look. -/
  seen : level s.samples = raised s.regB s.regC
  pulsed : PulsedAtRises s.samples

/-- A write to register B after which IRQF is still right: it does not set the halt bit with the enable
bits as they are where the update interrupt alone holds the flag, and it does not end a halt with fields
that are no time where the new enable bits would change the flag. -/
structure IrqfKept (s : Vrtc) (v : BitVec 8) : Prop where
  halting : rtcHalted s = false → set v rtcsbHalt = true → set (s.regB ^^^ v) rtcsbAllIntrs = false →
    raised (v &&& ~~~rtcsbUintr) s.regC = raised v s.regC
  refused : rtcHalted s = true → set v rtcsbHalt = false → rtcToSecs (format v) s.ram = none →
    raised v s.regC = raised s.regB s.regC

/-- A write that keeps IRQF right, of the state `vrtc_data_handler` has brought up to date. -/
def FlagsKept (v : BitVec 8) : Option Vrtc → Prop
  | some u => u.addr = rtcStatusb → IrqfKept u v
  | none => True

def FlagsCareful (clk : Clocks) (s : Vrtc) : Op → Prop
  | .write v => FlagsKept v (dataPrologue clk s)
  | _ => True

/-! ## Looks at the flags -/

/-- IRQF is what the last look found, and the pulses were right. -/
structure Sampled (s : Vrtc) : Prop where
  irqf : set s.regC rtcirInt = level s.samples
  pulsed : PulsedAtRises s.samples

def Current (s : Vrtc) : Prop := set s.regC rtcirInt = raised s.regB s.regC

theorem interruptOk_iff (s : Vrtc) : InterruptOk s ↔ Sampled s ∧ Current s := by
  constructor
  · intro h
    exact ⟨⟨h.irqf.trans h.seen.symm, h.pulsed⟩, h.irqf⟩
  · rintro ⟨⟨hi, hp⟩, hc⟩
    exact ⟨hc, hi.symm.trans hc, hp⟩

/-- The flag is as right after as it was before. -/
structure Irq (s t : Vrtc) : Prop where
  sampled : Sampled s → Sampled t
  current : Current s → Current t

theorem Irq.trans {s t u : Vrtc} (h : Irq s t) (h' : Irq t u) : Irq s u :=
  ⟨fun hs => h'.sampled (h.sampled hs), fun hs => h'.current (h.current hs)⟩

theorem irq_of_eq {s t : Vrtc} (hB : t.regB = s.regB) (hC : t.regC = s.regC)
    (hs : t.samples = s.samples) : Irq s t := by
  constructor
  · rintro ⟨hi, hp⟩
    exact ⟨by rw [hC, hs]; exact hi, by rw [hs]; exact hp⟩
  · intro h
    rw [Current, hB, hC]
    exact h

theorem kassert_eq (s : Vrtc) (b : Bool) (msg : String) :
    (kassert s b msg).regB = s.regB ∧ (kassert s b msg).regC = s.regC ∧
      (kassert s b msg).samples = s.samples := by
  cases b <;> exact ⟨rfl, rfl, rfl⟩

theorem irq_kassert (s : Vrtc) (b : Bool) (msg : String) : Irq s (kassert s b msg) := by
  obtain ⟨hB, hC, hs⟩ := kassert_eq s b msg
  exact irq_of_eq hB hC hs

theorem set_int (x : BitVec 8) : set x rtcirInt = x.getLsbD 7 := set_halt x

/-- The bits of register C after a look. -/
theorem getLsbD_regC (b : Bool) (v : BitVec 8) {k : Nat} (hk : k < 8) :
    ((if b then rtcirInt else 0) ||| v &&& (rtcirAlarm ||| rtcirPeriod ||| rtcirUpdate)).getLsbD k =
      if k = 7 then b else v.getLsbD k && decide (4 ≤ k) := by
  rw [BitVec.getLsbD_or, BitVec.getLsbD_and]
  cases b <;> interval_cases k <;> simp [rtcirInt, rtcirAlarm, rtcirPeriod, rtcirUpdate]

theorem raised_eq (x y : BitVec 8) :
    raised x y = ((x.getLsbD 5 && y.getLsbD 5) || (x.getLsbD 6 && y.getLsbD 6) ||
      (x.getLsbD 4 && y.getLsbD 4)) := by
  have h5 : set y rtcirAlarm = y.getLsbD 5 := set_aintr y
  have h6 : set y rtcirPeriod = y.getLsbD 6 := set_pintr y
  have h4 : set y rtcirUpdate = y.getLsbD 4 := set_uintr y
  rw [raised, set_aintr, set_pintr, set_uintr, h5, h6, h4]

/-- After a look IRQF says what it found, whatever it said before. -/
theorem setRegC_current (s : Vrtc) (v : BitVec 8) : Current (vrtcSetRegC s v) := by
  simp only [Current, vrtcSetRegC, set_int, raised_eq]
  rw [getLsbD_regC _ v (by decide), getLsbD_regC _ v (by decide), getLsbD_regC _ v (by decide),
    getLsbD_regC _ v (by decide)]
  simp [rtcirAlarm, rtcirPeriod, rtcirUpdate]

theorem setRegC_sampled {s : Vrtc} (h : Sampled s) (v : BitVec 8) : Sampled (vrtcSetRegC s v) := by
  refine ⟨?_, ?_, h.pulsed⟩
  · simp only [vrtcSetRegC, set_int]
    rw [getLsbD_regC _ v (by decide)]
    rfl
  · simp only [vrtcSetRegC, h.irqf]
    rw [Bool.and_comm]

theorem irq_setRegC (s : Vrtc) (v : BitVec 8) : Irq s (vrtcSetRegC s v) :=
  ⟨fun h => setRegC_sampled h v, fun _ => setRegC_current s v⟩

/-! ## The time's updates -/

section Steps

variable {clk : Clocks} {s t : Vrtc}

theorem irq_secsToRtc (clk : Clocks) (r : Option Nat) (s : Vrtc) (force : Bool) :
    Irq s (secsToRtc clk r s force) := by
  obtain ⟨hf, -, -, hC, hs⟩ := secsToRtc_spec clk r s force
  exact irq_of_eq hf.regB hC hs

theorem irq_alarmCheck (clk : Clocks) (alarm : BitVec 8 × BitVec 8 × BitVec 8) (s : Vrtc) :
    Irq s (alarmCheck clk alarm s) := by
  unfold alarmCheck
  dsimp only
  split_ifs
  · exact (irq_secsToRtc clk _ s false).trans (irq_setRegC ..)
  · exact irq_secsToRtc clk _ s false
  · exact irq_of_eq rfl rfl rfl

theorem irq_updateLoop {alarm : BitVec 8 × BitVec 8 × BitVec 8} {oldtime : Option Nat}
    {newtime : Nat} : ∀ {n : Nat} {s t : Vrtc},
      updateLoop clk alarm oldtime newtime n s = some t → Irq s t := by
  intro n
  induction n with
  | zero =>
    intro s t h
    cases h
  | succ n ih =>
    intro s t h
    have hturn : Irq s (updateTurn clk alarm oldtime newtime s) := by
      have hcheck := irq_alarmCheck clk alarm { s with
        baseRtctime :=
          if aintrEnabled s && oldtime.isSome then s.baseRtctime.map (· + 1) else some newtime }
      exact ⟨fun hs => hcheck.sampled ⟨hs.irqf, hs.pulsed⟩, fun hc => hcheck.current hc⟩
    rw [updateLoop] at h
    split_ifs at h with hend
    · obtain rfl := Option.some.inj h
      exact hturn
    · exact hturn.trans (ih h)

theorem irq_timeUpdate {newtime : Option Nat} {newbase : Int} {e : Nat}
    (h : vrtcTimeUpdate clk s newtime newbase = some (t, e)) : Irq s t := by
  unfold vrtcTimeUpdate at h
  dsimp only at h
  by_cases heq : newtime = s.baseRtctime
  · rw [if_pos heq] at h
    obtain ⟨rfl, -⟩ := Prod.mk.inj (Option.some.inj h)
    exact irq_of_eq rfl rfl rfl
  · rw [if_neg heq] at h
    cases newtime with
    | none =>
      obtain ⟨rfl, -⟩ := Prod.mk.inj (Option.some.inj h)
      exact irq_of_eq rfl rfl rfl
    | some new =>
      dsimp only at h
      split_ifs at h with hh
      · obtain ⟨rfl, -⟩ := Prod.mk.inj (Option.some.inj h)
        exact irq_of_eq rfl rfl rfl
      · split at h
        · cases h
        · rename_i u hu
          have hloop := irq_updateLoop hu
          obtain ⟨rfl, -⟩ := Prod.mk.inj (Option.some.inj h)
          have hfirst : Irq s { s with baseUptime := newbase } := irq_of_eq rfl rfl rfl
          split_ifs
          · exact (hfirst.trans hloop).trans (irq_setRegC ..)
          · exact hfirst.trans hloop

theorem irq_curtime (clk : Clocks) (s : Vrtc) : Irq s (vrtcCurtime clk s).2.2 := by
  unfold vrtcCurtime
  dsimp only [sbinuptime]
  split_ifs
  · have hread : Irq s { s with ups := s.ups + 1 } := irq_of_eq rfl rfl rfl
    exact hread.trans (irq_kassert ..)
  · exact irq_of_eq rfl rfl rfl

theorem irq_prologue (h : dataPrologue clk s = some t) : Irq s t := by
  obtain ⟨⟨u, e⟩, hu, hend⟩ := Option.map_eq_some_iff.mp h
  have hmid : Irq s u := (irq_curtime clk s).trans (irq_timeUpdate hu)
  dsimp only at hend
  split_ifs at hend
  · rw [← hend]
    exact hmid.trans (irq_secsToRtc ..)
  · rw [← hend]
    exact hmid

theorem irq_calloutReset (s : Vrtc) (freq : Int) : Irq s (vrtcCalloutReset s freq) := by
  unfold vrtcCalloutReset
  split_ifs <;> exact irq_of_eq rfl rfl rfl

theorem irq_calloutUpdate (s : Vrtc) (freq : Int) : Irq s (calloutUpdate s freq) := by
  unfold calloutUpdate
  split_ifs
  · exact irq_calloutReset ..
  · exact irq_kassert ..

theorem irq_setRegA (clk : Clocks) (s : Vrtc) (v : BitVec 8) : Irq s (vrtcSetRegA clk s v) := by
  unfold vrtcSetRegA
  dsimp only [sbinuptime]
  refine Irq.trans ?_ (irq_calloutUpdate ..)
  split_ifs <;> exact irq_of_eq rfl rfl rfl

theorem irq_century {ok : Bool} (h : centuryStored clk s = some (t, ok)) : Irq s t := by
  unfold centuryStored at h
  dsimp only [sbinuptime] at h
  obtain ⟨⟨u, e⟩, hu, hend⟩ := Option.map_eq_some_iff.mp h
  obtain ⟨rfl, -⟩ := Prod.mk.inj hend
  have hread : Irq s { s with ups := s.ups + 1 } := irq_of_eq rfl rfl rfl
  exact (hread.trans (irq_timeUpdate hu)).trans (irq_kassert ..)

theorem irq_handler (h : vrtcCalloutHandler clk s = some t) : Irq s t := by
  unfold vrtcCalloutHandler at h
  split_ifs at h with hidle
  · obtain rfl := Option.some.inj h
    exact irq_of_eq rfl rfl rfl
  · dsimp only at h
    obtain ⟨u, hu, rfl⟩ := Option.map_eq_some_iff.mp h
    refine Irq.trans ?_ ((irq_kassert ..).trans (irq_calloutReset ..))
    generalize hk : kassert { s with active := false } (set s.regB rtcsbAllIntrs)
      "gratuitous vrtc callout" = k at hu
    have hsk : Irq s k := by
      have hoff : Irq s { s with active := false } := irq_of_eq rfl rfl rfl
      rw [← hk]
      exact hoff.trans (irq_kassert ..)
    generalize hm : (if pintrEnabled k then vrtcSetRegC k (k.regC ||| rtcirPeriod) else k) = m at hu
    have hsm : Irq s m := by
      rw [← hm]
      split_ifs
      · exact hsk.trans (irq_setRegC ..)
      · exact hsk
    split_ifs at hu
    · obtain ⟨⟨w, e⟩, hw, rfl⟩ := Option.map_eq_some_iff.mp hu
      exact ((hsm.trans (irq_curtime clk m)).trans (irq_timeUpdate hw)).trans (irq_kassert ..)
    · obtain rfl := Option.some.inj hu
      exact hsm

/-! ## Register B -/

theorem raised_congr {x y : BitVec 8} (h : set (x ^^^ y) rtcsbAllIntrs = false) (z : BitVec 8) :
    raised x z = raised y z := by
  have hbits : ∀ k, k = 4 ∨ k = 5 ∨ k = 6 → x.getLsbD k = y.getLsbD k := by
    intro k hk
    by_contra hne
    have hcommon : (x ^^^ y) &&& rtcsbAllIntrs ≠ 0 := by
      refine (and_ne_zero_iff _ _).mpr ⟨k, ?_, ?_⟩
      · rw [BitVec.getLsbD_xor]
        cases hx : x.getLsbD k <;> cases hy : y.getLsbD k <;> simp_all
      · rcases hk with rfl | rfl | rfl <;> decide
    rw [set, decide_eq_false_iff_not] at h
    exact h hcommon
  rw [raised_eq, raised_eq, hbits 4 (by simp), hbits 5 (by simp), hbits 6 (by simp)]

/-- After register B and the time are written, either the flags are looked at or the enable bits are
the same. -/
theorem setRegB_tail {u : Vrtc} (v : BitVec 8) {oldfreq : Int} (hs : Sampled u)
    (hc : set (s.regB ^^^ v) rtcsbAllIntrs = false → Current u)
    (ht : t = calloutUpdate (if set (s.regB ^^^ v) rtcsbAllIntrs then vrtcSetRegC u u.regC else u)
      oldfreq) : InterruptOk t := by
  rw [interruptOk_iff, ht]
  split_ifs with hch
  · exact ⟨(irq_calloutUpdate ..).sampled (setRegC_sampled hs _),
      (irq_calloutUpdate ..).current (setRegC_current u _)⟩
  · exact ⟨(irq_calloutUpdate ..).sampled hs,
      (irq_calloutUpdate ..).current (hc (by simpa using hch))⟩

theorem vrtcTimeUpdate_none (clk : Clocks) (s : Vrtc) (newbase : Int) :
    vrtcTimeUpdate clk s none newbase =
      some ({ s with baseUptime := newbase, baseRtctime := none }, 0) := by
  unfold vrtcTimeUpdate
  dsimp only
  split_ifs with heq
  · rw [← heq]
  · rfl

/-- Setting the halt bit is never refused and looks at no flag. -/
theorem haltChange_halting (clk : Clocks) (s : Vrtc) {v : BitVec 8} (hv : set v rtcsbHalt = true) :
    ∃ u, haltChange clk s v = some (u, true) ∧ u.regB = s.regB &&& ~~~rtcsbUintr ∧
      u.regC = s.regC ∧ u.samples = s.samples := by
  unfold haltChange
  rw [if_pos hv]
  dsimp only
  rw [vrtcTimeUpdate_none]
  refine ⟨_, rfl, ?_⟩
  generalize hm : (vrtcCurtime clk s).2.2 = m
  have hread : m.regB = s.regB ∧ m.regC = s.regC ∧ m.samples = s.samples := by
    rw [← hm, vrtcCurtime]
    split_ifs
    · exact kassert_eq ..
    · exact ⟨rfl, rfl, rfl⟩
  generalize (decide ((vrtcCurtime clk s).1 = m.baseRtctime)) = b
  obtain ⟨hkB, hkC, hks⟩ := kassert_eq m b "mismatch between vrtc basetime and curtime"
  obtain ⟨hf, -, -, hC, hs⟩ := secsToRtc_spec clk (vrtcCurtime clk s).1
    (kassert m b "mismatch between vrtc basetime and curtime") true
  obtain ⟨heB, heC, hes⟩ := kassert_eq
    { secsToRtc clk (vrtcCurtime clk s).1 (kassert m b "mismatch between vrtc basetime and curtime")
        true with
      regB := (secsToRtc clk (vrtcCurtime clk s).1
        (kassert m b "mismatch between vrtc basetime and curtime") true).regB &&& ~~~rtcsbUintr
      baseUptime := (vrtcCurtime clk s).2.1, baseRtctime := none } true "vrtc_time_update error"
  refine ⟨heB.trans ?_, heC.trans ?_, hes.trans ?_⟩
  · change (secsToRtc clk _ _ true).regB &&& _ = _
    rw [hf.regB, hkB, hread.1]
  · exact hC.trans (hkC.trans hread.2.1)
  · exact hs.trans (hks.trans hread.2.2)

theorem interruptOk_setRegB (h : InterruptOk s) {v : BitVec 8} (hk : IrqfKept s v) {ok : Bool}
    (ht : vrtcSetRegB clk s v = some (t, ok)) : InterruptOk t := by
  obtain ⟨hs, hc⟩ := (interruptOk_iff s).mp h
  have hs' : Sampled { s with regB := v } := ⟨hs.irqf, hs.pulsed⟩
  have hsame : set (s.regB ^^^ v) rtcsbAllIntrs = false → Current { s with regB := v } := by
    intro hch
    change set s.regC rtcirInt = raised v s.regC
    rw [← raised_congr hch]
    exact hc
  unfold vrtcSetRegB at ht
  dsimp only at ht
  by_cases hch : set (s.regB ^^^ v) rtcsbHalt = true
  · rw [if_pos hch] at ht
    rw [set_halt_xor] at hch
    by_cases hv : set v rtcsbHalt = true
    · -- Halting: the time goes, and the update interrupt with it.
      have hh : rtcHalted s = false := by
        rw [rtcHalted]
        rw [hv] at hch
        simpa using hch
      obtain ⟨u, hu, hB, hC, hsm⟩ := haltChange_halting clk { s with regB := v } hv
      rw [hu] at ht
      obtain ⟨rfl, -⟩ := Prod.mk.inj (Option.some.inj ht)
      have hsu : Sampled u := by
        refine ⟨?_, ?_⟩
        · rw [hC, hsm]
          exact hs.irqf
        · rw [hsm]
          exact hs.pulsed
      refine setRegB_tail v hsu ?_ rfl
      intro hsm'
      rw [Current, hB, hC]
      exact (hsame hsm').trans (hk.halting hh hv hsm').symm
    · -- Going on: the time is decoded and set, or the write is refused.
      have hv' : set v rtcsbHalt = false := by simpa using hv
      have hh : rtcHalted s = true := by
        rw [rtcHalted]
        rw [hv'] at hch
        simpa using hch
      cases hsecs : rtcToSecs (format v) s.ram with
      | none =>
        simp only [haltChange, hv', sbinuptime, hsecs] at ht
        obtain ⟨rfl, -⟩ := Prod.mk.inj (Option.some.inj ht)
        rw [interruptOk_iff]
        refine ⟨⟨hs.irqf, hs.pulsed⟩, ?_⟩
        change set s.regC rtcirInt = raised v s.regC
        rw [hk.refused hh hv' hsecs]
        exact hc
      | some r =>
        simp only [haltChange, hv', sbinuptime, hsecs] at ht
        split at ht
        · cases ht
        · rename_i hbad
          obtain ⟨⟨w, e⟩, -, hend⟩ := Option.map_eq_some_iff.mp hbad
          cases hend
        · rename_i u hu
          obtain ⟨rfl, -⟩ := Prod.mk.inj (Option.some.inj ht)
          obtain ⟨⟨w, e⟩, hw, hend⟩ := Option.map_eq_some_iff.mp hu
          obtain ⟨rfl, -⟩ := Prod.mk.inj hend
          have hupd := (irq_timeUpdate hw).trans (irq_kassert w (decide (e = 0)) "vrtc_time_update error")
          exact setRegB_tail v (hupd.sampled ⟨hs.irqf, hs.pulsed⟩)
            (fun hsm => hupd.current (hsame hsm)) rfl
  · rw [if_neg hch] at ht
    obtain ⟨rfl, -⟩ := Prod.mk.inj (Option.some.inj ht)
    exact setRegB_tail v hs' hsame rfl

theorem interruptOk_irq (h : InterruptOk s) (hi : Irq s t) : InterruptOk t := by
  obtain ⟨hs, hc⟩ := (interruptOk_iff s).mp h
  exact (interruptOk_iff t).mpr ⟨hi.sampled hs, hi.current hc⟩

theorem interruptOk_dataOut (h : InterruptOk s) {v : BitVec 8} (hk : FlagsCareful clk s (.write v))
    {ok : Bool} (ht : vrtcDataOut clk s v = some (t, ok)) : InterruptOk t := by
  obtain ⟨u, hu, hrest⟩ := Option.bind_eq_some_iff.mp ht
  have hou := interruptOk_irq h (irq_prologue hu)
  obtain ⟨⟨w, okw⟩, hw, hend⟩ := Option.bind_eq_some_iff.mp hrest
  have hku : u.addr = rtcStatusb → IrqfKept u v := by
    have hk : FlagsKept v (dataPrologue clk s) := hk
    rw [hu] at hk
    exact hk
  have how : InterruptOk w := by
    rcases dataStore_cases hw with ⟨-, rfl, -⟩ | ⟨ha, hB⟩ | ⟨-, rfl, -⟩ | ⟨-, -, -, rfl, -⟩
    · exact interruptOk_irq hou (irq_setRegA clk u v)
    · exact interruptOk_setRegB hou (hku ha) hB
    · exact hou
    · exact ⟨hou.irqf, hou.seen, hou.pulsed⟩
  dsimp only at hend
  split_ifs at hend
  · exact interruptOk_irq how (irq_century hend)
  · obtain ⟨rfl, -⟩ := Prod.mk.inj (Option.some.inj hend)
    exact how

theorem interruptOk_next {o : Op} (h : InterruptOk s) (ho : FlagsCareful clk s o)
    (ht : next clk s o = some t) : InterruptOk t := by
  cases o with
  | addr v =>
    obtain rfl := Option.some.inj ht
    exact ⟨h.irqf, h.seen, h.pulsed⟩
  | read =>
    obtain ⟨⟨u, v⟩, hu, rfl⟩ := Option.map_eq_some_iff.mp ht
    obtain ⟨w, hw, hend⟩ := Option.map_eq_some_iff.mp hu
    obtain ⟨rfl, -⟩ := Prod.mk.inj hend
    have how := interruptOk_irq h (irq_prologue hw)
    dsimp only
    split_ifs
    · exact interruptOk_irq how (irq_setRegC ..)
    · exact how
  | write v =>
    obtain ⟨⟨u, ok⟩, hu, rfl⟩ := Option.map_eq_some_iff.mp ht
    exact interruptOk_dataOut h ho hu
  | dispatch =>
    simp only [next, Option.ite_none_right_eq_some, Option.some.injEq] at ht
    obtain ⟨-, rfl⟩ := ht
    exact ⟨h.irqf, h.seen, h.pulsed⟩
  | expire =>
    simp only [next, Option.ite_none_right_eq_some] at ht
    obtain ⟨u, hu, rfl⟩ := Option.map_eq_some_iff.mp ht.2
    have hou := interruptOk_irq h (irq_handler hu)
    exact ⟨hou.irqf, hou.seen, hou.pulsed⟩

end Steps

/-! ## Runs -/

theorem interruptOk_init (clk : Clocks) : InterruptOk (vrtcInit clk) where
  irqf := by simp [vrtcInit, set, raised, rtcirInt, rtcirAlarm, rtcirPeriod, rtcirUpdate]
  seen := by simp [vrtcInit, set, raised, level, rtcirAlarm, rtcirPeriod, rtcirUpdate]
  pulsed := trivial

theorem inductive_interruptOk (clk : Clocks) :
    ((system clk).restrict (FlagsCareful clk)).Inductive InterruptOk where
  init s hs := by
    obtain rfl := hs
    exact interruptOk_init clk
  step s o t h hs := interruptOk_next h hs.1 hs.2

/-- Where no write to register B leaves IRQF behind, it is set exactly while an enabled flag is, and the
line is pulsed exactly where that begins. -/
theorem irqf_follows_flags (clk : Clocks) {s : Vrtc}
    (h : ((system clk).restrict (FlagsCareful clk)).Reachable s) : InterruptOk s :=
  (inductive_interruptOk clk).reachable h

/-- A host on whose uptime every reading finds another second gone. -/
def tickingClocks : Clocks where
  up i := i * sbt1s
  host _ := 0
  up_mono := by
    intro i j h
    have : (i : Int) ≤ j := by exact_mod_cast h
    exact Int.mul_le_mul_of_nonneg_right this (by decide)
  host_lt := epoch_lt

instance (s : Vrtc) (v : BitVec 8) : Decidable (IrqfKept s v) :=
  decidable_of_iff
    ((rtcHalted s = false → set v rtcsbHalt = true → set (s.regB ^^^ v) rtcsbAllIntrs = false →
        raised (v &&& ~~~rtcsbUintr) s.regC = raised v s.regC) ∧
      (rtcHalted s = true → set v rtcsbHalt = false → rtcToSecs (format v) s.ram = none →
        raised v s.regC = raised s.regB s.regC))
    ⟨fun h => ⟨h.1, h.2⟩, fun h => ⟨h.halting, h.refused⟩⟩

instance (v : BitVec 8) : ∀ r, Decidable (FlagsKept v r)
  | some u => inferInstanceAs (Decidable (u.addr = rtcStatusb → IrqfKept u v))
  | none => .isTrue trivial

instance (clk : Clocks) : ∀ s o, Decidable (FlagsCareful clk s o)
  | s, .write v => inferInstanceAs (Decidable (FlagsKept v (dataPrologue clk s)))
  | _, .addr _ => .isTrue trivial
  | _, .read => .isTrue trivial
  | _, .dispatch => .isTrue trivial
  | _, .expire => .isTrue trivial

/-- The update interrupt is enabled, and raised at the next access. -/
def updateInterrupt : List Op := [.addr 0x0b, .write 0x12, .addr 0x0d, .read]

theorem irqf_follows_flags_update :
    ∃ s, ((system tickingClocks).restrict (FlagsCareful tickingClocks)).Reachable s ∧
      InterruptOk s ∧ s.samples = [⟨true, true⟩, ⟨false, false⟩] := by
  obtain ⟨s, hs, hsm⟩ : ∃ s,
      System.exec (System.guarded (FlagsCareful tickingClocks) (next tickingClocks))
        (vrtcInit tickingClocks) updateInterrupt = some s ∧
      s.samples = [⟨true, true⟩, ⟨false, false⟩] := ⟨_, rfl, rfl⟩
  have hr : ((system tickingClocks).restrict (FlagsCareful tickingClocks)).Reachable s :=
    System.exec_reachable_guarded (.init rfl) hs
  exact ⟨s, hr, irqf_follows_flags tickingClocks hr, hsm⟩

/-- Then the clock is halted, the update interrupt still named in the write. -/
theorem irqf_stale_halt : ∃ s, (system tickingClocks).Reachable s ∧ ¬ InterruptOk s ∧
    s.regB = 0x82 ∧ s.regC = 0x90 := by
  obtain ⟨s, hs, hB, hC⟩ : ∃ s, System.exec (next tickingClocks) (vrtcInit tickingClocks)
      (updateInterrupt ++ [.addr 0x0b, .write 0x92]) = some s ∧ s.regB = 0x82 ∧ s.regC = 0x90 :=
    ⟨_, rfl, rfl, rfl⟩
  refine ⟨s, System.exec_reachable (.init rfl) hs, ?_, hB, hC⟩
  intro h
  have hirqf := h.irqf
  rw [hB, hC] at hirqf
  revert hirqf
  decide

end Xhyve.Vmm.Rtc
