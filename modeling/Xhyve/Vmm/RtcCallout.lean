import Xhyve.Lib.BitFlags
import Xhyve.Vmm.Rtc

/-!
# When the RTC's callout is active

Register writes and the callout's own handler decide from `vrtc_freq` whether the callout runs. Over any
run of accepted accesses it is active exactly while the frequency is not zero, and no assertion about
it fails.
-/

namespace Xhyve.Vmm.Rtc

open Xhyve.Lib

/-! ## Bits of the registers -/

theorem set_flag (x : BitVec 8) {m : BitVec 8} (k : Nat) (hm : m = BitVec.twoPow 8 k) (hk : k < 8) :
    set x m = x.getLsbD k := by
  rw [set, Bool.eq_iff_iff, decide_eq_true_iff, hm]
  exact and_flag_ne_zero hk x

theorem set_halt (x : BitVec 8) : set x rtcsbHalt = x.getLsbD 7 :=
  set_flag x 7 (by decide) (by decide)

theorem set_pintr (x : BitVec 8) : set x rtcsbPintr = x.getLsbD 6 :=
  set_flag x 6 (by decide) (by decide)

theorem set_aintr (x : BitVec 8) : set x rtcsbAintr = x.getLsbD 5 :=
  set_flag x 5 (by decide) (by decide)

theorem set_uintr (x : BitVec 8) : set x rtcsbUintr = x.getLsbD 4 :=
  set_flag x 4 (by decide) (by decide)

theorem set_halt_xor (x y : BitVec 8) :
    set (x ^^^ y) rtcsbHalt = (set x rtcsbHalt ^^ set y rtcsbHalt) := by
  rw [set_halt, set_halt, set_halt, BitVec.getLsbD_xor]

/-- Taking one enable bit away leaves the others and the halt bit. -/
theorem getLsbD_clear_uintr (x : BitVec 8) {k : Nat} (hk : k < 8) :
    (x &&& ~~~rtcsbUintr).getLsbD k = (x.getLsbD k && decide (k ≠ 4)) := by
  rw [BitVec.getLsbD_and, BitVec.getLsbD_not]
  interval_cases k <;> simp [rtcsbUintr]

theorem set_halt_clear_uintr (x : BitVec 8) :
    set (x &&& ~~~rtcsbUintr) rtcsbHalt = set x rtcsbHalt := by
  rw [set_halt, set_halt, getLsbD_clear_uintr x (by decide)]
  simp

/-- Some interrupt is enabled. -/
theorem set_allIntrs {x : BitVec 8} (h : set x rtcsbPintr ∨ set x rtcsbAintr ∨ set x rtcsbUintr) :
    set x rtcsbAllIntrs = true := by
  rw [set_pintr, set_aintr, set_uintr] at h
  rw [set, decide_eq_true_iff, Ne, rtcsbAllIntrs]
  refine (and_ne_zero_iff x _).mpr ?_
  rcases h with h | h | h
  · exact ⟨6, h, by decide⟩
  · exact ⟨5, h, by decide⟩
  · exact ⟨4, h, by decide⟩

/-! ## The frequency -/

theorem vrtcFreq_congr {s t : Vrtc} (hA : t.regA = s.regA) (hB : t.regB = s.regB)
    (hb : t.baseRtctime.isSome = s.baseRtctime.isSome) : vrtcFreq t = vrtcFreq s := by
  unfold vrtcFreq pintrEnabled aintrEnabled uintrEnabled updateEnabled rtcHalted
  rw [hA, hB, hb]

theorem intrs_of_freq {s : Vrtc} (h : vrtcFreq s ≠ 0) : set s.regB rtcsbAllIntrs = true := by
  refine set_allIntrs ?_
  by_contra hnone
  obtain ⟨hp, ha, hu⟩ : set s.regB rtcsbPintr = false ∧ set s.regB rtcsbAintr = false ∧
      set s.regB rtcsbUintr = false := by simpa using hnone
  apply h
  simp [vrtcFreq, pintrEnabled, aintrEnabled, uintrEnabled, hp, ha, hu]

/-! ## The invariant -/

structure CalloutOk (clk : Clocks) (s : Vrtc) : Prop where
  active : s.active = true ↔ vrtcFreq s ≠ 0
  /-- The time is broken just while the guest owns the fields. -/
  broken : rtcHalted s = s.baseRtctime.isNone
  uptime : s.baseUptime ≤ clk.up s.ups
  failed : s.failed = []

theorem calloutOk_init (clk : Clocks) : CalloutOk clk (vrtcInit clk) where
  active := by
    have hfreq : vrtcFreq (vrtcInit clk) = 0 := by
      simp [vrtcFreq, pintrEnabled, aintrEnabled, uintrEnabled, vrtcInit, set, rtcsb24hr, rtcsbPintr,
        rtcsbAintr, rtcsbUintr]
    rw [hfreq]
    constructor
    · intro h
      cases h
    · intro h
      exact absurd rfl h
  broken := by simp [rtcHalted, vrtcInit, set, rtcsb24hr, rtcsbHalt]
  uptime := clk.up_mono (Nat.le_succ 0)
  failed := rfl

/-- The time brought up to now, and nothing else that the callout depends on. -/
structure Refreshed (clk : Clocks) (s t : Vrtc) : Prop where
  regA : t.regA = s.regA
  regB : t.regB = s.regB
  active : t.active = s.active
  pending : t.pending = s.pending
  dispatched : t.dispatched = s.dispatched
  addr : t.addr = s.addr
  failed : t.failed = s.failed
  time : t.baseRtctime.isSome = s.baseRtctime.isSome
  uptime : t.baseUptime ≤ clk.up t.ups

section Steps

variable {clk : Clocks} {s t : Vrtc}

theorem Refreshed.calloutOk (h : CalloutOk clk s) (hr : Refreshed clk s t) : CalloutOk clk t where
  active := by
    rw [hr.active, vrtcFreq_congr hr.regA hr.regB hr.time]
    exact h.active
  broken := by
    have hb := h.broken
    rw [← Option.not_isSome] at hb ⊢
    rw [hr.time, ← hb]
    simp only [rtcHalted, hr.regB]
  uptime := hr.uptime
  failed := hr.failed.trans h.failed

/-- `vrtc_curtime` and `vrtc_time_update` after it, which never fails. -/
theorem refresh {e : Nat} (hb : rtcHalted s = s.baseRtctime.isNone)
    (hu : s.baseUptime ≤ clk.up s.ups)
    (h : vrtcTimeUpdate clk (vrtcCurtime clk s).2.2 (vrtcCurtime clk s).1 (vrtcCurtime clk s).2.1 =
      some (t, e)) : e = 0 ∧ Refreshed clk s t := by
  obtain ⟨hcur, hbase⟩ := vrtcCurtime_spec hu
  rw [hcur] at h
  obtain ⟨hf, hut, hcase⟩ := vrtcTimeUpdate_frame h
  have hend : e = 0 ∧ t.baseRtctime = s.baseRtctime.map (· + elapsed clk s) := by
    refine hcase.resolve_right ?_
    rintro ⟨hh, -, hne⟩
    -- A halted clock has no time to bring up to date.
    have hnone : s.baseRtctime = none := by
      rw [← Option.isNone_iff_eq_none, ← hb]
      exact hh
    exact hne (by rw [hnone]; rfl)
  refine ⟨hend.1, ⟨hf.regA, hf.regB, hf.active, hf.pending, hf.dispatched, hf.addr, hf.failed, ?_, ?_⟩⟩
  · rw [hend.2, Option.isSome_map]
  · rw [hut, hf.ups]
    exact hbase

theorem refreshed_secsToRtc (hr : Refreshed clk s t) (r : Option Nat) (force : Bool) :
    Refreshed clk s (secsToRtc clk r t force) := by
  obtain ⟨hf, hb, hu, -, -⟩ := secsToRtc_spec clk r t force
  refine ⟨hf.regA.trans hr.regA, hf.regB.trans hr.regB, hf.active.trans hr.active,
    hf.pending.trans hr.pending, hf.dispatched.trans hr.dispatched, hf.addr.trans hr.addr,
    hf.failed.trans hr.failed, ?_, ?_⟩
  · rw [hb, hr.time]
  · rw [hu, hf.ups]
    exact hr.uptime

theorem dataPrologue_refreshed (h : CalloutOk clk s) (ht : dataPrologue clk s = some t) :
    Refreshed clk s t := by
  obtain ⟨⟨u, e⟩, hu, hend⟩ := Option.map_eq_some_iff.mp ht
  obtain ⟨-, hr⟩ := refresh h.broken h.uptime hu
  dsimp only at hend
  split_ifs at hend
  · rw [← hend]
    exact refreshed_secsToRtc hr _ _
  · rw [← hend]
    exact hr

/-- The callout follows the frequency it had before. -/
theorem calloutUpdate_spec {oldfreq : Int} (hact : s.active = true ↔ oldfreq ≠ 0) :
    ((calloutUpdate s oldfreq).active = true ↔ vrtcFreq s ≠ 0) ∧
      (calloutUpdate s oldfreq).failed = s.failed ∧ (calloutUpdate s oldfreq).regA = s.regA ∧
      (calloutUpdate s oldfreq).regB = s.regB ∧
      (calloutUpdate s oldfreq).baseRtctime = s.baseRtctime ∧
      (calloutUpdate s oldfreq).baseUptime = s.baseUptime ∧
      (calloutUpdate s oldfreq).ups = s.ups := by
  unfold calloutUpdate
  split_ifs with hne
  · unfold vrtcCalloutReset
    split_ifs with hz ha
    · simp [hz]
    · simp [hz, ha]
    · simp [hz]
  · have heq : vrtcFreq s = oldfreq := Decidable.not_not.mp hne
    rw [← heq] at hact
    have hok : ((vrtcFreq s = 0 && !s.active) || (vrtcFreq s ≠ 0 && s.active)) = true := by
      by_cases hz : vrtcFreq s = 0
      · have hoff : s.active = false := by
          cases ha : s.active with
          | false => rfl
          | true => exact absurd hz (hact.mp ha)
        simp [hz, hoff]
      · simp [hz, hact.mpr hz]
    rw [vrtcCalloutCheck, hok, kassert_true]
    exact ⟨hact, rfl, rfl, rfl, rfl, rfl, rfl⟩

theorem calloutOk_update {oldfreq : Int} (hact : s.active = true ↔ oldfreq ≠ 0)
    (hb : rtcHalted s = s.baseRtctime.isNone) (hu : s.baseUptime ≤ clk.up s.ups)
    (hf : s.failed = []) : CalloutOk clk (calloutUpdate s oldfreq) := by
  obtain ⟨hact', hf', hA, hB, htime, hut, hups⟩ := calloutUpdate_spec hact
  refine ⟨?_, ?_, ?_, hf'.trans hf⟩
  · rw [vrtcFreq_congr hA hB (by rw [htime])]
    exact hact'
  · rw [htime, ← hb]
    simp only [rtcHalted, hB]
  · rw [hut, hups]
    exact hu

theorem calloutOk_setRegA (h : CalloutOk clk s) (v : BitVec 8) : CalloutOk clk (vrtcSetRegA clk s v) := by
  unfold vrtcSetRegA
  dsimp only
  split_ifs
  · exact calloutOk_update h.active h.broken (clk.up_mono (Nat.le_succ s.ups)) h.failed
  · exact calloutOk_update h.active h.broken h.uptime h.failed

/-- Register B after the halt bit was looked at, where the write is accepted. -/
theorem haltChange_spec {v : BitVec 8} (hold : set v rtcsbHalt = s.baseRtctime.isSome)
    (hB : s.regB = v) (hu : s.baseUptime ≤ clk.up s.ups) (hf : s.failed = [])
    (h : haltChange clk s v = some (t, true)) :
    t.active = s.active ∧ rtcHalted t = t.baseRtctime.isNone ∧ t.baseUptime ≤ clk.up t.ups ∧
      t.failed = [] := by
  unfold haltChange at h
  by_cases hv : set v rtcsbHalt = true
  · rw [if_pos hv] at h
    have hhalted : updateEnabled s = false := by simp [updateEnabled, rtcHalted, hB, hv]
    have hcur : vrtcCurtime clk s = (s.baseRtctime, s.baseUptime, s) := by
      rw [vrtcCurtime, hhalted]
      rfl
    simp only [hcur, decide_true, kassert_true] at h
    obtain ⟨⟨u, e⟩, hupd, hend⟩ := Option.map_eq_some_iff.mp h
    obtain ⟨hf₁, -, hu₁, -, -⟩ := secsToRtc_spec clk s.baseRtctime s true
    obtain ⟨hfr, hut, hcase⟩ := vrtcTimeUpdate_frame hupd
    obtain ⟨rfl, htime⟩ := hcase.resolve_right fun hbad => hbad.2.2 rfl
    obtain rfl : u = t := (Prod.mk.inj hend).1
    refine ⟨hfr.active.trans hf₁.active, ?_, ?_, hfr.failed.trans (hf₁.failed.trans hf)⟩
    · rw [htime, rtcHalted, hfr.regB]
      change set ((secsToRtc clk s.baseRtctime s true).regB &&& _) _ = true
      rw [set_halt_clear_uintr, hf₁.regB, hB, hv]
    · rw [hut, hfr.ups]
      change s.baseUptime ≤ clk.up (secsToRtc clk s.baseRtctime s true).ups
      rw [hf₁.ups]
      exact hu
  · rw [if_neg hv] at h
    have hv' : set v rtcsbHalt = false := by simpa using hv
    cases hsecs : rtcToSecs (format s.regB) s.ram with
    | none =>
      simp only [hsecs, sbinuptime] at h
      cases h
    | some r =>
      simp only [hsecs, sbinuptime] at h
      obtain ⟨⟨u, e⟩, hupd, hend⟩ := Option.map_eq_some_iff.mp h
      obtain ⟨hfr, hut, hcase⟩ := vrtcTimeUpdate_frame hupd
      obtain ⟨rfl, htime⟩ := hcase.resolve_right (by
        rintro ⟨hh, -⟩
        rw [rtcHalted, hB, hv'] at hh
        cases hh)
      obtain rfl : u = t := (Prod.mk.inj hend).1
      refine ⟨hfr.active, ?_, ?_, hfr.failed.trans hf⟩
      · rw [htime, rtcHalted, hfr.regB]
        change set s.regB rtcsbHalt = false
        rw [hB, hv']
      · rw [hut, hfr.ups]
        exact clk.up_mono (Nat.le_succ s.ups)

theorem calloutOk_setRegB (h : CalloutOk clk s) {v : BitVec 8}
    (ht : vrtcSetRegB clk s v = some (t, true)) : CalloutOk clk t := by
  unfold vrtcSetRegB at ht
  dsimp only at ht
  split at ht
  · cases ht
  · cases ht
  · rename_i u hu
    obtain ⟨rfl, -⟩ := Prod.mk.inj (Option.some.inj ht)
    have hmid : u.active = s.active ∧ rtcHalted u = u.baseRtctime.isNone ∧
        u.baseUptime ≤ clk.up u.ups ∧ u.failed = [] := by
      have hb := h.broken
      rw [rtcHalted] at hb
      split_ifs at hu with hch
      · rw [set_halt_xor, hb] at hch
        refine @haltChange_spec clk { s with regB := v } u v ?_ rfl h.uptime h.failed hu
        change set v rtcsbHalt = s.baseRtctime.isSome
        cases hsome : s.baseRtctime with
        | none => simpa [hsome] using hch
        | some r => simpa [hsome] using hch
      · obtain ⟨rfl, -⟩ := Prod.mk.inj (Option.some.inj hu)
        refine ⟨rfl, ?_, h.uptime, h.failed⟩
        rw [set_halt_xor, hb] at hch
        change set v rtcsbHalt = s.baseRtctime.isNone
        cases hsome : s.baseRtctime with
        | none => simpa [hsome] using hch
        | some r => simpa [hsome] using hch
    obtain ⟨hact, hbr, hup, hfl⟩ := hmid
    have hold : u.active = true ↔ vrtcFreq s ≠ 0 := by
      rw [hact]
      exact h.active
    split_ifs
    · exact calloutOk_update hold hbr hup hfl
    · exact calloutOk_update hold hbr hup hfl

theorem refreshed_pulse (hr : Refreshed clk s t) (v : BitVec 8) :
    Refreshed clk s (vrtcSetRegC t v) :=
  ⟨hr.regA, hr.regB, hr.active, hr.pending, hr.dispatched, hr.addr, hr.failed, hr.time, hr.uptime⟩

theorem calloutOk_handler (h : CalloutOk clk s) (ht : vrtcCalloutHandler clk s = some t) :
    CalloutOk clk t := by
  unfold vrtcCalloutHandler at ht
  split_ifs at ht with hidle
  · obtain rfl := Option.some.inj ht
    exact h
  · have hact : s.active = true := by
      cases ha : s.active with
      | true => rfl
      | false => simp [ha] at hidle
    have hfreq := h.active.mp hact
    have hintr := intrs_of_freq hfreq
    -- The callout is off while its handler runs; the frequency stays what it was.
    have hoff : Refreshed clk { s with active := false } { s with active := false } :=
      ⟨rfl, rfl, rfl, rfl, rfl, rfl, rfl, rfl, h.uptime⟩
    have hregs : (kassert { s with active := false } (set s.regB rtcsbAllIntrs)
        "gratuitous vrtc callout") = { s with active := false } := by
      rw [hintr]
      rfl
    dsimp only at ht
    rw [hregs] at ht
    obtain ⟨u, hu, rfl⟩ := Option.map_eq_some_iff.mp ht
    have hru : Refreshed clk { s with active := false } u := by
      generalize hm : (if pintrEnabled { s with active := false } then
        vrtcSetRegC { s with active := false } (s.regC ||| rtcirPeriod)
          else { s with active := false }) = m at hu
      have hrm : Refreshed clk { s with active := false } m := by
        rw [← hm]
        split_ifs
        · exact refreshed_pulse hoff _
        · exact hoff
      have hbm : rtcHalted m = m.baseRtctime.isNone := by
        have hb := h.broken
        rw [← Option.not_isSome] at hb ⊢
        rw [hrm.time, ← hb]
        simp only [rtcHalted, hrm.regB]
      split_ifs at hu with hau
      · obtain ⟨⟨w, e⟩, hw, hend⟩ := Option.map_eq_some_iff.mp hu
        obtain ⟨rfl, hrw⟩ := refresh hbm hrm.uptime hw
        obtain rfl : w = u := hend
        exact ⟨hrw.regA.trans hrm.regA, hrw.regB.trans hrm.regB, hrw.active.trans hrm.active,
          hrw.pending.trans hrm.pending, hrw.dispatched.trans hrm.dispatched,
          hrw.addr.trans hrm.addr, hrw.failed.trans hrm.failed, hrw.time.trans hrm.time, hrw.uptime⟩
      · obtain rfl := Option.some.inj hu
        exact hrm
    have hfu : vrtcFreq u = vrtcFreq s := vrtcFreq_congr hru.regA hru.regB hru.time
    have hne : vrtcFreq u ≠ 0 := by
      rw [hfu]
      exact hfreq
    simp only [hne, ne_eq, not_false_eq_true, decide_true, kassert_true]
    rw [vrtcCalloutReset, if_neg hne]
    refine ⟨?_, ?_, hru.uptime, hru.failed.trans h.failed⟩
    · have hft : vrtcFreq { u with active := true, pending := true } = vrtcFreq u := rfl
      rw [hft]
      exact ⟨fun _ => hne, fun _ => rfl⟩
    · have hb := h.broken
      rw [← Option.not_isSome] at hb ⊢
      change set u.regB rtcsbHalt = !u.baseRtctime.isSome
      rw [hru.time, hru.regB]
      exact hb

theorem calloutOk_century (h : CalloutOk clk s) (hh : rtcHalted s = false)
    (ht : centuryStored clk s = some (t, true)) : CalloutOk clk t := by
  unfold centuryStored at ht
  dsimp only [sbinuptime] at ht
  obtain ⟨⟨u, e⟩, hu, hend⟩ := Option.map_eq_some_iff.mp ht
  obtain ⟨hf, hut, hcase⟩ := vrtcTimeUpdate_frame hu
  obtain ⟨rfl, htime⟩ := hcase.resolve_right (by
    rintro ⟨hh', -⟩
    change rtcHalted s = true at hh'
    rw [hh] at hh'
    cases hh')
  obtain ⟨hu', hok⟩ := Prod.mk.inj hend
  obtain rfl : u = t := hu'
  have hknown : (rtcToSecs (format s.regB) s.ram).isSome = true := by simpa using hok
  have hsome : s.baseRtctime.isSome = true := by
    have hb := h.broken
    rw [hh, ← Option.not_isSome] at hb
    simpa using hb.symm
  have hr : Refreshed clk s u :=
    ⟨hf.regA, hf.regB, hf.active, hf.pending, hf.dispatched, hf.addr, hf.failed,
      by rw [htime, hknown, hsome], by rw [hut, hf.ups]; exact clk.up_mono (Nat.le_succ s.ups)⟩
  exact hr.calloutOk h

theorem calloutOk_dataOut (h : CalloutOk clk s) {v : BitVec 8}
    (ht : vrtcDataOut clk s v = some (t, true)) : CalloutOk clk t := by
  obtain ⟨u, hu, hrest⟩ := Option.bind_eq_some_iff.mp ht
  have hou := (dataPrologue_refreshed h hu).calloutOk h
  obtain ⟨⟨w, ok⟩, hw, hend⟩ := Option.bind_eq_some_iff.mp hrest
  dsimp only at hend
  rcases dataStore_cases hw with ⟨ha, rfl, rfl⟩ | ⟨ha, hB⟩ | ⟨ha, rfl, rfl⟩ | ⟨-, -, -, rfl, rfl⟩
  · rw [if_neg (by simp [ha, rtcStatusa, rtcStatusb, rtcCentury])] at hend
    obtain ⟨rfl, -⟩ := Prod.mk.inj (Option.some.inj hend)
    exact calloutOk_setRegA hou v
  · rw [if_neg (by simp [ha, rtcStatusa, rtcStatusb, rtcCentury])] at hend
    obtain ⟨rfl, rfl⟩ := Prod.mk.inj (Option.some.inj hend)
    exact calloutOk_setRegB hou hB
  · have hne : ¬ (w.addr = rtcCentury ∧ rtcHalted w = false) := by
      rintro ⟨hc, -⟩
      rw [hc] at ha
      rcases ha with ha | ha <;> cases ha
    rw [if_neg hne] at hend
    obtain ⟨rfl, -⟩ := Prod.mk.inj (Option.some.inj hend)
    exact hou
  · have how : CalloutOk clk (storeByte u v) := ⟨hou.active, hou.broken, hou.uptime, hou.failed⟩
    split_ifs at hend with hc
    · exact calloutOk_century how hc.2 hend
    · obtain ⟨rfl, -⟩ := Prod.mk.inj (Option.some.inj hend)
      exact how

theorem calloutOk_dataIn (h : CalloutOk clk s) {v : BitVec 8}
    (ht : vrtcDataIn clk s = some (t, v)) : CalloutOk clk t := by
  obtain ⟨u, hu, hend⟩ := Option.map_eq_some_iff.mp ht
  have hou := (dataPrologue_refreshed h hu).calloutOk h
  obtain ⟨rfl, -⟩ := Prod.mk.inj hend
  split_ifs
  · exact ⟨hou.active, hou.broken, hou.uptime, hou.failed⟩
  · exact hou

end Steps

/-! ## Runs -/

/-- The handler of a write, where it comes to an end, returns success. -/
def accepted (clk : Clocks) (s : Vrtc) (v : BitVec 8) : Bool :=
  match vrtcDataOut clk s v with
  | some (_, ok) => ok
  | none => true

/-- Every write is accepted. -/
def Accepted (clk : Clocks) (s : Vrtc) : Op → Prop
  | .write v => accepted clk s v = true
  | _ => True

theorem calloutOk_next {clk : Clocks} {s t : Vrtc} {o : Op} (h : CalloutOk clk s)
    (ho : Accepted clk s o) (ht : next clk s o = some t) : CalloutOk clk t := by
  cases o with
  | addr v =>
    obtain rfl := Option.some.inj ht
    exact ⟨h.active, h.broken, h.uptime, h.failed⟩
  | read =>
    obtain ⟨⟨u, v⟩, hu, rfl⟩ := Option.map_eq_some_iff.mp ht
    exact calloutOk_dataIn h hu
  | write v =>
    obtain ⟨⟨u, ok⟩, hu, rfl⟩ := Option.map_eq_some_iff.mp ht
    have hok : accepted clk s v = true := ho
    rw [accepted, hu] at hok
    obtain rfl : ok = true := hok
    exact calloutOk_dataOut h hu
  | dispatch =>
    simp only [next, Option.ite_none_right_eq_some, Option.some.injEq] at ht
    obtain ⟨-, rfl⟩ := ht
    exact ⟨h.active, h.broken, h.uptime, h.failed⟩
  | expire =>
    simp only [next, Option.ite_none_right_eq_some] at ht
    obtain ⟨u, hu, rfl⟩ := Option.map_eq_some_iff.mp ht.2
    have hou := calloutOk_handler h hu
    exact ⟨hou.active, hou.broken, hou.uptime, hou.failed⟩

theorem inductive_calloutOk (clk : Clocks) :
    ((system clk).restrict (Accepted clk)).Inductive (CalloutOk clk) where
  init s hs := by
    obtain rfl := hs
    exact calloutOk_init clk
  step s o t h hs := calloutOk_next h hs.1 hs.2

/-- The callout is active exactly while the frequency is not zero, and no assertion has failed. -/
theorem callout_follows_freq (clk : Clocks) {s : Vrtc}
    (h : ((system clk).restrict (Accepted clk)).Reachable s) :
    (s.active = true ↔ vrtcFreq s ≠ 0) ∧ s.failed = [] := by
  have hok := (inductive_calloutOk clk).reachable h
  exact ⟨hok.active, hok.failed⟩

theorem stillUp_mono : Monotone fun _ : Nat => (0 : Int) := fun _ _ _ => le_refl _

/-- A host whose clocks stand still. -/
def stillClocks : Clocks where
  up _ := 0
  host _ := 0
  up_mono := stillUp_mono
  host_lt := epoch_lt

instance (clk : Clocks) : ∀ s o, Decidable (Accepted clk s o)
  | s, .write v => inferInstanceAs (Decidable (accepted clk s v = true))
  | _, .addr _ => .isTrue trivial
  | _, .read => .isTrue trivial
  | _, .dispatch => .isTrue trivial
  | _, .expire => .isTrue trivial

theorem callout_follows_freq_update :
    ∃ s, ((system stillClocks).restrict (Accepted stillClocks)).Reachable s ∧ s.pending = true ∧
      (s.active = true ↔ vrtcFreq s ≠ 0) ∧ s.failed = [] := by
  obtain ⟨s, hs, hp⟩ : ∃ s, System.exec (System.guarded (Accepted stillClocks) (next stillClocks))
      (vrtcInit stillClocks) [.addr 0x0b, .write 0x12, .dispatch, .expire] = some s ∧
      s.pending = true := ⟨_, rfl, rfl⟩
  have hr : ((system stillClocks).restrict (Accepted stillClocks)).Reachable s :=
    System.exec_reachable_guarded (.init rfl) hs
  exact ⟨s, hr, hp, callout_follows_freq stillClocks hr⟩

/-- Date/time writes are accepted; what is written to the registers A and B need not be. -/
def DateTimeAccepted (clk : Clocks) (s : Vrtc) : Op → Prop
  | .write v => dateTime s.addr = true → accepted clk s v = true
  | _ => True

instance (clk : Clocks) : ∀ s o, Decidable (DateTimeAccepted clk s o)
  | s, .write v => inferInstanceAs (Decidable (dateTime s.addr = true → accepted clk s v = true))
  | _, .addr _ => .isTrue trivial
  | _, .read => .isTrue trivial
  | _, .dispatch => .isTrue trivial
  | _, .expire => .isTrue trivial

/-- Selects a rate, halts, leaves seconds that are none, and ends the halt with the periodic interrupt
enabled. -/
def brokenTime : List Op :=
  [.addr 0x0a, .write 0x26, .addr 0x0b, .write 0x82, .addr 0x00, .write 0x0f, .addr 0x0b, .write 0x42]

/-- The write to register B is refused with the register changed and the callout not looked at. -/
theorem callout_refused_regB :
    ∃ s, ((system stillClocks).restrict (DateTimeAccepted stillClocks)).Reachable s ∧
      ¬ (s.active = true ↔ vrtcFreq s ≠ 0) := by
  obtain ⟨s, hs, ha, hf⟩ : ∃ s,
      System.exec (System.guarded (DateTimeAccepted stillClocks) (next stillClocks))
        (vrtcInit stillClocks) brokenTime = some s ∧
      s.active = false ∧ vrtcFreq s = sbt1s / 1024 := ⟨_, rfl, rfl, rfl⟩
  refine ⟨s, System.exec_reachable_guarded (.init rfl) hs, ?_⟩
  intro h
  have hne : vrtcFreq s ≠ 0 := by
    rw [hf]
    decide
  rw [h.mpr hne] at ha
  cases ha

end Xhyve.Vmm.Rtc
