import Xhyve.Vmm.RtcCallout

/-!
# The date and time a guest reads back

A guest sets the date and time under the halt bit, ends the halt, and reads the fields later. The time
base keeps what was set; the fields show the host's clock instead, since `secs_to_rtc` does not use the
time it is given.
-/

namespace Xhyve.Vmm.Rtc

open Xhyve.Lib

/-! ## Readings of the host's clock -/

section Hosts

variable {clk : Clocks} {s t : Vrtc}

theorem secsToRtc_hosts (clk : Clocks) (r : Option Nat) (s : Vrtc) (force : Bool) :
    s.hosts ≤ (secsToRtc clk r s force).hosts := by
  cases r with
  | none => exact le_refl _
  | some r =>
    unfold secsToRtc
    dsimp only
    split
    · exact le_refl _
    · exact Nat.le_succ _

theorem alarmCheck_hosts (clk : Clocks) (alarm : BitVec 8 × BitVec 8 × BitVec 8) (s : Vrtc) :
    s.hosts ≤ (alarmCheck clk alarm s).hosts := by
  have h := secsToRtc_hosts clk s.baseRtctime s false
  unfold alarmCheck
  dsimp only
  split_ifs
  · exact h
  · exact h
  · exact le_refl _

theorem updateLoop_hosts {alarm : BitVec 8 × BitVec 8 × BitVec 8} {oldtime : Option Nat}
    {newtime : Nat} : ∀ {n : Nat} {s t : Vrtc},
      updateLoop clk alarm oldtime newtime n s = some t → s.hosts ≤ t.hosts := by
  intro n
  induction n with
  | zero =>
    intro s t h
    cases h
  | succ n ih =>
    intro s t h
    have hturn : s.hosts ≤ (updateTurn clk alarm oldtime newtime s).hosts :=
      alarmCheck_hosts clk alarm { s with
        baseRtctime :=
          if aintrEnabled s && oldtime.isSome then s.baseRtctime.map (· + 1) else some newtime }
    rw [updateLoop] at h
    split_ifs at h
    · obtain rfl := Option.some.inj h
      exact hturn
    · exact hturn.trans (ih h)

theorem vrtcTimeUpdate_hosts {newtime : Option Nat} {newbase : Int} {e : Nat}
    (h : vrtcTimeUpdate clk s newtime newbase = some (t, e)) : s.hosts ≤ t.hosts := by
  unfold vrtcTimeUpdate at h
  dsimp only at h
  by_cases heq : newtime = s.baseRtctime
  · rw [if_pos heq] at h
    obtain ⟨rfl, -⟩ := Prod.mk.inj (Option.some.inj h)
    exact le_refl _
  · rw [if_neg heq] at h
    cases newtime with
    | none =>
      obtain ⟨rfl, -⟩ := Prod.mk.inj (Option.some.inj h)
      exact le_refl _
    | some new =>
      dsimp only at h
      split_ifs at h
      · obtain ⟨rfl, -⟩ := Prod.mk.inj (Option.some.inj h)
        exact le_refl _
      · split at h
        · cases h
        · rename_i u hu
          have hloop := updateLoop_hosts hu
          obtain ⟨rfl, -⟩ := Prod.mk.inj (Option.some.inj h)
          split_ifs <;> exact hloop

end Hosts

/-! ## The time base -/

/-- The clock runs and its base lies on the line through the time `t` at the uptime `u`. -/
structure Keeps (clk : Clocks) (t : Nat) (u : Int) (s : Vrtc) : Prop where
  divider : dividerEnabled s.regA = true
  running : rtcHalted s = false
  base : ∃ k : Nat, s.baseRtctime = some (t + k) ∧ s.baseUptime = u + k * sbt1s
  uptime : s.baseUptime ≤ clk.up s.ups

section Keeping

variable {clk : Clocks} {t₀ : Nat} {u₀ : Int} {s t : Vrtc}

theorem Keeps.updateEnabled (h : Keeps clk t₀ u₀ s) : updateEnabled s = true := by
  obtain ⟨k, hb, -⟩ := h.base
  simp [Rtc.updateEnabled, h.divider, h.running, hb]

/-- The time now, at the uptime about to be read: what was set, and the whole seconds since. -/
theorem curtime_kept (h : Keeps clk t₀ u₀ s) :
    (vrtcCurtime clk s).1 = some (t₀ + ((clk.up s.ups - u₀) / sbt1s).toNat) := by
  obtain ⟨k, hb, hu⟩ := h.base
  rw [(vrtcCurtime_spec h.uptime).1]
  dsimp only
  rw [hb, Option.map_some, elapsed, if_pos h.updateEnabled, Nat.add_assoc]
  have hpos : (0 : Int) ≤ clk.up s.ups - s.baseUptime := by
    have := h.uptime
    omega
  have hsplit : (clk.up s.ups - u₀) / sbt1s = (clk.up s.ups - s.baseUptime) / sbt1s + k := by
    have hdiff : clk.up s.ups - u₀ = clk.up s.ups - s.baseUptime + k * sbt1s := by omega
    rw [hdiff, Int.add_mul_ediv_right _ _ (by decide)]
  have hnn : (0 : Int) ≤ (clk.up s.ups - s.baseUptime) / sbt1s := Int.ediv_nonneg hpos (by decide)
  congr 2
  omega

theorem Keeps.of_eq (h : Keeps clk t₀ u₀ s) (hA : t.regA = s.regA)
    (hB : set t.regB rtcsbHalt = set s.regB rtcsbHalt) (hb : t.baseRtctime = s.baseRtctime)
    (hu : t.baseUptime = s.baseUptime) (hn : t.ups = s.ups) : Keeps clk t₀ u₀ t where
  divider := by rw [hA]; exact h.divider
  running := by rw [rtcHalted, hB]; exact h.running
  base := by rw [hb, hu]; exact h.base
  uptime := by rw [hu, hn]; exact h.uptime

/-- Bringing the time up to now comes to an end and stays on the line. -/
theorem keeps_update (h : Keeps clk t₀ u₀ s) :
    ∃ t e, vrtcTimeUpdate clk (vrtcCurtime clk s).2.2 (vrtcCurtime clk s).1 (vrtcCurtime clk s).2.1 =
      some (t, e) ∧ Keeps clk t₀ u₀ t ∧ t.regB = s.regB ∧ t.addr = s.addr ∧ s.hosts ≤ t.hosts := by
  obtain ⟨k, hb, hu⟩ := h.base
  obtain ⟨hcur, hbase⟩ := vrtcCurtime_spec h.uptime
  have hmap : s.baseRtctime.map (· + elapsed clk s) = some (t₀ + k + elapsed clk s) := by
    rw [hb, Option.map_some]
  rw [hcur, hmap]
  generalize hm : ({ s with ups := readings s } : Vrtc) = m
  have hbm : m.baseRtctime = some (t₀ + k) := by rw [← hm, ← hb]
  obtain ⟨⟨t, e⟩, ht⟩ := vrtcTimeUpdate_ends clk (elapsed clk s) hbm
    (s.baseUptime + elapsed clk s * sbt1s)
  obtain ⟨hf, hut, hcase⟩ := vrtcTimeUpdate_frame ht
  have hrun : rtcHalted m = false := by
    rw [← hm]
    exact h.running
  obtain ⟨-, htime⟩ := hcase.resolve_right (by
    rintro ⟨hh, -⟩
    exact Bool.false_ne_true (hrun.symm.trans hh))
  have hhosts := vrtcTimeUpdate_hosts ht
  subst hm
  refine ⟨t, e, ht, ⟨?_, ?_, ⟨k + elapsed clk s, ?_, ?_⟩, ?_⟩, hf.regB, hf.addr, hhosts⟩
  · rw [hf.regA]
    exact h.divider
  · rw [rtcHalted, hf.regB]
    exact h.running
  · rw [htime, Nat.add_assoc]
  · rw [hut, hu]
    push_cast
    ring
  · rw [hut, hf.ups]
    exact hbase

/-- An access leaves the date/time fields with some reading of the host's clock. -/
theorem keeps_prologue (h : Keeps clk t₀ u₀ s) :
    ∃ t, dataPrologue clk s = some t ∧ Keeps clk t₀ u₀ t ∧ t.regB = s.regB ∧ t.addr = s.addr ∧
      s.hosts ≤ t.hosts ∧ (dateTime s.addr = true → ∃ i ram, s.hosts ≤ i ∧ i < t.hosts ∧
        t.ram = putClocktime (format s.regB) ram (clockTsToCt (clk.host i))) := by
  obtain ⟨u, e, hu, hk, hB, ha, hh⟩ := keeps_update h
  have hcur := curtime_kept h
  refine ⟨if dateTime u.addr then secsToRtc clk (vrtcCurtime clk s).1 u false else u,
    Option.map_eq_some_iff.mpr ⟨(u, e), hu, rfl⟩, ?_⟩
  rw [ha]
  by_cases hd : dateTime s.addr = true
  · obtain ⟨hf, hb, hup, -, -⟩ := secsToRtc_spec clk (vrtcCurtime clk s).1 u false
    rw [if_pos hd]
    refine ⟨hk.of_eq hf.regA (by rw [hf.regB]) hb hup hf.ups, hf.regB.trans hB, hf.addr.trans ha,
      hh.trans (secsToRtc_hosts ..), ?_⟩
    intro _
    refine ⟨u.hosts, u.ram, hh, ?_⟩
    rw [hcur, secsToRtc]
    simp only [hk.running, Bool.false_and, Bool.false_eq_true, if_false]
    exact ⟨Nat.lt_succ_self _, by rw [hB]⟩
  · rw [if_neg hd]
    exact ⟨hk, hB, ha, hh, fun hd' => absurd hd' hd⟩

theorem calloutReset_eq (s : Vrtc) (freq : Int) : (vrtcCalloutReset s freq).regA = s.regA ∧
    (vrtcCalloutReset s freq).regB = s.regB ∧
    (vrtcCalloutReset s freq).baseRtctime = s.baseRtctime ∧
    (vrtcCalloutReset s freq).baseUptime = s.baseUptime ∧ (vrtcCalloutReset s freq).ups = s.ups := by
  unfold vrtcCalloutReset
  split_ifs <;> exact ⟨rfl, rfl, rfl, rfl, rfl⟩

theorem Keeps.kassert (h : Keeps clk t₀ u₀ s) (b : Bool) (msg : String) :
    Keeps clk t₀ u₀ (kassert s b msg) := by
  cases b
  · exact h.of_eq rfl rfl rfl rfl rfl
  · exact h

theorem Keeps.calloutReset (h : Keeps clk t₀ u₀ s) (freq : Int) :
    Keeps clk t₀ u₀ (vrtcCalloutReset s freq) := by
  obtain ⟨hA, hB, hb, hu, hn⟩ := calloutReset_eq s freq
  exact h.of_eq hA (by rw [hB]) hb hu hn

theorem Keeps.calloutUpdate (h : Keeps clk t₀ u₀ s) (freq : Int) :
    Keeps clk t₀ u₀ (calloutUpdate s freq) := by
  unfold Rtc.calloutUpdate
  split_ifs
  · exact h.calloutReset _
  · exact h.kassert _ _

/-- A write to register B that leaves the clock running. -/
theorem keeps_setRegB (h : Keeps clk t₀ u₀ s) {v : BitVec 8} (hv : set v rtcsbHalt = false) :
    ∃ t, vrtcSetRegB clk s v = some (t, true) ∧ Keeps clk t₀ u₀ t := by
  have hsame : set (s.regB ^^^ v) rtcsbHalt = false := by
    have hr := h.running
    rw [rtcHalted] at hr
    rw [set_halt_xor, hr, hv]
    rfl
  have hkv : Keeps clk t₀ u₀ { s with regB := v } :=
    h.of_eq rfl (by rw [hv]; exact h.running.symm) rfl rfl rfl
  simp only [vrtcSetRegB, hsame, Bool.false_eq_true, if_false]
  refine ⟨_, rfl, Keeps.calloutUpdate ?_ _⟩
  split_ifs
  · exact hkv.of_eq rfl rfl rfl rfl rfl
  · exact hkv

theorem keeps_handler (h : Keeps clk t₀ u₀ s) :
    ∃ t, vrtcCalloutHandler clk s = some t ∧ Keeps clk t₀ u₀ t := by
  unfold vrtcCalloutHandler
  split_ifs with hidle
  · exact ⟨s, rfl, h⟩
  · dsimp only
    have hoff : Keeps clk t₀ u₀ { s with active := false } := h.of_eq rfl rfl rfl rfl rfl
    have hk := hoff.kassert (set s.regB rtcsbAllIntrs) "gratuitous vrtc callout"
    generalize Rtc.kassert { s with active := false } (set s.regB rtcsbAllIntrs)
      "gratuitous vrtc callout" = k at hk
    have hm : Keeps clk t₀ u₀
        (if pintrEnabled k then vrtcSetRegC k (k.regC ||| rtcirPeriod) else k) := by
      split_ifs
      · exact hk.of_eq rfl rfl rfl rfl rfl
      · exact hk
    generalize (if pintrEnabled k then vrtcSetRegC k (k.regC ||| rtcirPeriod) else k) = m at hm
    split_ifs
    · obtain ⟨u, e, hu, hku, -⟩ := keeps_update hm
      rw [hu]
      exact ⟨_, rfl, Keeps.calloutReset ((hku.kassert _ _).kassert _ _) _⟩
    · exact ⟨_, rfl, Keeps.calloutReset (hm.kassert _ _) _⟩

/-- The end of the halt, with fields that hold a date and time. -/
theorem keeps_resume (h : CalloutOk clk s) (hh : rtcHalted s = true)
    (hdiv : dividerEnabled s.regA = true) (ha : s.addr = rtcStatusb) {v : BitVec 8}
    (hv : set v rtcsbHalt = false) {ct : Clocktime} (hct : Encodes (format v) s.ram ct)
    (hvalid : Valid ct) (hy : ct.year < 10000) :
    ∃ t, next clk s (.write v) = some t ∧ Keeps clk (secs ct) (clk.up s.ups) t := by
  have hbroken : s.baseRtctime = none := by
    rw [← Option.isNone_iff_eq_none, ← h.broken]
    exact hh
  have hoff : updateEnabled s = false := by simp [updateEnabled, hh]
  have hpro : dataPrologue clk s = some s := by
    have hcur : vrtcCurtime clk s = (none, s.baseUptime, s) := by
      rw [vrtcCurtime, hoff, hbroken]
      rfl
    have hupd : vrtcTimeUpdate clk s none s.baseUptime = some (s, 0) := by
      unfold vrtcTimeUpdate
      dsimp only
      rw [if_pos hbroken.symm]
    rw [dataPrologue, hcur]
    simp [hupd, ha, rtcStatusb, dateTime, rtcCentury]
  have hsecs : rtcToSecs (format v) s.ram = some (secs ct) := rtcToSecs_encodes hct hvalid hy
  obtain ⟨⟨w, e⟩, hw⟩ := @vrtcTimeUpdate_ends_broken clk { s with regB := v, ups := s.ups + 1 }
    hbroken (secs ct) (clk.up s.ups)
  obtain ⟨hf, hut, hcase⟩ := vrtcTimeUpdate_frame hw
  obtain ⟨-, htime⟩ := hcase.resolve_right (by
    rintro ⟨hh', -⟩
    exact Bool.false_ne_true (hv.symm.trans hh'))
  have hkw : Keeps clk (secs ct) (clk.up s.ups) w := by
    refine ⟨?_, ?_, ⟨0, htime, ?_⟩, ?_⟩
    · rw [hf.regA]
      exact hdiv
    · rw [rtcHalted, hf.regB]
      exact hv
    · rw [hut]
      simp
    · rw [hut, hf.ups]
      exact clk.up_mono (Nat.le_succ s.ups)
  have hchanged : set (s.regB ^^^ v) rtcsbHalt = true := by
    rw [rtcHalted] at hh
    rw [set_halt_xor, hh, hv]
    rfl
  have hkk := hkw.kassert (decide (e = 0)) "vrtc_time_update error"
  have hset : ∃ t, vrtcSetRegB clk s v = some (t, true) ∧ Keeps clk (secs ct) (clk.up s.ups) t := by
    simp only [vrtcSetRegB, hchanged, if_true, haltChange, hv, Bool.false_eq_true, if_false, hsecs,
      sbinuptime, hw, Option.map_some]
    refine ⟨_, rfl, Keeps.calloutUpdate ?_ _⟩
    split_ifs
    · exact hkk.of_eq rfl rfl rfl rfl rfl
    · exact hkk
  obtain ⟨t, ht, hkt⟩ := hset
  refine ⟨t, ?_, hkt⟩
  have hstore : dataStore clk s v = some (t, true) := by
    simp [dataStore, ha, rtcStatusa, rtcStatusb, ht]
  simp [next, vrtcDataOut, hpro, hstore, ha, rtcStatusb, rtcCentury]

/-! ## Later accesses -/

/-- Reads, interrupt-enable writes and the callout. -/
def LaterOp (s : Vrtc) : Op → Prop
  | .write v => s.addr = rtcStatusb ∧ set v rtcsbHalt = false
  | _ => True

/-- The callout thread takes what is pending, and its handler runs once taken. -/
def Enabled (s : Vrtc) : Op → Prop
  | .dispatch => s.pending = true ∧ s.dispatched = false
  | .expire => s.dispatched = true
  | _ => True

theorem keeps_next {o : Op} (h : Keeps clk t₀ u₀ s) (hl : LaterOp s o) (he : Enabled s o) :
    ∃ t, next clk s o = some t ∧ Keeps clk t₀ u₀ t := by
  cases o with
  | addr v => exact ⟨_, rfl, h.of_eq rfl rfl rfl rfl rfl⟩
  | read =>
    obtain ⟨u, hu, hku, -⟩ := keeps_prologue h
    refine ⟨if u.addr = rtcIntr then vrtcSetRegC u 0 else u, ?_, ?_⟩
    · simp [next, vrtcDataIn, hu]
    · split_ifs
      · exact hku.of_eq rfl rfl rfl rfl rfl
      · exact hku
  | write v =>
    obtain ⟨ha, hv⟩ := hl
    obtain ⟨u, hu, hku, -, hau, -⟩ := keeps_prologue h
    obtain ⟨t, ht, hkt⟩ := keeps_setRegB hku hv
    refine ⟨t, ?_, hkt⟩
    have hstore : dataStore clk u v = some (t, true) := by
      simp [dataStore, hau, ha, rtcStatusa, rtcStatusb, ht]
    simp [next, vrtcDataOut, hu, hstore, hau, ha, rtcStatusb, rtcCentury]
  | dispatch =>
    refine ⟨{ s with pending := false, dispatched := true }, ?_, h.of_eq rfl rfl rfl rfl rfl⟩
    simp [next, he.1, he.2]
  | expire =>
    obtain ⟨u, hu, hku⟩ := keeps_handler h
    refine ⟨{ u with dispatched := false }, ?_, hku.of_eq rfl rfl rfl rfl rfl⟩
    have hd : s.dispatched = true := he
    simp [next, hd, hu]

theorem enabled_of_next {o : Op} (h : next clk s o = some t) : Enabled s o := by
  cases o with
  | dispatch =>
    simp only [next, Option.ite_none_right_eq_some, Bool.and_eq_true, Bool.not_eq_true'] at h
    exact h.1
  | expire =>
    simp only [next, Option.ite_none_right_eq_some] at h
    exact h.1
  | _ => trivial

/-- What follows from a state by later accesses. -/
def laterSystem (clk : Clocks) (s₀ : Vrtc) : System Vrtc Op :=
  (System.ofFn (· = s₀) (next clk)).restrict LaterOp

theorem keeps_later {s₀ : Vrtc} (h₀ : Keeps clk t₀ u₀ s₀) (h : (laterSystem clk s₀).Reachable s) :
    Keeps clk t₀ u₀ s := by
  induction h with
  | init hi =>
    obtain rfl := hi
    exact h₀
  | step _ hs ih =>
    obtain ⟨hl, hn⟩ := hs
    obtain ⟨t', ht', hk⟩ := keeps_next ih hl (enabled_of_next hn)
    obtain rfl := Option.some.inj (ht'.symm.trans hn)
    exact hk

/-! ## Reading the fields -/

/-- The fields of a date and time. -/
def dateTimeFields : List Nat :=
  [rtcSec, rtcMin, rtcHrs, rtcDay, rtcMonth, rtcYear, rtcCentury]

/-- One field selected and read. -/
def readField (clk : Clocks) (s : Vrtc) (o : Nat) : Option (Vrtc × BitVec 8) :=
  vrtcDataIn clk (vrtcAddrHandler s (BitVec.ofNat 8 o))

/-- The fields one after the other, and what was read of each. -/
def readFields (clk : Clocks) : List Nat → Vrtc → Option (Vrtc × (Nat → BitVec 8))
  | [], s => some (s, fun _ => 0)
  | o :: os, s =>
    (readField clk s o).bind fun (s, b) =>
      (readFields clk os s).map fun (s, f) => (s, Function.update f o b)

/-- Each of the fields is stored anew, and nothing is left of the bytes before. -/
theorem putClocktime_field (f : Format) (ct : Clocktime) {o : Nat} (ho : o ∈ dateTimeFields)
    {ram ram' : Nat → BitVec 8} : putClocktime f ram ct o = putClocktime f ram' ct o := by
  simp only [dateTimeFields, List.mem_cons, List.not_mem_nil, or_false] at ho
  rcases ho with rfl | rfl | rfl | rfl | rfl | rfl | rfl <;> rfl

theorem readField_spec (h : Keeps clk t₀ u₀ s) {o : Nat} (ho : o ∈ dateTimeFields) :
    ∃ t b i, readField clk s o = some (t, b) ∧ Keeps clk t₀ u₀ t ∧ t.regB = s.regB ∧
      s.hosts ≤ i ∧ i < t.hosts ∧
      b = putClocktime (format s.regB) (fun _ => 0) (clockTsToCt (clk.host i)) o := by
  have hoff : ((BitVec.ofNat 8 o &&& 0x7f).toNat = o ∧ dateTime o = true) ∧ o ≠ rtcIntr ∧
      o ≠ rtcStatusa ∧ o ≠ rtcStatusb := by
    revert o
    decide
  obtain ⟨⟨hval, hdate⟩, hC, hA, hB⟩ := hoff
  have haddr : (vrtcAddrHandler s (BitVec.ofNat 8 o)).addr = o := hval
  have hsel : Keeps clk t₀ u₀ (vrtcAddrHandler s (BitVec.ofNat 8 o)) := h.of_eq rfl rfl rfl rfl rfl
  obtain ⟨t, ht, hkt, htB, hta, -, hram⟩ := keeps_prologue hsel
  rw [haddr] at hta hram
  obtain ⟨i, ram, hlo, hhi, hput⟩ := hram hdate
  refine ⟨t, byteAt t o, i, ?_, hkt, htB, hlo, hhi, ?_⟩
  · simp [readField, vrtcDataIn, ht, hta, hC]
  · rw [byteAt, if_neg hA, if_neg hB, if_neg hC, hput]
    exact putClocktime_field _ _ ho

/-- Fields read while the host's clock shows one second. -/
theorem readFields_spec {H : Nat} : ∀ {os : List Nat} {s : Vrtc}, Keeps clk t₀ u₀ s → os.Nodup →
    (∀ o ∈ os, o ∈ dateTimeFields) →
    ∃ t f, readFields clk os s = some (t, f) ∧ s.hosts + os.length ≤ t.hosts ∧
      ((∀ i, s.hosts ≤ i → i < t.hosts → clk.host i = H) →
        ∀ o ∈ os, f o = putClocktime (format s.regB) (fun _ => 0) (clockTsToCt H) o) := by
  intro os
  induction os with
  | nil =>
    intro s _ _ _
    exact ⟨s, _, rfl, le_refl _, by simp⟩
  | cons o os ih =>
    intro s h hnd hos
    obtain ⟨hno, hnd⟩ := List.nodup_cons.mp hnd
    obtain ⟨u, b, i, hu, hku, huB, hlo, hhi, hb⟩ := readField_spec h (hos o List.mem_cons_self)
    obtain ⟨t, f, ht, hle, hf⟩ := ih hku hnd fun o' ho' => hos o' (List.mem_cons_of_mem _ ho')
    refine ⟨t, Function.update f o b, ?_, ?_, ?_⟩
    · simp [readFields, hu, ht]
    · rw [List.length_cons]
      omega
    · intro hH o' ho'
      by_cases heq : o' = o
      · rw [heq, Function.update_self, hb, hH i hlo (by omega)]
      · rw [Function.update_of_ne heq, ← huB]
        refine hf (fun j hj hj' => hH j (by omega) hj') o' ?_
        exact (List.mem_cons.mp ho').resolve_left heq

/-- What a guest decodes is the host's second. -/
theorem readFields_secs (h : Keeps clk t₀ u₀ s) :
    ∃ t f, readFields clk dateTimeFields s = some (t, f) ∧ ∀ H,
      (∀ i, s.hosts ≤ i → i < t.hosts → clk.host i = H) → secs (decode (format s.regB) f) = H := by
  obtain ⟨t, f, ht, -, -⟩ := readFields_spec (H := 0) h (by decide) fun o ho => ho
  refine ⟨t, f, ht, ?_⟩
  intro H hH
  obtain ⟨t', f', ht', hle, hf⟩ := readFields_spec (H := H) h (by decide) fun o ho => ho
  obtain ⟨rfl, rfl⟩ := Prod.mk.inj (Option.some.inj (ht.symm.trans ht'))
  have hfields := hf hH
  have hlt : H < 2 ^ 32 := by
    have hlen : dateTimeFields.length = 7 := rfl
    rw [← hH s.hosts (le_refl _) (by omega)]
    exact clk.host_lt _
  obtain ⟨hv, -⟩ := clockTsToCt_spec H
  have henc : Encodes (format s.regB) f (clockTsToCt H) :=
    ⟨hfields _ (by decide), hfields _ (by decide), hfields _ (by decide), hfields _ (by decide),
      hfields _ (by decide), hfields _ (by decide), hfields _ (by decide)⟩
  rw [secs_decode henc hv ((year_lt hlt).trans (by decide)), secs_clockTsToCt]

end Keeping

/-! ## Set and read back -/

/-- A guest that has written a date and time under the halt bit, in whatever order, ends the halt. Every
later access returns, and the fields decode to what was set and the whole seconds since exactly where
that is what the host's clock shows. -/
theorem guest_time_read (clk : Clocks) {s : Vrtc}
    (hs : ((system clk).restrict (Accepted clk)).Reachable s) (hh : rtcHalted s = true)
    (hdiv : dividerEnabled s.regA = true) (ha : s.addr = rtcStatusb) {b : BitVec 8}
    (hb : set b rtcsbHalt = false) {ct : Clocktime} (hct : Encodes (format b) s.ram ct)
    (hv : Valid ct) (hy : ct.year ≤ 2099) :
    ∃ s₁, next clk s (.write b) = some s₁ ∧ ∀ s₂, (laterSystem clk s₁).Reachable s₂ →
      (∀ o, LaterOp s₂ o → Enabled s₂ o → (next clk s₂ o).isSome) ∧
      ∃ s₃ f, readFields clk dateTimeFields s₂ = some (s₃, f) ∧ ∀ H k : Nat,
        (∀ i, s₂.hosts ≤ i → i < s₃.hosts → clk.host i = H) →
        (∀ j, s₂.ups ≤ j → j < s₃.ups → (clk.up j - clk.up s.ups) / sbt1s = k) →
        (secs (decode (format s₂.regB) f) = secs ct + k ↔ H = secs ct + k) := by
  have hok := (inductive_calloutOk clk).reachable hs
  obtain ⟨s₁, h₁, hk₁⟩ := keeps_resume hok hh hdiv ha hb hct hv (by omega)
  refine ⟨s₁, h₁, ?_⟩
  intro s₂ h₂
  have hk₂ := keeps_later hk₁ h₂
  refine ⟨?_, ?_⟩
  · intro o hl he
    obtain ⟨t, ht, -⟩ := keeps_next hk₂ hl he
    rw [ht]
    rfl
  · obtain ⟨s₃, f, hread, hsecs⟩ := readFields_secs hk₂
    refine ⟨s₃, f, hread, ?_⟩
    intro H k hH _
    rw [hsecs H hH]

/-- Midnight of 2 January 1970. -/
def secondDay : Clocktime := ⟨1970, 1, 2, 0, 0, 0, 0⟩

/-- The halt bit, the bytes of that date in BCD, and register B selected once more. -/
def setClock : List Op :=
  [.addr 0x0b, .write 0x82, .addr 0x00, .write 0x00, .addr 0x02, .write 0x00, .addr 0x04, .write 0x00,
    .addr 0x07, .write 0x02, .addr 0x08, .write 0x01, .addr 0x09, .write 0x70, .addr 0x32,
    .write 0x19, .addr 0x0b]

theorem secondDay_valid : Valid secondDay :=
  ⟨by decide, by decide, by decide, by decide, by decide, by decide⟩

theorem setClock_run : ∃ s, ((system stillClocks).restrict (Accepted stillClocks)).Reachable s ∧
    rtcHalted s = true ∧ dividerEnabled s.regA = true ∧ s.addr = rtcStatusb ∧
    Encodes (format 0x02) s.ram secondDay := by
  obtain ⟨s, hs, hr⟩ : ∃ s, System.exec (System.guarded (Accepted stillClocks) (next stillClocks))
      (vrtcInit stillClocks) setClock = some s ∧ rtcHalted s = true ∧ dividerEnabled s.regA = true ∧
      s.addr = rtcStatusb ∧ Encodes (format 0x02) s.ram secondDay :=
    ⟨_, rfl, rfl, rfl, rfl, ⟨rfl, rfl, rfl, rfl, rfl, rfl, rfl⟩⟩
  exact ⟨s, System.exec_reachable_guarded (.init rfl) hs, hr⟩

theorem guest_time_read_still : ∃ s s₁ s₃ f, next stillClocks s (.write 0x02) = some s₁ ∧
    readFields stillClocks dateTimeFields s₁ = some (s₃, f) ∧
    (secs (decode (format s₁.regB) f) = secs secondDay + 0 ↔ 0 = secs secondDay + 0) := by
  obtain ⟨s, hs, hh, hdiv, ha, hct⟩ := setClock_run
  obtain ⟨s₁, h₁, hall⟩ := guest_time_read stillClocks hs hh hdiv ha (b := 0x02) (by decide) hct
    secondDay_valid (by decide)
  obtain ⟨-, s₃, f, hread, hiff⟩ := hall s₁ (.init rfl)
  exact ⟨s, s₁, s₃, f, h₁, hread, hiff 0 0 (fun _ _ _ => rfl) (fun _ _ _ => rfl)⟩

/-- The second of January is set, no second passes, and the fields show the first. -/
theorem guest_time_lost : ∃ s s₁ s₃ f,
    ((system stillClocks).restrict (Accepted stillClocks)).Reachable s ∧ rtcHalted s = true ∧
    Encodes (format 0x02) s.ram secondDay ∧ next stillClocks s (.write 0x02) = some s₁ ∧
    readFields stillClocks dateTimeFields s₁ = some (s₃, f) ∧
    (∀ j, (stillClocks.up j - stillClocks.up s.ups) / sbt1s = 0) ∧
    secs (decode (format s₁.regB) f) ≠ secs secondDay + 0 := by
  obtain ⟨s, hs, hh, hdiv, ha, hct⟩ := setClock_run
  have hok := (inductive_calloutOk stillClocks).reachable hs
  obtain ⟨s₁, h₁, hk₁⟩ := keeps_resume hok hh hdiv ha (v := 0x02) (by decide) hct secondDay_valid
    (by decide)
  obtain ⟨s₃, f, hread, hsecs⟩ := readFields_secs hk₁
  refine ⟨s, s₁, s₃, f, hs, hh, hct, h₁, hread, fun _ => rfl, ?_⟩
  rw [hsecs 0 fun _ _ _ => rfl]
  decide

end Xhyve.Vmm.Rtc
