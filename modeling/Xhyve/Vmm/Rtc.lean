import Mathlib.Data.Int.ConditionallyCompleteOrder
import Xhyve.Lib.Transition
import Xhyve.Vmm.RtcClock

/-!
# The real-time clock

Registers, time base and callout as the port handlers and the callout's handler change them. The clocks
of the host are sequences of readings, and the state counts how many of each were taken. A failed
assertion is noted and the code goes on, as it does where `KASSERT` is compiled out.
-/

namespace Xhyve.Vmm.Rtc

open Xhyve.Lib

def rtcsbUintr : BitVec 8 := 0x10
def rtcsbAintr : BitVec 8 := 0x20
def rtcsbPintr : BitVec 8 := 0x40
def rtcsbHalt : BitVec 8 := 0x80
def rtcsbAllIntrs : BitVec 8 := rtcsbUintr ||| rtcsbAintr ||| rtcsbPintr
def rtcirUpdate : BitVec 8 := 0x10
def rtcirAlarm : BitVec 8 := 0x20
def rtcirPeriod : BitVec 8 := 0x40
def rtcirInt : BitVec 8 := 0x80
def rtcsaTup : BitVec 8 := 0x80
def rtcStatusa : Nat := 10
def rtcStatusb : Nat := 11
def rtcIntr : Nat := 12
def rtcStatusd : Nat := 13
def rtcsdPwr : BitVec 8 := 0x80
def ebusy : Nat := 16

/-- `SBT_1S`. -/
def sbt1s : Int := 2 ^ 32

/-- The readings of `sbinuptime` and of the seconds of the host's calendar clock. -/
structure Clocks where
  up : Nat → Int
  host : Nat → Nat
  up_mono : Monotone up
  host_lt : ∀ i, host i < 2 ^ 32

theorem epoch_lt (_ : Nat) : 0 < 2 ^ 32 := by decide

/-- What `vrtc_set_reg_c` found: whether an enabled flag is set, and whether it pulsed the line. -/
structure Sample where
  raised : Bool
  pulsed : Bool
deriving DecidableEq, Repr

structure Vrtc where
  /-- `CALLOUT_ACTIVE` and `CALLOUT_PENDING`. -/
  active : Bool
  pending : Bool
  /-- The callout thread has taken the callout and waits for the lock. -/
  dispatched : Bool
  addr : Nat
  baseUptime : Int
  baseRtctime : Option Nat
  regA : BitVec 8
  regB : BitVec 8
  regC : BitVec 8
  /-- The other bytes of `rtcdev`. -/
  ram : Nat → BitVec 8
  /-- Readings taken of each clock. -/
  ups : Nat
  hosts : Nat
  /-- Newest first. -/
  samples : List Sample
  /-- Assertions that failed. -/
  failed : List String

def kassert (s : Vrtc) (exp : Bool) (msg : String) : Vrtc :=
  if exp then s else { s with failed := msg :: s.failed }

def set (reg mask : BitVec 8) : Bool := reg &&& mask ≠ 0

def dividerEnabled (regA : BitVec 8) : Bool := regA &&& 0x70 = 0x20

def rtcHalted (s : Vrtc) : Bool := set s.regB rtcsbHalt
def aintrEnabled (s : Vrtc) : Bool := set s.regB rtcsbAintr
def pintrEnabled (s : Vrtc) : Bool := set s.regB rtcsbPintr
def uintrEnabled (s : Vrtc) : Bool := set s.regB rtcsbUintr

def updateEnabled (s : Vrtc) : Bool :=
  dividerEnabled s.regA && !rtcHalted s && s.baseRtctime.isSome

section Handlers

variable (clk : Clocks)

/-- `sbinuptime`, read once more. -/
def sbinuptime (s : Vrtc) : Int × Vrtc := (clk.up s.ups, { s with ups := s.ups + 1 })

/-- `vrtc_curtime`, with the base time of the whole second. -/
def vrtcCurtime (s : Vrtc) : Option Nat × Int × Vrtc :=
  if updateEnabled s then
    let (now, s) := sbinuptime clk s
    let delta := now - s.baseUptime
    let s := kassert s (0 ≤ delta) "vrtc_curtime: uptime went backwards"
    let secs := delta.tdiv sbt1s
    (s.baseRtctime.map (· + secs.toNat), s.baseUptime + secs * sbt1s, s)
  else (s.baseRtctime, s.baseUptime, s)

/-- `secs_to_rtc`: the date and time put into the fields are the host's. -/
def secsToRtc (rtctime : Option Nat) (s : Vrtc) (forceUpdate : Bool) : Vrtc :=
  match rtctime with
  | none => s
  | some _ =>
    if rtcHalted s && !forceUpdate then s
    else
      { s with
        ram := putClocktime (format s.regB) s.ram (clockTsToCt (clk.host s.hosts))
        hosts := s.hosts + 1 }

/-- Whether a flag is set together with its enable bit. -/
def raised (regB regC : BitVec 8) : Bool :=
  (set regB rtcsbAintr && set regC rtcirAlarm) || (set regB rtcsbPintr && set regC rtcirPeriod) ||
    (set regB rtcsbUintr && set regC rtcirUpdate)

def vrtcSetRegC (s : Vrtc) (newval : BitVec 8) : Vrtc :=
  let newval := newval &&& (rtcirAlarm ||| rtcirPeriod ||| rtcirUpdate)
  let oldirqf := set s.regC rtcirInt
  let newirqf := raised s.regB newval
  { s with
    regC := (if newirqf then rtcirInt else 0) ||| newval
    samples := ⟨newirqf, !oldirqf && newirqf⟩ :: s.samples }

/-- The alarm bytes against the time bytes; `0xC0` and above match any. -/
def alarmMatches (alarm : BitVec 8 × BitVec 8 × BitVec 8) (s : Vrtc) : Bool :=
  (0xC0 ≤ alarm.1.toNat || alarm.1 = s.ram rtcSec) &&
    (0xC0 ≤ alarm.2.1.toNat || alarm.2.1 = s.ram rtcMin) &&
    (0xC0 ≤ alarm.2.2.toNat || alarm.2.2 = s.ram rtcHrs)

/-- The fields are brought up to date before they are compared. -/
def alarmCheck (alarm : BitVec 8 × BitVec 8 × BitVec 8) (s : Vrtc) : Vrtc :=
  if aintrEnabled s then
    let s := secsToRtc clk s.baseRtctime s false
    if alarmMatches alarm s then vrtcSetRegC s (s.regC ||| rtcirAlarm) else s
  else s

/-- The body of the loop in `vrtc_time_update`. -/
def updateTurn (alarm : BitVec 8 × BitVec 8 × BitVec 8) (oldtime : Option Nat) (newtime : Nat)
    (s : Vrtc) : Vrtc :=
  alarmCheck clk alarm { s with
    baseRtctime :=
      if aintrEnabled s && oldtime.isSome then s.baseRtctime.map (· + 1) else some newtime }

/-- That loop, for so many turns at most. -/
def updateLoop (alarm : BitVec 8 × BitVec 8 × BitVec 8) (oldtime : Option Nat) (newtime : Nat) :
    Nat → Vrtc → Option Vrtc
  | 0, _ => none
  | n + 1, s =>
    let s := updateTurn clk alarm oldtime newtime s
    if s.baseRtctime = some newtime then some s else updateLoop alarm oldtime newtime n s

/-- `vrtc_time_update` with its error; `none` where its loop does not end, the new time being behind
the old one with the alarm enabled. -/
def vrtcTimeUpdate (s : Vrtc) (newtime : Option Nat) (newbase : Int) : Option (Vrtc × Nat) :=
  let alarm := (s.ram 1, s.ram 3, s.ram 5)
  let oldtime := s.baseRtctime
  let s := { s with baseUptime := newbase }
  if newtime = oldtime then some (s, 0)
  else
    match newtime with
    | none => some ({ s with baseRtctime := none }, 0)
    | some new =>
      if rtcHalted s then some (s, ebusy)
      else
        match updateLoop clk alarm oldtime new (new + 1) s with
        | none => none
        | some s =>
          some (if uintrEnabled s then vrtcSetRegC s (s.regC ||| rtcirUpdate) else s, 0)

/-- The periods of the rate selection, in `sbintime_t`. -/
def pf : List Int :=
  [0, sbt1s / 256, sbt1s / 128, sbt1s / 8192, sbt1s / 4096, sbt1s / 2048, sbt1s / 1024, sbt1s / 512,
    sbt1s / 256, sbt1s / 128, sbt1s / 64, sbt1s / 32, sbt1s / 16, sbt1s / 8, sbt1s / 4, sbt1s / 2]

def vrtcFreq (s : Vrtc) : Int :=
  if pintrEnabled s && dividerEnabled s.regA then pf.getD (s.regA &&& 0xf).toNat 0
  else if aintrEnabled s && updateEnabled s then sbt1s
  else if uintrEnabled s && updateEnabled s then sbt1s
  else 0

def vrtcCalloutReset (s : Vrtc) (freqsbt : Int) : Vrtc :=
  if freqsbt = 0 then
    if s.active then { s with active := false, pending := false } else s
  else { s with active := true, pending := true }

def vrtcCalloutCheck (s : Vrtc) (freq : Int) : Vrtc :=
  kassert s ((freq = 0 && !s.active) || (freq ≠ 0 && s.active)) "vrtc callout with frequency"

/-- The callout's new frequency, where it has one. -/
def calloutUpdate (s : Vrtc) (oldfreq : Int) : Vrtc :=
  if vrtcFreq s ≠ oldfreq then vrtcCalloutReset s (vrtcFreq s) else vrtcCalloutCheck s (vrtcFreq s)

/-- `vrtc_callout_handler` under the lock. -/
def vrtcCalloutHandler (s : Vrtc) : Option Vrtc :=
  if s.pending || !s.active then some s
  else
    let s := { s with active := false }
    let s := kassert s (set s.regB rtcsbAllIntrs) "gratuitous vrtc callout"
    let s := if pintrEnabled s then vrtcSetRegC s (s.regC ||| rtcirPeriod) else s
    let updated :=
      if aintrEnabled s || uintrEnabled s then
        let (rtctime, basetime, s) := vrtcCurtime clk s
        (vrtcTimeUpdate clk s rtctime basetime).map fun (s, error) =>
          kassert s (error = 0) "vrtc_callout_handler: vrtc_time_update error"
      else some s
    updated.map fun s =>
      vrtcCalloutReset (kassert s (vrtcFreq s ≠ 0) "vrtc frequency cannot be zero") (vrtcFreq s)

/-- The `RTCSB_HALT` part of `vrtc_set_reg_b`: the state with the time updated, or the early return. -/
def haltChange (s : Vrtc) (newval : BitVec 8) : Option (Vrtc × Bool) :=
  if set newval rtcsbHalt then
    let (curtime, basetime, s) := vrtcCurtime clk s
    let s := kassert s (curtime = s.baseRtctime) "mismatch between vrtc basetime and curtime"
    let s := secsToRtc clk curtime s true
    let s := { s with regB := s.regB &&& ~~~rtcsbUintr }
    (vrtcTimeUpdate clk s none basetime).map fun (s, error) =>
      (kassert s (error = 0) "vrtc_time_update error", true)
  else
    let rtctime := rtcToSecs (format s.regB) s.ram
    let (basetime, s) := sbinuptime clk s
    match rtctime with
    | none => some (s, false)
    | some t =>
      (vrtcTimeUpdate clk s (some t) basetime).map fun (s, error) =>
        (kassert s (error = 0) "vrtc_time_update error", true)

/-- `vrtc_set_reg_b`, and whether it returned success. -/
def vrtcSetRegB (s : Vrtc) (newval : BitVec 8) : Option (Vrtc × Bool) :=
  let oldfreq := vrtcFreq s
  let changed := s.regB ^^^ newval
  let s := { s with regB := newval }
  match if set changed rtcsbHalt then haltChange clk s newval else some (s, true) with
  | none => none
  | some (s, false) => some (s, false)
  | some (s, true) =>
    let s := if set changed rtcsbAllIntrs then vrtcSetRegC s s.regC else s
    some (calloutUpdate s oldfreq, true)

def vrtcSetRegA (s : Vrtc) (newval : BitVec 8) : Vrtc :=
  let newval := newval &&& ~~~rtcsaTup
  let oldfreq := vrtcFreq s
  let s :=
    if !dividerEnabled s.regA && dividerEnabled newval then
      let (now, s) := sbinuptime clk s
      { s with baseUptime := now }
    else s
  calloutUpdate { s with regA := newval } oldfreq

/-! ## The ports -/

/-- `vrtc_addr_handler` for a write. -/
def vrtcAddrHandler (s : Vrtc) (val : BitVec 8) : Vrtc := { s with addr := (val &&& 0x7f).toNat }

/-- A date/time offset. -/
def dateTime (offset : Nat) : Bool := offset < 10 || offset = rtcCentury

/-- What `vrtc_data_handler` does before it looks at the direction. -/
def dataPrologue (s : Vrtc) : Option Vrtc :=
  let (curtime, basetime, s) := vrtcCurtime clk s
  (vrtcTimeUpdate clk s curtime basetime).map fun (s, _) =>
    if dateTime s.addr then secsToRtc clk curtime s false else s

/-- The byte at an offset. -/
def byteAt (s : Vrtc) (offset : Nat) : BitVec 8 :=
  if offset = rtcStatusa then s.regA
  else if offset = rtcStatusb then s.regB
  else if offset = rtcIntr then s.regC
  else s.ram offset

/-- `vrtc_data_handler` for a read. -/
def vrtcDataIn (s : Vrtc) : Option (Vrtc × BitVec 8) :=
  (dataPrologue clk s).map fun s =>
    (if s.addr = rtcIntr then vrtcSetRegC s 0 else s, byteAt s s.addr)

/-- A plain store; the high bit of the seconds is read-only. -/
def storeByte (s : Vrtc) (val : BitVec 8) : Vrtc :=
  { s with ram := Function.update s.ram s.addr (if s.addr = rtcSec then val &&& 0x7f else val) }

/-- The switch over the register written. -/
def dataStore (s : Vrtc) (val : BitVec 8) : Option (Vrtc × Bool) :=
  if s.addr = rtcStatusa then some (vrtcSetRegA clk s val, true)
  else if s.addr = rtcStatusb then vrtcSetRegB clk s val
  else if s.addr = rtcIntr ∨ s.addr = rtcStatusd then some (s, true)
  else some (storeByte s val, true)

/-- A century written while updates run: the time is calculated anew. -/
def centuryStored (s : Vrtc) : Option (Vrtc × Bool) :=
  let curtime := rtcToSecs (format s.regB) s.ram
  let (now, s) := sbinuptime clk s
  (vrtcTimeUpdate clk s curtime now).map fun (s, error) =>
    (kassert s (error = 0) "vrtc_data_handler: vrtc_time_update error",
      error = 0 && curtime.isSome)

/-- `vrtc_data_handler` for a write, and whether it returned success. -/
def vrtcDataOut (s : Vrtc) (val : BitVec 8) : Option (Vrtc × Bool) :=
  (dataPrologue clk s).bind fun s =>
    let offset := s.addr
    (dataStore clk s val).bind fun (s, ok) =>
      if offset = rtcCentury ∧ rtcHalted s = false then centuryStored clk s else some (s, ok)

/-- `vrtc_init`. -/
def vrtcInit : Vrtc where
  active := false
  pending := false
  dispatched := false
  addr := rtcStatusd
  baseUptime := clk.up 0
  baseRtctime := some 0
  regA := 0x20
  regB := rtcsb24hr
  regC := 0
  ram := putClocktime (format rtcsb24hr) (Function.update (fun _ => 0) rtcStatusd rtcsdPwr)
    (clockTsToCt (clk.host 0))
  ups := 1
  hosts := 1
  samples := []
  failed := []

inductive Op
  | addr (val : BitVec 8)
  | read
  | write (val : BitVec 8)
  /-- The callout thread takes the callout: `CALLOUT_PENDING` goes. -/
  | dispatch
  /-- Its handler has the lock. -/
  | expire
deriving DecidableEq, Repr

def next (s : Vrtc) : Op → Option Vrtc
  | .addr val => some (vrtcAddrHandler s val)
  | .read => (vrtcDataIn clk s).map (·.1)
  | .write val => (vrtcDataOut clk s val).map (·.1)
  | .dispatch =>
    if s.pending && !s.dispatched then some { s with pending := false, dispatched := true } else none
  | .expire =>
    if s.dispatched then (vrtcCalloutHandler clk s).map fun s => { s with dispatched := false }
    else none

def system : System Vrtc Op := System.ofFn (· = vrtcInit clk) (next clk)

end Handlers

/-! ## What each part leaves alone -/

/-- The registers A and B, the callout and the count of uptimes are as before. -/
structure Frame (s t : Vrtc) : Prop where
  regA : t.regA = s.regA
  regB : t.regB = s.regB
  active : t.active = s.active
  pending : t.pending = s.pending
  dispatched : t.dispatched = s.dispatched
  addr : t.addr = s.addr
  ups : t.ups = s.ups
  failed : t.failed = s.failed

theorem Frame.refl (s : Vrtc) : Frame s s := ⟨rfl, rfl, rfl, rfl, rfl, rfl, rfl, rfl⟩

theorem Frame.trans {s t u : Vrtc} (h : Frame s t) (h' : Frame t u) : Frame s u :=
  ⟨h'.regA.trans h.regA, h'.regB.trans h.regB, h'.active.trans h.active,
    h'.pending.trans h.pending, h'.dispatched.trans h.dispatched, h'.addr.trans h.addr,
    h'.ups.trans h.ups, h'.failed.trans h.failed⟩

theorem kassert_true (s : Vrtc) (msg : String) : kassert s true msg = s := rfl

section Frames

variable {clk : Clocks} {s t : Vrtc}

/-- Which register a write reaches. -/
theorem dataStore_cases {v : BitVec 8} {ok : Bool} (h : dataStore clk s v = some (t, ok)) :
    (s.addr = rtcStatusa ∧ t = vrtcSetRegA clk s v ∧ ok = true) ∨
      (s.addr = rtcStatusb ∧ vrtcSetRegB clk s v = some (t, ok)) ∨
      (s.addr = rtcIntr ∨ s.addr = rtcStatusd) ∧ t = s ∧ ok = true ∨
      (s.addr ≠ rtcStatusa ∧ s.addr ≠ rtcStatusb ∧ s.addr ≠ rtcIntr ∧
        t = storeByte s v ∧ ok = true) := by
  unfold dataStore at h
  split_ifs at h with hA hB hC
  · obtain ⟨rfl, rfl⟩ := Prod.mk.inj (Option.some.inj h)
    exact .inl ⟨hA, rfl, rfl⟩
  · exact .inr (.inl ⟨hB, h⟩)
  · obtain ⟨rfl, rfl⟩ := Prod.mk.inj (Option.some.inj h)
    exact .inr (.inr (.inl ⟨hC, rfl, rfl⟩))
  · obtain ⟨rfl, rfl⟩ := Prod.mk.inj (Option.some.inj h)
    exact .inr (.inr (.inr ⟨hA, hB, fun hc => hC (.inl hc), rfl, rfl⟩))

theorem secsToRtc_spec (clk : Clocks) (r : Option Nat) (s : Vrtc) (force : Bool) :
    Frame s (secsToRtc clk r s force) ∧ (secsToRtc clk r s force).baseRtctime = s.baseRtctime ∧
      (secsToRtc clk r s force).baseUptime = s.baseUptime ∧
      (secsToRtc clk r s force).regC = s.regC ∧ (secsToRtc clk r s force).samples = s.samples := by
  cases r with
  | none => exact ⟨Frame.refl s, rfl, rfl, rfl, rfl⟩
  | some r =>
    unfold secsToRtc
    dsimp only
    split
    · exact ⟨Frame.refl s, rfl, rfl, rfl, rfl⟩
    · exact ⟨⟨rfl, rfl, rfl, rfl, rfl, rfl, rfl, rfl⟩, rfl, rfl, rfl, rfl⟩

theorem vrtcSetRegC_frame (s : Vrtc) (v : BitVec 8) : Frame s (vrtcSetRegC s v) :=
  ⟨rfl, rfl, rfl, rfl, rfl, rfl, rfl, rfl⟩

theorem alarmCheck_spec (clk : Clocks) (alarm : BitVec 8 × BitVec 8 × BitVec 8) (s : Vrtc) :
    Frame s (alarmCheck clk alarm s) ∧ (alarmCheck clk alarm s).baseUptime = s.baseUptime ∧
      (alarmCheck clk alarm s).baseRtctime = s.baseRtctime := by
  obtain ⟨hf, hb, hu, -, -⟩ := secsToRtc_spec clk s.baseRtctime s false
  unfold alarmCheck
  dsimp only
  split_ifs
  · exact ⟨hf.trans (vrtcSetRegC_frame ..), hu, hb⟩
  · exact ⟨hf, hu, hb⟩
  · exact ⟨Frame.refl s, rfl, rfl⟩

/-- A turn moves the time on, by a second where alarms are looked for. -/
theorem updateTurn_spec (clk : Clocks) (alarm : BitVec 8 × BitVec 8 × BitVec 8)
    (oldtime : Option Nat) (newtime : Nat) (s : Vrtc) :
    Frame s (updateTurn clk alarm oldtime newtime s) ∧
      (updateTurn clk alarm oldtime newtime s).baseUptime = s.baseUptime ∧
      (updateTurn clk alarm oldtime newtime s).baseRtctime =
        if aintrEnabled s && oldtime.isSome then s.baseRtctime.map (· + 1) else some newtime := by
  obtain ⟨hf, hu, hb⟩ := alarmCheck_spec clk alarm { s with
    baseRtctime :=
      if aintrEnabled s && oldtime.isSome then s.baseRtctime.map (· + 1) else some newtime }
  exact ⟨⟨hf.regA, hf.regB, hf.active, hf.pending, hf.dispatched, hf.addr, hf.ups, hf.failed⟩, hu, hb⟩

theorem updateLoop_frame {alarm : BitVec 8 × BitVec 8 × BitVec 8} {oldtime : Option Nat}
    {newtime : Nat} : ∀ {n : Nat} {s t : Vrtc}, updateLoop clk alarm oldtime newtime n s = some t →
      Frame s t ∧ t.baseUptime = s.baseUptime ∧ t.baseRtctime = some newtime := by
  intro n
  induction n with
  | zero =>
    intro s t h
    cases h
  | succ n ih =>
    intro s t h
    obtain ⟨hf, hu, -⟩ := updateTurn_spec clk alarm oldtime newtime s
    rw [updateLoop] at h
    split_ifs at h with hend
    · obtain rfl := Option.some.inj h
      exact ⟨hf, hu, hend⟩
    · obtain ⟨hf', hu', hb'⟩ := ih h
      exact ⟨hf.trans hf', hu'.trans hu, hb'⟩

/-- What came out of an update that came to an end. -/
theorem vrtcTimeUpdate_frame {newtime : Option Nat} {newbase : Int} {e : Nat}
    (h : vrtcTimeUpdate clk s newtime newbase = some (t, e)) :
    Frame s t ∧ t.baseUptime = newbase ∧
      ((e = 0 ∧ t.baseRtctime = newtime) ∨
        (rtcHalted s = true ∧ newtime ≠ s.baseRtctime ∧ newtime ≠ none)) := by
  have hbase : Frame s { s with baseUptime := newbase } := ⟨rfl, rfl, rfl, rfl, rfl, rfl, rfl, rfl⟩
  unfold vrtcTimeUpdate at h
  dsimp only at h
  by_cases heq : newtime = s.baseRtctime
  · rw [if_pos heq] at h
    obtain ⟨rfl, rfl⟩ := Prod.mk.inj (Option.some.inj h)
    exact ⟨hbase, rfl, .inl ⟨rfl, heq.symm⟩⟩
  · rw [if_neg heq] at h
    cases newtime with
    | none =>
      obtain ⟨rfl, rfl⟩ := Prod.mk.inj (Option.some.inj h)
      exact ⟨⟨rfl, rfl, rfl, rfl, rfl, rfl, rfl, rfl⟩, rfl, .inl ⟨rfl, rfl⟩⟩
    | some new =>
      dsimp only at h
      split_ifs at h with hh
      · obtain ⟨rfl, rfl⟩ := Prod.mk.inj (Option.some.inj h)
        exact ⟨hbase, rfl, .inr ⟨hh, heq, by simp⟩⟩
      · split at h
        · cases h
        · rename_i u hu
          obtain ⟨hf, hub, hb⟩ := updateLoop_frame hu
          obtain ⟨rfl, rfl⟩ := Prod.mk.inj (Option.some.inj h)
          split_ifs
          · exact ⟨(hbase.trans hf).trans (vrtcSetRegC_frame ..), hub, .inl ⟨rfl, hb⟩⟩
          · exact ⟨hbase.trans hf, hub, .inl ⟨rfl, hb⟩⟩

/-- The loop ends where the new time is not behind the old one. -/
theorem updateLoop_ends (clk : Clocks) (alarm : BitVec 8 × BitVec 8 × BitVec 8)
    (oldtime : Option Nat) (newtime : Nat) :
    ∀ {n b : Nat} {s : Vrtc}, s.baseRtctime = some b → b < newtime → newtime - b ≤ n →
      ∃ t, updateLoop clk alarm oldtime newtime n s = some t := by
  intro n
  induction n with
  | zero => omega
  | succ n ih =>
    intro b s hb hlt hn
    obtain ⟨-, -, htime⟩ := updateTurn_spec clk alarm oldtime newtime s
    rw [updateLoop]
    split_ifs with hend
    · exact ⟨_, rfl⟩
    · split_ifs at htime with ha
      · rw [hb, Option.map_some] at htime
        have hne : b + 1 ≠ newtime := by
          rintro rfl
          exact hend htime
        exact ih htime (by omega) (by omega)
      · exact absurd htime hend

theorem vrtcTimeUpdate_ends (clk : Clocks) {s : Vrtc} {b : Nat} (k : Nat)
    (hb : s.baseRtctime = some b) (newbase : Int) :
    ∃ r, vrtcTimeUpdate clk s (some (b + k)) newbase = some r := by
  unfold vrtcTimeUpdate
  dsimp only
  split_ifs with heq hh
  · exact ⟨_, rfl⟩
  · exact ⟨_, rfl⟩
  · have hlt : b < b + k := by
      rcases Nat.eq_zero_or_pos k with rfl | hk
      · exact absurd hb.symm heq
      · omega
    obtain ⟨t, ht⟩ := @updateLoop_ends clk (s.ram 1, s.ram 3, s.ram 5) s.baseRtctime (b + k)
      (b + k + 1) b { s with baseUptime := newbase } hb hlt (by omega)
    rw [ht]
    exact ⟨_, rfl⟩

/-- From a broken time any other is reached at once. -/
theorem vrtcTimeUpdate_ends_broken (clk : Clocks) {s : Vrtc} (hb : s.baseRtctime = none) (new : Nat)
    (newbase : Int) : ∃ r, vrtcTimeUpdate clk s (some new) newbase = some r := by
  unfold vrtcTimeUpdate
  dsimp only
  split_ifs with heq hh
  · exact ⟨_, rfl⟩
  · exact ⟨_, rfl⟩
  · obtain ⟨-, -, htime⟩ := updateTurn_spec clk (s.ram 1, s.ram 3, s.ram 5) s.baseRtctime new
      { s with baseUptime := newbase }
    have hnone : s.baseRtctime.isSome = false := by rw [hb, Option.isSome_none]
    rw [hnone, Bool.and_false, if_neg Bool.false_ne_true] at htime
    rw [updateLoop, if_pos htime]
    exact ⟨_, rfl⟩

/-- The time now: whole seconds of the uptime since the base, where the clock runs. -/
def elapsed (clk : Clocks) (s : Vrtc) : Nat :=
  if updateEnabled s then ((clk.up s.ups - s.baseUptime) / sbt1s).toNat else 0

/-- The readings of the uptime `vrtc_curtime` takes. -/
def readings (s : Vrtc) : Nat := if updateEnabled s then s.ups + 1 else s.ups

theorem vrtcCurtime_spec (h : s.baseUptime ≤ clk.up s.ups) :
    vrtcCurtime clk s = (s.baseRtctime.map (· + elapsed clk s),
      s.baseUptime + elapsed clk s * sbt1s, { s with ups := readings s }) ∧
      s.baseUptime + elapsed clk s * sbt1s ≤ clk.up (readings s) := by
  unfold vrtcCurtime elapsed readings
  split_ifs with hu
  · have hpos : (0 : Int) ≤ clk.up s.ups - s.baseUptime := by omega
    have hdiv : (clk.up s.ups - s.baseUptime).tdiv sbt1s = (clk.up s.ups - s.baseUptime) / sbt1s :=
      Int.tdiv_eq_ediv_of_nonneg hpos
    have hnn : (0 : Int) ≤ (clk.up s.ups - s.baseUptime) / sbt1s :=
      Int.ediv_nonneg hpos (by decide)
    have hle : (clk.up s.ups - s.baseUptime) / sbt1s * sbt1s ≤ clk.up s.ups - s.baseUptime :=
      Int.ediv_mul_le _ (by decide)
    have hmono := clk.up_mono (Nat.le_succ s.ups)
    refine ⟨?_, ?_⟩
    · simp only [sbinuptime, hdiv, hpos, decide_true, kassert_true, Int.toNat_of_nonneg hnn]
    · rw [Int.toNat_of_nonneg hnn]
      exact le_trans (by omega) hmono
  · refine ⟨?_, ?_⟩
    · have hmap : s.baseRtctime.map (· + 0) = s.baseRtctime := by cases s.baseRtctime <;> rfl
      rw [hmap]
      simp
    · simpa using h

end Frames

end Xhyve.Vmm.Rtc
