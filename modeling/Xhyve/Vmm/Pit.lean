import Mathlib
import Xhyve.Lib.Transition

/-!
# The 8254 timer

Three channels behind one data port each and a port for control words. A data port is shared by the bytes of a new count,
the latched count, the counter as it runs and the latched status. The uptime is a sequence of readings; how long it takes
from one to the next is up to the surroundings.
-/

namespace Xhyve.Vmm.Pit

open Xhyve.Lib

def timerSelMask : BitVec 8 := 0xc0
def timerRwMask : BitVec 8 := 0x30
def timerModeMask : BitVec 8 := 0x0f
def timerSelReadback : BitVec 8 := 0xc0

def timerInttc : BitVec 8 := 0x00
def timerRategen : BitVec 8 := 0x04
def timerSqwave : BitVec 8 := 0x06
def timerSwstrobe : BitVec 8 := 0x08
def timerLatch : BitVec 8 := 0x00
def timer16bit : BitVec 8 := 0x30

def timerStsOut : BitVec 8 := 0x80
def timerStsNullcnt : BitVec 8 := 0x40

def timerRbLctr : BitVec 8 := 0x20
def timerRbLstatus : BitVec 8 := 0x10
def timerRbCtr (n : Fin 3) : BitVec 8 := BitVec.twoPow 8 (n.val + 1)

def tmr2OutSts : BitVec 32 := 0x20

def pit8254Freq : Nat := 1193182
def timerDiv (freq hz : Nat) : Nat := (freq + hz / 2) / hz

/-- One tick in `sbintime_t`. -/
def freqSbt : Int := ((0x8000000000000000 / pit8254Freq) * 2 / 2 ^ 32 : Nat)

/-- The readings of `sbinuptime`, which never go back. -/
structure Uptime where
  read : Nat → Int
  mono : Monotone read
  nonneg : 0 ≤ read 0

/-- `struct callout`: `CALLOUT_ACTIVE`, `CALLOUT_PENDING` and the time it is due. -/
structure Callout where
  active : Bool
  pending : Bool
  timeout : Int

structure Channel where
  mode : BitVec 8
  initial : BitVec 16
  nowSbt : Int
  cr : Nat → BitVec 8
  ol : Nat → BitVec 8
  slatched : Bool
  status : BitVec 8
  crbyte : Nat
  olbyte : Nat
  frbyte : Bool
  callout : Callout
  calloutSbt : Int

structure Vatpit where
  channel : Fin 3 → Channel
  /-- Readings of the uptime so far. -/
  ups : Nat
  /-- Calls of `callout_reset_sbt`. -/
  resets : Nat
  /-- Pulses of pin 0 of the PIC and pin 2 of the I/O APIC. -/
  pulses : Nat

def Vatpit.set (s : Vatpit) (n : Fin 3) (c : Channel) : Vatpit := { s with channel := Function.update s.channel n c }

/-! ## One channel -/

/-- A count nobody has programmed is 100 Hz. -/
def Channel.defaulted (c : Channel) (now : Int) : Channel :=
  { c with
    initial := BitVec.ofNat 16 (timerDiv pit8254Freq 100)
    nowSbt := now
    status := c.status &&& ~~~timerStsNullcnt }

/-- Ticks since the counter was loaded. -/
def Channel.ticks (c : Channel) (now : Int) : Int := (now - c.nowSbt).tdiv freqSbt

def Channel.count (c : Channel) (now : Int) : BitVec 16 :=
  BitVec.ofInt 16 (c.initial.toNat - (c.ticks now).tmod c.initial.toNat)

/-- The low byte goes out first. -/
def Channel.latched (c : Channel) (lval : BitVec 16) : Channel :=
  { c with olbyte := 2, ol := Function.update (Function.update c.ol 1 (lval.setWidth 8)) 0 ((lval >>> 8).setWidth 8) }

/-- Both bytes of a new count are there. -/
def Channel.loaded (c : Channel) (now : Int) : Channel :=
  { c with
    status := c.status &&& ~~~timerStsNullcnt
    frbyte := false
    crbyte := 0
    initial := (c.cr 0).setWidth 16 ||| (c.cr 1).setWidth 16 <<< 8
    nowSbt := now }

section Code
variable (up : Uptime)

def sbinuptime (s : Vatpit) : Int := up.read s.ups

/-- `sbinuptime` has been read. -/
def Vatpit.tick (s : Vatpit) : Vatpit := { s with ups := s.ups + 1 }

def vatpitGetOut (s : Vatpit) (n : Fin 3) : Bool × Vatpit :=
  if (s.channel n).mode = timerInttc then
    ((s.channel n).initial.toNat - (s.channel n).ticks (sbinuptime up s) ≤ 0, s.tick)
  else (false, s)

/-! ## The interval timer -/

def calloutResetSbt (s : Vatpit) (n : Fin 3) (timeout : Int) : Vatpit :=
  { s.set n { s.channel n with callout := ⟨true, true, timeout⟩ } with resets := s.resets + 1 }

/-- The next `callout_sbt`, counted from the present one unless that is over already. -/
def Channel.target (c : Channel) (now : Int) : Int :=
  let delta := c.initial.toNat * freqSbt
  if c.calloutSbt + delta < now then now + delta else c.calloutSbt + delta

def pitTimerStartCntr0 (s : Vatpit) : Vatpit :=
  if (s.channel 0).initial ≠ 0 then
    let target := (s.channel 0).target (sbinuptime up s)
    calloutResetSbt (s.tick.set 0 { s.channel 0 with calloutSbt := target }) 0 target
  else s

/-- Pin 0 of the PIC and pin 2 of the I/O APIC. -/
def pulseIrq (s : Vatpit) : Vatpit := { s with pulses := s.pulses + 1 }

def vatpitCalloutHandler (s : Vatpit) (n : Fin 3) : Vatpit :=
  let c := s.channel n
  if c.callout.pending then s
  else if !c.callout.active then s
  else
    let s := s.set n { c with callout := { c.callout with active := false } }
    pulseIrq (if c.mode = timerRategen then pitTimerStartCntr0 up s else s)

/-! ## Latching -/

/-- A counter that is looked at before anyone has set it up. -/
def setUp (s : Vatpit) (n : Fin 3) : Vatpit :=
  if (s.channel n).initial = 0 then s.tick.set n ((s.channel n).defaulted (sbinuptime up s)) else s

def pitUpdateCounter (s : Vatpit) (n : Fin 3) (latch : Bool) : BitVec 16 × Vatpit :=
  -- A new value cannot be latched until the old one is consumed.
  if latch ∧ (s.channel n).olbyte ≠ 0 then (0, s)
  else
    let s := setUp up s n
    let lval := (s.channel n).count (sbinuptime up s)
    (lval, if latch then s.tick.set n ((s.channel n).latched lval) else s.tick)

def latchStatus (s : Vatpit) (n : Fin 3) : Vatpit :=
  let out := vatpitGetOut up s n
  out.2.set n { s.channel n with
    slatched := true
    status :=
      if out.1 then (s.channel n).status ||| timerStsOut else (s.channel n).status &&& ~~~timerStsOut }

/-- `pit_readback1`. The select bits for the count and the status are active-low. -/
def pitReadback1 (s : Vatpit) (n : Fin 3) (cmd : BitVec 8) : Vatpit :=
  let s := if cmd &&& timerRbLctr = 0 ∧ (s.channel n).olbyte = 0 then (pitUpdateCounter up s n true).2 else s
  if cmd &&& timerRbLstatus = 0 ∧ (s.channel n).slatched = false then latchStatus up s n else s

/-- Each channel the command selects, in order. -/
def pitReadback (s : Vatpit) (cmd : BitVec 8) : Vatpit :=
  (List.finRange 3).foldl (fun s n => if cmd &&& timerRbCtr n ≠ 0 then pitReadback1 up s n cmd else s) s

/-- The channel a control word is for. -/
def channelOf (val : BitVec 8) : Fin 3 := ⟨(val >>> 6).toNat % 3, Nat.mod_lt _ (by decide)⟩

/-- `vatpit_update_mode`, and whether it fails. -/
def vatpitUpdateMode (s : Vatpit) (val : BitVec 8) : Bool × Vatpit :=
  let sel := val &&& timerSelMask
  let rw := val &&& timerRwMask
  let mode := val &&& timerModeMask
  if sel = timerSelReadback then (false, pitReadback up s val)
  else if rw ≠ timerLatch ∧ rw ≠ timer16bit then (true, s)
  else if rw ≠ timerLatch ∧ mode ≠ timerInttc ∧ mode ≠ timerRategen ∧ mode ≠ timerSqwave ∧ mode ≠ timerSwstrobe then
    (true, s)
  else if rw = timerLatch then (false, (pitUpdateCounter up s (channelOf val) true).2)
  else
    let c := s.channel (channelOf val)
    (false, s.set (channelOf val) { c with mode := mode, olbyte := 0, status := c.status ||| timerStsNullcnt })

/-! ## The ports -/

inductive Port
  | cntr (n : Fin 3)
  | mode
deriving DecidableEq

/-- A read of a data port. -/
def readCntr (s : Vatpit) (n : Fin 3) : BitVec 32 × Vatpit :=
  let c := s.channel n
  if c.slatched then (c.status.setWidth 32, s.set n { c with slatched := false, status := 0 })
  else if c.olbyte = 0 then
    let r := pitUpdateCounter up s n false
    let c := r.2.channel n
    (((if c.frbyte then r.1 >>> 8 else r.1) &&& 0xff).setWidth 32, r.2.set n { c with frbyte := !c.frbyte })
  else ((c.ol (c.olbyte - 1)).setWidth 32, s.set n { c with olbyte := c.olbyte - 1 })

/-- The second byte of a count has come. Channel 0 has the interval timer. -/
def startCount (s : Vatpit) (n : Fin 3) (c : Channel) : Vatpit :=
  let now := sbinuptime up s
  if n = 0 then pitTimerStartCntr0 up (s.tick.set n { c.loaded now with calloutSbt := now })
  else s.tick.set n (c.loaded now)

def load (s : Vatpit) (n : Fin 3) (c : Channel) : Vatpit :=
  let s := startCount up s n c
  if (s.channel n).initial = 0 then s.set n { s.channel n with initial := 0xffff } else s

/-- A write to a data port. -/
def writeCntr (s : Vatpit) (n : Fin 3) (val : BitVec 8) : Vatpit :=
  let c := s.channel n
  let c := { c with cr := Function.update c.cr c.crbyte val, crbyte := c.crbyte + 1 }
  if c.crbyte = 2 then load up s n c else s.set n c

/-- `vatpit_handler`: whether it fails, and `*eax`. -/
def vatpitHandler (s : Vatpit) (inp : Bool) (port : Port) (bytes : Nat) (eax : BitVec 32) : Bool × BitVec 32 × Vatpit :=
  if bytes ≠ 1 then (true, eax, s)
  else
    match port with
    | .mode =>
      if inp then (true, eax, s)
      else
        let r := vatpitUpdateMode up s (eax.setWidth 8)
        (r.1, eax, r.2)
    | .cntr n =>
      if inp then
        let r := readCntr up s n
        (false, r.1, r.2)
      else (false, eax, writeCntr up s n (eax.setWidth 8))

def vatpitNmiscHandler (s : Vatpit) (inp : Bool) (eax : BitVec 32) : BitVec 32 × Vatpit :=
  if inp then
    let out := vatpitGetOut up s 2
    (if out.1 then tmr2OutSts else 0, out.2)
  else (eax, s)

/-! ## The device -/

inductive Op
  | io (inp : Bool) (port : Port) (bytes : Nat) (eax : BitVec 32)
  | nmisc (inp : Bool) (eax : BitVec 32)
  /-- The callout thread takes the callout of a channel. -/
  | dispatch (n : Fin 3)
  | fire (n : Fin 3)

def step (s : Vatpit) : Op → Vatpit
  | .io inp port bytes eax => (vatpitHandler up s inp port bytes eax).2.2
  | .nmisc inp eax => (vatpitNmiscHandler up s inp eax).2
  | .dispatch n => s.set n { s.channel n with callout := { (s.channel n).callout with pending := false } }
  | .fire n => vatpitCalloutHandler up s n

/-- `vatpit_init`. -/
def vatpitInit : Vatpit where
  channel _ :=
    { mode := 0, initial := 0, nowSbt := 0, cr := fun _ => 0, ol := fun _ => 0, slatched := false, status := 0
      crbyte := 0, olbyte := 0, frbyte := false, callout := ⟨false, false, 0⟩, calloutSbt := 0 }
  ups := 0
  resets := 0
  pulses := 0

def system : System Vatpit Op := System.ofFn (· = vatpitInit) fun s op => some (step up s op)

end Code

/-! ## Frames -/

section Frames

variable (up : Uptime) (s : Vatpit)

theorem Vatpit.set_self (n : Fin 3) (c : Channel) : (s.set n c).channel n = c := Function.update_self ..

theorem Vatpit.set_ne {m n : Fin 3} (c : Channel) (h : m ≠ n) : (s.set n c).channel m = s.channel m :=
  Function.update_of_ne h ..

theorem vatpitGetOut_channel (n : Fin 3) : (vatpitGetOut up s n).2.channel = s.channel := by
  unfold vatpitGetOut
  split <;> rfl

theorem vatpitGetOut_ups (n : Fin 3) : s.ups ≤ (vatpitGetOut up s n).2.ups := by
  unfold vatpitGetOut
  split
  · exact Nat.le_succ s.ups
  · exact le_rfl

end Frames

/-! ## What every run keeps -/

/-- A channel after `ups` readings of the uptime. -/
structure ChannelInv (up : Uptime) (ups : Nat) (c : Channel) : Prop where
  crbyte : c.crbyte < 2
  olbyte : c.olbyte ≤ 2
  /-- A counter was not loaded in the future. -/
  past : c.nowSbt ≤ up.read ups

def Inv (up : Uptime) (s : Vatpit) : Prop := ∀ n, ChannelInv up s.ups (s.channel n)

section Invariant

variable {up : Uptime} {s : Vatpit}

theorem ChannelInv.later {ups ups' : Nat} {c : Channel} (h : ChannelInv up ups c) (hle : ups ≤ ups') :
    ChannelInv up ups' c :=
  ⟨h.crbyte, h.olbyte, le_trans h.past (up.mono hle)⟩

theorem Inv.same (h : Inv up s) {t : Vatpit} (hc : t.channel = s.channel) (hle : s.ups ≤ t.ups) : Inv up t := by
  intro n
  rw [hc]
  exact (h n).later hle

theorem Inv.set (h : Inv up s) {n : Fin 3} {c : Channel} (hc : ChannelInv up s.ups c) : Inv up (s.set n c) := by
  intro m
  by_cases hm : m = n
  · rw [hm, Vatpit.set_self]
    exact hc
  · rw [Vatpit.set_ne s c hm]
    exact h m

theorem Inv.tick (h : Inv up s) : Inv up s.tick := h.same rfl (Nat.le_succ s.ups)

theorem Inv.resetSbt (h : Inv up s) (n : Fin 3) (timeout : Int) : Inv up (calloutResetSbt s n timeout) := by
  have hc : ChannelInv up s.ups { s.channel n with callout := ⟨true, true, timeout⟩ } :=
    ⟨(h n).crbyte, (h n).olbyte, (h n).past⟩
  exact (h.set hc).same rfl le_rfl

theorem Inv.setUp (h : Inv up s) (n : Fin 3) : Inv up (setUp up s n) := by
  unfold Pit.setUp
  split
  · exact h.tick.set ⟨(h n).crbyte, (h n).olbyte, up.mono (Nat.le_succ s.ups)⟩
  · exact h

theorem Inv.updateCounter (h : Inv up s) (n : Fin 3) (latch : Bool) : Inv up (pitUpdateCounter up s n latch).2 := by
  have ht := (h.setUp n).tick
  unfold pitUpdateCounter
  split
  · exact h
  · cases latch
    · exact ht
    · exact ht.set ⟨(ht n).crbyte, le_rfl, (ht n).past⟩

theorem Inv.getOut (h : Inv up s) (n : Fin 3) : Inv up (vatpitGetOut up s n).2 :=
  h.same (vatpitGetOut_channel up s n) (vatpitGetOut_ups up s n)

theorem Inv.startCntr0 (h : Inv up s) : Inv up (pitTimerStartCntr0 up s) := by
  unfold pitTimerStartCntr0
  split
  · have hc : ChannelInv up s.tick.ups
        { s.channel 0 with calloutSbt := (s.channel 0).target (sbinuptime up s) } :=
      ⟨(h.tick 0).crbyte, (h.tick 0).olbyte, (h.tick 0).past⟩
    exact (h.tick.set hc).resetSbt 0 _
  · exact h

theorem Inv.latchStatus (h : Inv up s) (n : Fin 3) : Inv up (latchStatus up s n) := by
  have hc := (h n).later (vatpitGetOut_ups up s n)
  exact (h.getOut n).set ⟨hc.crbyte, hc.olbyte, hc.past⟩

theorem Inv.readback1 (h : Inv up s) (n : Fin 3) (cmd : BitVec 8) : Inv up (pitReadback1 up s n cmd) := by
  unfold pitReadback1
  extract_lets t
  have ht : Inv up t := by
    simp only [t]
    split
    · exact h.updateCounter n true
    · exact h
  split
  · exact ht.latchStatus n
  · exact ht

theorem Inv.readback (h : Inv up s) (cmd : BitVec 8) : Inv up (pitReadback up s cmd) := by
  unfold pitReadback
  induction List.finRange 3 generalizing s with
  | nil => exact h
  | cons n ns ih =>
    refine ih ?_
    dsimp only
    split
    · exact h.readback1 n cmd
    · exact h

theorem Inv.updateMode (h : Inv up s) (val : BitVec 8) : Inv up (vatpitUpdateMode up s val).2 := by
  unfold vatpitUpdateMode
  dsimp only
  split_ifs
  · exact h.readback val
  · exact h
  · exact h
  · exact h.updateCounter _ true
  · exact h.set ⟨(h _).crbyte, Nat.zero_le 2, (h _).past⟩

theorem Inv.readCntr (h : Inv up s) (n : Fin 3) : Inv up (readCntr up s n).2 := by
  unfold Pit.readCntr
  dsimp only
  split
  · exact h.set ⟨(h n).crbyte, (h n).olbyte, (h n).past⟩
  split
  · have ht := h.updateCounter n false
    exact ht.set ⟨(ht n).crbyte, (ht n).olbyte, (ht n).past⟩
  · refine h.set ?_
    exact ⟨(h n).crbyte, (Nat.sub_le ..).trans (h n).olbyte, (h n).past⟩

theorem Inv.startCount (h : Inv up s) (n : Fin 3) {c : Channel} (ho : c.olbyte ≤ 2) :
    Inv up (startCount up s n c) := by
  have hl : ∀ sbt, ChannelInv up s.tick.ups { c.loaded (sbinuptime up s) with calloutSbt := sbt } := fun _ =>
    ⟨Nat.zero_lt_two, ho, up.mono (Nat.le_succ s.ups)⟩
  unfold Pit.startCount
  dsimp only
  split
  · exact (h.tick.set (hl _)).startCntr0
  · exact h.tick.set (hl c.calloutSbt)

theorem Inv.load (h : Inv up s) (n : Fin 3) {c : Channel} (ho : c.olbyte ≤ 2) : Inv up (load up s n c) := by
  have hr := h.startCount n ho
  unfold Pit.load
  dsimp only
  split
  · exact hr.set ⟨(hr n).crbyte, (hr n).olbyte, (hr n).past⟩
  · exact hr

theorem Inv.writeCntr (h : Inv up s) (n : Fin 3) (val : BitVec 8) : Inv up (writeCntr up s n val) := by
  have hc := (h n).crbyte
  unfold Pit.writeCntr
  dsimp only
  split
  · exact h.load n (h n).olbyte
  · rename_i h2
    exact h.set ⟨by dsimp only; omega, (h n).olbyte, (h n).past⟩

theorem Inv.calloutHandler (h : Inv up s) (n : Fin 3) : Inv up (vatpitCalloutHandler up s n) := by
  unfold vatpitCalloutHandler
  dsimp only
  have hs : ∀ k, Inv up (s.set n { s.channel n with callout := k }) := fun _ =>
    h.set ⟨(h n).crbyte, (h n).olbyte, (h n).past⟩
  split_ifs
  · exact h
  · exact h
  · exact (hs _).startCntr0.same rfl le_rfl
  · exact (hs _).same rfl le_rfl

theorem Inv.step (h : Inv up s) (op : Op) : Inv up (step up s op) := by
  cases op with
  | io inp port bytes eax =>
    simp only [Pit.step]
    unfold vatpitHandler
    split
    · exact h
    · cases port with
      | cntr n =>
        cases inp
        · exact h.writeCntr n _
        · exact h.readCntr n
      | mode =>
        cases inp
        · exact h.updateMode _
        · exact h
  | nmisc inp eax =>
    cases inp
    · exact h
    · exact h.getOut 2
  | dispatch n => exact h.set ⟨(h n).crbyte, (h n).olbyte, (h n).past⟩
  | fire n => exact h.calloutHandler n

theorem inv_reachable (h : (system up).Reachable s) : Inv up s := by
  refine System.Inductive.reachable ⟨?_, ?_⟩ h
  · rintro s rfl n
    exact ⟨Nat.zero_lt_two, Nat.zero_le 2, up.nonneg⟩
  · intro s op t hs hst
    obtain rfl := Option.some.inj hst
    exact hs.step op

end Invariant

end Xhyve.Vmm.Pit
