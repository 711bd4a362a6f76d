import Xhyve.Lib.BitFlags
import Xhyve.Lib.Tally
import Xhyve.Lib.Transition
import Xhyve.Lib.WordSet

/-!
# The HPET

Eight timers over one counter, their level interrupts in `isr`, and the callout that drives each timer.
The uptime is a sequence of readings. An assertion or abort that fires is noted and the code goes on;
that none is ever noted is part of the invariant.
-/

namespace Xhyve.Vmm.Hpet

open Xhyve.Lib

def vhpetNumTimers : Nat := 8

def hpetCnfEnable : BitVec 64 := 0x00000001
def hpetCnfLegRt : BitVec 64 := 0x00000002
def hpetTcapIntRoute : BitVec 64 := 0xffffffff00000000
def hpetTcapFsbIntDel : BitVec 64 := 0x00008000
def hpetTcnfFsbEn : BitVec 64 := 0x00004000
def hpetTcnfIntRoute : BitVec 64 := 0x00003e00
def hpetTcnf32mode : BitVec 64 := 0x00000100
def hpetTcnfValSet : BitVec 64 := 0x00000040
def hpetTcapSize : BitVec 64 := 0x00000020
def hpetTcapPerInt : BitVec 64 := 0x00000010
def hpetTcnfType : BitVec 64 := 0x00000008
def hpetTcnfIntEnb : BitVec 64 := 0x00000004
def hpetTcnfIntType : BitVec 64 := 0x00000002
def hpetTcapRoMask : BitVec 64 :=
  hpetTcapIntRoute ||| hpetTcapFsbIntDel ||| hpetTcapSize ||| hpetTcapPerInt

def hpetConfig : Nat := 0x10
def hpetIsr : Nat := 0x20
def hpetMainCounter : Nat := 0xf0
def hpetTimerCapCnf (n : Nat) : Nat := n * 0x20 + 0x100
def hpetTimerComparator (n : Nat) : Nat := n * 0x20 + 0x108
def hpetTimerFsbVal (n : Nat) : Nat := n * 0x20 + 0x110
def hpetTimerFsbAddr (n : Nat) : Nat := n * 0x20 + 0x114

/-- One tick of 10 MHz in `sbintime_t`. -/
def freqSbt : Int := ((0x8000000000000000 / 10000000) * 2) / 2 ^ 32

/-- The readings of `sbinuptime`, which never go back. -/
structure Uptime where
  read : Nat → Int
  mono : Monotone read

structure Timer where
  capConfig : BitVec 64
  msireg : BitVec 64
  compval : BitVec 32
  comprate : BitVec 32
  /-- `CALLOUT_ACTIVE` and `CALLOUT_PENDING`. -/
  active : Bool
  pending : Bool
  /-- The callout thread has taken the callout and waits for the lock. -/
  dispatched : Bool
  calloutSbt : Int

structure Vhpet where
  config : BitVec 64
  isr : BitVec 64
  countbase : BitVec 32
  countbaseSbt : Int
  timer : Fin vhpetNumTimers → Timer
  ups : Nat
  /-- Asserts less deasserts, on each pin of the I/O APIC. -/
  net : Nat → Int
  failed : List String

def kassert (s : Vhpet) (exp : Bool) (msg : String) : Vhpet :=
  if exp then s else { s with failed := msg :: s.failed }

/-! ## One timer's configuration -/

section Config

variable (cap : BitVec 64)

def msiEnabled : Bool :=
  cap &&& (hpetTcapFsbIntDel ||| hpetTcnfFsbEn) = hpetTcapFsbIntDel ||| hpetTcnfFsbEn

/-- The pin the timer is routed to; with MSI it is as if it were not connected. -/
def ioapicPin : Nat := if msiEnabled cap then 0 else ((cap &&& hpetTcnfIntRoute) >>> 9).toNat

def periodic : Bool := cap &&& hpetTcnfType ≠ 0
def interruptEnabled : Bool := cap &&& hpetTcnfIntEnb ≠ 0
def edgeTrig : Bool := cap &&& hpetTcnfIntType = 0

/-- The capability register lists the pin. -/
def pinAllowed (pin : Nat) : Bool := (cap >>> 32).getLsbD pin

end Config

def updateRegister (reg data mask : BitVec 64) : BitVec 64 := (reg &&& ~~~mask) ||| (data &&& mask)

/-! ## The device -/

def counterEnabled (s : Vhpet) : Bool := s.config &&& hpetCnfEnable ≠ 0

def pin (s : Vhpet) (n : Fin vhpetNumTimers) : Nat := ioapicPin (s.timer n).capConfig

def isrSet (s : Vhpet) (n : Fin vhpetNumTimers) : Bool := s.isr.getLsbD n

def setTimer (s : Vhpet) (n : Fin vhpetNumTimers) (t : Timer) : Vhpet :=
  { s with timer := Function.update s.timer n t }

def assertIrq (s : Vhpet) (pin : Nat) : Vhpet :=
  { s with net := Function.update s.net pin (s.net pin + 1) }

def deassertIrq (s : Vhpet) (pin : Nat) : Vhpet :=
  { s with net := Function.update s.net pin (s.net pin - 1) }

section Handlers

variable (up : Uptime)

/-- `vhpet_counter`, with the uptime it read where the counter runs. -/
def vhpetCounter (s : Vhpet) (nowptr : Bool) : BitVec 32 × Int × Vhpet :=
  if counterEnabled s then
    let now := up.read s.ups
    let s := { s with ups := s.ups + 1 }
    let delta := now - s.countbaseSbt
    let s := kassert s (0 ≤ delta) "vhpet_counter: uptime went backwards"
    (s.countbase + BitVec.ofInt 32 (delta.tdiv freqSbt), now, s)
  else (s.countbase, 0, kassert s (!nowptr) "vhpet_counter: nowptr must be NULL")

def vhpetTimerClearIsr (s : Vhpet) (n : Fin vhpetNumTimers) : Vhpet :=
  if isrSet s n then
    let p := pin s n
    let s := kassert s (p ≠ 0) "vhpet timer irq incorrectly routed"
    let s := deassertIrq s p
    { s with isr := WordSet.clr n s.isr }
  else s

/-- `vhpet_timer_interrupt`. An MSI goes to the local APICs, and an edge is an assert with its
deassert. -/
def vhpetTimerInterrupt (s : Vhpet) (n : Fin vhpetNumTimers) : Vhpet :=
  let cap := (s.timer n).capConfig
  if interruptEnabled cap = false then s
  else if isrSet s n then s
  else if msiEnabled cap then s
  else if pin s n = 0 then s
  else if edgeTrig cap then s
  else assertIrq { s with isr := WordSet.set n s.isr } (pin s n)

def vhpetAdjustCompval (t : Timer) (counter : BitVec 32) : Timer :=
  { t with compval := t.compval + ((counter - t.compval) / t.comprate + 1) * t.comprate }

def vhpetStartTimer (s : Vhpet) (n : Fin vhpetNumTimers) (counter : BitVec 32) (now : Int) : Vhpet :=
  let t := s.timer n
  let t := if t.comprate ≠ 0 then vhpetAdjustCompval t counter else t
  setTimer s n { t with
    calloutSbt := now + (t.compval - counter).toNat * freqSbt, active := true, pending := true }

def vhpetStopTimer (s : Vhpet) (n : Fin vhpetNumTimers) (now : Int) : Vhpet :=
  let s := setTimer s n { s.timer n with active := false, pending := false }
  if (s.timer n).calloutSbt < now then vhpetTimerInterrupt s n else s

def vhpetStartCounting (s : Vhpet) : Vhpet :=
  let now := up.read s.ups
  let s := { s with countbaseSbt := now, ups := s.ups + 1 }
  (List.finRange vhpetNumTimers).foldl (fun s i => vhpetStartTimer s i s.countbase now) s

def vhpetStopCounting (s : Vhpet) (counter : BitVec 32) (now : Int) : Vhpet :=
  let s := { s with countbase := counter }
  (List.finRange vhpetNumTimers).foldl (fun s i => vhpetStopTimer s i now) s

/-- The handler of a timer's callout, under the lock. -/
def vhpetHandler (s : Vhpet) (n : Fin vhpetNumTimers) : Vhpet :=
  if (s.timer n).pending || !(s.timer n).active then s
  else
    let s := setTimer s n { s.timer n with active := false }
    let s := kassert s (counterEnabled s) "vhpet callout with counter disabled"
    let (counter, now, s) := vhpetCounter up s true
    vhpetTimerInterrupt (vhpetStartTimer s n counter now) n

/-- Whether a changed configuration takes the timer's status bit with it. -/
def clearIsr (cap : BitVec 64) (oldPin : Nat) : Bool :=
  if interruptEnabled cap = false then true
  else if msiEnabled cap then true
  else if edgeTrig cap then true
  else ioapicPin cap ≠ oldPin

/-- The value a write leaves in a timer's configuration, with a route that is not allowed taken out. -/
def newConfig (oldval data mask : BitVec 64) : BitVec 64 :=
  (updateRegister oldval data mask &&& ~~~(hpetTcapRoMask ||| hpetTcnf32mode)) |||
    (oldval &&& hpetTcapRoMask)

def validRoute (cap : BitVec 64) : BitVec 64 :=
  if ioapicPin cap ≠ 0 ∧ pinAllowed cap (ioapicPin cap) = false then cap &&& ~~~hpetTcnfIntRoute
  else cap

/-- A timer that is not periodic has no rate. -/
def setConfig (t : Timer) (cap : BitVec 64) : Timer :=
  { t with capConfig := cap, comprate := if periodic cap then t.comprate else 0 }

/-- The timer's interrupt does not stay asserted under a configuration it does not fit. -/
def settleIsr (s : Vhpet) (n : Fin vhpetNumTimers) (cap : BitVec 64) (oldPin : Nat) : Vhpet :=
  if isrSet s n then
    let s := kassert s (oldPin ≠ 0) "timer isr asserted to ioapic pin"
    if clearIsr cap oldPin then { deassertIrq s oldPin with isr := WordSet.clr n s.isr } else s
  else s

def vhpetTimerUpdateConfig (s : Vhpet) (n : Fin vhpetNumTimers) (data mask : BitVec 64) : Vhpet :=
  let oldval := (s.timer n).capConfig
  let s := kassert s (!((msiEnabled oldval || edgeTrig oldval) && isrSet s n))
    "vhpet timer isr should not be asserted"
  let oldPin := ioapicPin oldval
  if newConfig oldval data mask = oldval then s
  else
    let cap := validRoute (newConfig oldval data mask)
    settleIsr (setTimer s n (setConfig (s.timer n) cap)) n cap oldPin

/-- The values a write leaves in a comparator: with a period the rate, and the comparator as well only
where the value-set bit is set. -/
def comparatorValues (t : Timer) (data mask : BitVec 64) : Timer :=
  if periodic t.capConfig then
    let val64 := updateRegister (t.comprate.setWidth 64) data mask
    { t with
      comprate := val64.setWidth 32
      compval := if t.capConfig &&& hpetTcnfValSet ≠ 0 then val64.setWidth 32 else t.compval }
  else
    let val64 := updateRegister (t.compval.setWidth 64) data mask
    { t with compval := val64.setWidth 32 }

/-- A write to a comparator; the timer is started again if its values differ. -/
def comparatorWrite (s : Vhpet) (n : Fin vhpetNumTimers) (data mask : BitVec 64) : Vhpet :=
  let t := s.timer n
  let s := kassert s (periodic t.capConfig || t.comprate = 0) "vhpet one-shot timer has invalid rate"
  let t' := comparatorValues t data mask
  let s := setTimer s n { t' with capConfig := t.capConfig &&& ~~~hpetTcnfValSet }
  if (t'.compval ≠ t.compval ∨ t'.comprate ≠ t.comprate) ∧ counterEnabled s then
    let (counter, now, s) := vhpetCounter up s true
    vhpetStartTimer s n counter now
  else s

def configWrite (s : Vhpet) (data mask : BitVec 64) : Vhpet :=
  let (counter, now, s) := vhpetCounter up s (counterEnabled s)
  let oldval := s.config
  let s := { s with config := updateRegister oldval data mask &&& ~~~hpetCnfLegRt }
  if (oldval ^^^ s.config) &&& hpetCnfEnable ≠ 0 then
    if counterEnabled s then vhpetStartCounting up s else vhpetStopCounting s counter now
  else s

def isrWrite (s : Vhpet) (data : BitVec 64) : Vhpet :=
  let isrClearMask := (s.isr &&& data).setWidth 32
  (List.finRange vhpetNumTimers).foldl
    (fun s (i : Fin vhpetNumTimers) =>
      if isrClearMask.getLsbD i then vhpetTimerClearIsr s i else s) s

def counterWrite (s : Vhpet) (data mask : BitVec 64) : Vhpet :=
  let (counter, _, s) := vhpetCounter up s false
  let s := { s with countbase := (updateRegister (counter.setWidth 64) data mask).setWidth 32 }
  if counterEnabled s then vhpetStartCounting up s else s

/-- The registers of a timer. -/
def timerWrite (s : Vhpet) (offset : Nat) (data mask : BitVec 64) (i : Fin vhpetNumTimers) : Vhpet :=
  if offset = hpetTimerCapCnf i ∨ offset = hpetTimerCapCnf i + 4 then
    vhpetTimerUpdateConfig s i data mask
  else if offset = hpetTimerComparator i ∨ offset = hpetTimerComparator i + 4 then
    comparatorWrite up s i data mask
  else
    setTimer s i { s.timer i with msireg := updateRegister (s.timer i).msireg data mask }

def timerOffset (offset : Nat) (i : Fin vhpetNumTimers) : Bool :=
  offset = hpetTimerCapCnf i ∨ offset = hpetTimerCapCnf i + 4 ∨ offset = hpetTimerComparator i ∨
    offset = hpetTimerComparator i + 4 ∨ offset = hpetTimerFsbVal i ∨ offset = hpetTimerFsbAddr i

/-- `vhpet_mmio_write` once the width is known. -/
def registerWrite (s : Vhpet) (offset : Nat) (data mask : BitVec 64) : Vhpet :=
  if offset = hpetConfig ∨ offset = hpetConfig + 4 then configWrite up s data mask
  else if offset = hpetIsr ∨ offset = hpetIsr + 4 then isrWrite s data
  else if offset = hpetMainCounter ∨ offset = hpetMainCounter + 4 then counterWrite up s data mask
  else
    match (List.finRange vhpetNumTimers).find? (timerOffset offset) with
    | some i => timerWrite up s offset data mask i
    | none => s

def vhpetMmioWrite (s : Vhpet) (offset : Nat) (val : BitVec 64) (size : Nat) : Vhpet :=
  if size = 8 then
    if offset % 8 = 0 then registerWrite up s offset val (BitVec.allOnes 64) else s
  else if size = 4 then
    if offset % 4 = 0 then
      if offset &&& 4 ≠ 0 then registerWrite up s offset (val <<< 32) (0xffffffff <<< 32)
      else registerWrite up s offset val 0xffffffff
    else s
  else s

/-! ## Runs -/

inductive Op
  | write (offset : Nat) (val : BitVec 64) (size : Nat)
  /-- The callout thread takes a timer's callout: `CALLOUT_PENDING` goes. -/
  | dispatch (n : Fin vhpetNumTimers)
  /-- Its handler has the lock. -/
  | expire (n : Fin vhpetNumTimers)
deriving DecidableEq, Repr

def next (s : Vhpet) : Op → Option Vhpet
  | .write offset val size => some (vhpetMmioWrite up s offset val size)
  | .dispatch n =>
    if (s.timer n).pending && !(s.timer n).dispatched then
      some (setTimer s n { s.timer n with pending := false, dispatched := true })
    else none
  | .expire n =>
    if (s.timer n).dispatched then
      let s := vhpetHandler up s n
      some (setTimer s n { s.timer n with dispatched := false })
    else none

/-- `vhpet_init`, for an I/O APIC with so many pins. -/
def vhpetInit (pincount : Nat) : Vhpet where
  config := 0
  isr := 0
  countbase := 0
  countbaseSbt := 0
  timer _ :=
    { capConfig := ((if 24 ≤ pincount then 0x00f00000 else 0) <<< 32) ||| hpetTcapPerInt |||
        hpetTcapFsbIntDel
      msireg := 0, compval := 0xffffffff, comprate := 0, active := false, pending := false,
      dispatched := false, calloutSbt := 0 }
  ups := 0
  net _ := 0
  failed := []

def system (pincount : Nat) : System Vhpet Op := System.ofFn (· = vhpetInit pincount) (next up)

end Handlers

/-! ## What is to hold -/

structure StatusOk (s : Vhpet) : Prop where
  /-- Every status bit is some timer's. -/
  known : ∀ k, s.isr.getLsbD k = true → k < vhpetNumTimers
  /-- It is that of a level interrupt, enabled and routed to an allowed pin. -/
  routed : ∀ n, isrSet s n = true →
    interruptEnabled (s.timer n).capConfig = true ∧ edgeTrig (s.timer n).capConfig = false ∧
      msiEnabled (s.timer n).capConfig = false ∧ pin s n ≠ 0 ∧
      pinAllowed (s.timer n).capConfig (pin s n) = true
  /-- Each pin is asserted once for each status bit routed to it. -/
  asserted : ∀ p, s.net p = (Finset.univ.filter fun n => isrSet s n = true ∧ pin s n = p).card
  /-- Nothing was asserted in vain. -/
  failed : s.failed = []

end Xhyve.Vmm.Hpet
