import Mathlib.Tactic.Ring
import Xhyve.Lib.DoubleWord
import Xhyve.Vmm.LapicMasks

/-!
# The local APIC timer

The current count is worked out from the instant the timer fires at and the length of a tick, and a write of the divide
configuration changes the length of a tick alone.

Instants are seconds with a 64-bit fraction. The uptime, in nanoseconds, is part of the state, and the callout's timeout is
not: it may run out at any moment.
-/

namespace Xhyve.Vmm.LapicTimer

open Xhyve.Lib
open Xhyve.Vmm.Lapic
open Xhyve.Vmm.LapicMasks (vlapicFireTimer)

/-! ## Instants -/

/-- `struct bintime`: `sec` is the high word, `frac` the low one. -/
abbrev Bintime := DoubleWord 64

def freq2bt (freq : BitVec 32) : Bintime := ⟨0, (0x8000000000000000 / freq.setWidth 64) <<< 1⟩

def bt2freq (bt : Bintime) : BitVec 64 := (0x8000000000000000 + (bt.lo >>> 2)) / (bt.lo >>> 1)

def bintimeMul (bt : Bintime) (x : BitVec 32) : Bintime :=
  let p1 := (bt.lo &&& 0xffffffff) * x.setWidth 64
  let p2 := (bt.lo >>> 32) * x.setWidth 64 + (p1 >>> 32)
  ⟨bt.hi * x.setWidth 64 + (p2 >>> 32), (p2 <<< 32) ||| (p1 &&& 0xffffffff)⟩

/-- `binuptime`, of an uptime in nanoseconds. -/
def binuptime (ns : BitVec 64) : Bintime := ⟨ns / 1000000000, ns % 1000000000 * (0x8000000000000000 / 500000000)⟩

/-! ## The timer -/

def vlapicBusFreq : BitVec 32 := 128 * 1024 * 1024

def vlapicTimerDivisor (dcr : BitVec 32) : Except String (BitVec 32) :=
  match (dcr &&& 0xb).toNat with
  | 0x0b => .ok 1
  | 0x00 => .ok 2
  | 0x01 => .ok 4
  | 0x02 => .ok 8
  | 0x03 => .ok 16
  | 0x08 => .ok 32
  | 0x09 => .ok 64
  | 0x0a => .ok 128
  | _ => .error "vlapic_timer_divisor: invalid dcr"

/-- The flags of `struct callout` the local APIC looks at. -/
structure Callout where
  active : Bool
  pending : Bool
deriving DecidableEq, Repr

structure Timer where
  lapic : Vlapic
  dcrTimer : BitVec 32
  icrTimer : BitVec 32
  timerFreqBt : Bintime
  timerPeriodBt : Bintime
  timerFireBt : Bintime
  callout : Callout
  /-- The uptime in nanoseconds. -/
  uptime : BitVec 64

def calloutStop (s : Timer) : Timer := { s with callout := ⟨false, false⟩ }

def calloutReset (s : Timer) : Timer := { s with callout := ⟨true, true⟩ }

def vlapicPeriodicTimer (s : Vlapic) : Bool := s.lvtLast .timer &&& lvttTmPeriodic ≠ 0

def vlapicGetCcr (s : Timer) : Except String (BitVec 32) :=
  let ccr : BitVec 32 :=
    if s.callout.active then
      let btNow := binuptime s.uptime
      -- scheduled to expire in the future
      if DoubleWord.lt btNow s.timerFireBt then
        let btRem := DoubleWord.sub s.timerFireBt btNow
        (btRem.hi * bt2freq s.timerFreqBt).setWidth 32 + (btRem.lo / s.timerFreqBt.lo).setWidth 32
      else 0
    else 0
  if ccr ≤ s.icrTimer then .ok ccr else .error "vlapic_get_ccr: invalid ccr"

/-- The instant the timer fires at is left as it is. -/
def vlapicDcrWriteHandler (s : Timer) : Except String Timer :=
  match vlapicTimerDivisor s.dcrTimer with
  | .error e => .error e
  | .ok divisor =>
    let freq := freq2bt (vlapicBusFreq / divisor)
    .ok { s with timerFreqBt := freq, timerPeriodBt := bintimeMul freq s.icrTimer }

def vlapicIcrtmrWriteHandler (s : Timer) : Timer :=
  let s := { s with timerPeriodBt := bintimeMul s.timerFreqBt s.icrTimer }
  if s.icrTimer ≠ 0 then
    calloutReset { s with timerFireBt := DoubleWord.add (binuptime s.uptime) s.timerPeriodBt }
  else calloutStop s

def vlapicCalloutHandler (s : Timer) : Timer :=
  -- reset, or stopped
  if s.callout.pending then s
  else if s.callout.active = false then s
  else
    let s := { s with callout := { s.callout with active := false }, lapic := vlapicFireTimer s.lapic }
    if vlapicPeriodicTimer s.lapic then
      let btnow := binuptime s.uptime
      let bt := DoubleWord.sub btnow s.timerFireBt
      -- a delta of a period or more resets the time base
      let base := if DoubleWord.lt bt s.timerPeriodBt then s.timerFireBt else btnow
      calloutReset { s with timerFireBt := DoubleWord.add base s.timerPeriodBt }
    else s

/-- `vlapic_svr_write_handler`: the timer stops with the APIC, and starts with it in periodic mode. -/
def svrWriteHandler (s : Timer) : Timer :=
  let new := s.lapic.svr
  let changed := s.lapic.svrLast ^^^ new
  let periodic := vlapicPeriodicTimer s.lapic
  let s := { s with lapic := vlapicSvrWriteHandler s.lapic }
  if changed &&& svrEnable ≠ 0 then
    if new &&& svrEnable = 0 then calloutStop s
    else if periodic then vlapicIcrtmrWriteHandler s
    else s
  else s

/-! ## Runs -/

inductive Op
  | dcrWrite (data : BitVec 32)
  | icrWrite (data : BitVec 32)
  | lvtWrite (data : BitVec 32)
  | svrWrite (data : BitVec 32)
  /-- The callout thread is about to call the handler. -/
  | expire
  | calloutHandler
  | passTime (uptime : BitVec 64)
deriving DecidableEq, Repr

def next (s : Timer) : Op → Option Timer
  | .dcrWrite data => (vlapicDcrWriteHandler { s with dcrTimer := data }).toOption
  | .icrWrite data => some (vlapicIcrtmrWriteHandler { s with icrTimer := data })
  | .lvtWrite data =>
    some { s with lapic :=
      vlapicLvtWriteHandler { s.lapic with lvt := Function.update s.lapic.lvt .timer data.toNat } .timer }
  | .svrWrite data => some (svrWriteHandler { s with lapic := { s.lapic with svr := data.toNat } })
  | .expire => if s.callout.pending then some { s with callout := { s.callout with pending := false } } else none
  | .calloutHandler => some (vlapicCalloutHandler s)
  | .passTime uptime => if s.uptime ≤ uptime then some { s with uptime } else none

/-- `vlapic_init`, the reset included. -/
def initTimer (uptime : BitVec 64) : Timer where
  lapic := vlapicInit
  dcrTimer := 0
  icrTimer := 0
  timerFreqBt := freq2bt (vlapicBusFreq / 2)
  timerPeriodBt := bintimeMul (freq2bt (vlapicBusFreq / 2)) 0
  timerFireBt := ⟨0, 0⟩
  callout := ⟨false, false⟩
  uptime

def system : System Timer Op := .ofFn (∃ uptime, · = initTimer uptime) next

end Xhyve.Vmm.LapicTimer
