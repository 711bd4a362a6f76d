import Xhyve.Lib.BitWords
import Xhyve.Lib.Transition

/-!
# The local APIC: registers, in-service stack and handlers

The registers of `struct LAPIC` and the fields of `struct vlapic` that decide
which interrupt is in service. Handlers that can reach `xhyve_abort` return the
text they would print. Calls into the rest of the VM are recorded in `trace`,
newest first; the timer's own clock is not part of this state.

The identification registers, ICR, LDR/DFR and the timer counters are left out:
no function below reads them.
-/

namespace Xhyve.Vmm.Lapic

open Xhyve.Lib

def prio (x : Nat) : Nat := x >>> 4

def isrvecStkSize : Nat := 16 + 1

def svrVector : Nat := 0xff
def svrEnable : Nat := 0x100

def esrSendIllegalVector : Nat := 0x20
def esrReceiveIllegalVector : Nat := 0x40

def lvtVectorMask : Nat := 0xff
def lvtDm : Nat := 0x700
def lvtDmFixed : Nat := 0x000
def lvtDmNmi : Nat := 0x400
def lvtDmExtint : Nat := 0x700
def lvtDs : Nat := 0x1000
def lvtIipp : Nat := 0x2000
def lvtRirr : Nat := 0x4000
def lvtTm : Nat := 0x8000
def lvtM : Nat := 0x10000
def lvttTm : Nat := 0x20000
def lvttTmPeriodic : Nat := 0x20000

inductive Lvt
  | lint0 | lint1 | timer | error | pmc | thermal | cmci
  deriving DecidableEq, Repr

/-- What the local APIC asks of the rest of the virtual machine. -/
inductive Event
  | notifyEvent
  | injectNmi
  | injectExtint
  | injectGp
  | calloutStop
  | icrtmrWrite
  | vioapicEoi (vector : Nat)
  | gratuitousEoi
  deriving DecidableEq, Repr

structure Vlapic where
  tpr : Nat
  ppr : Nat
  svr : Nat
  esr : Nat
  isr : BitWords 32
  tmr : BitWords 32
  irr : BitWords 32
  lvt : Lvt → Nat
  lvtLast : Lvt → Nat
  svrLast : Nat
  esrPending : Nat
  esrFiring : Bool
  isrvecStk : Nat → Nat
  isrvecStkTop : Nat
  trace : List Event

namespace Vlapic

def emit (s : Vlapic) (e : Event) : Vlapic := { s with trace := e :: s.trace }

/-- The entries `isrvec_stk[1..isrvec_stk_top]`, bottom first. -/
def stack (s : Vlapic) : List Nat := (List.range s.isrvecStkTop).map fun i => s.isrvecStk (i + 1)

/-- The vectors whose in-service bit is set, in ascending order. -/
def inService (s : Vlapic) : List Nat := s.isr.elems 256

end Vlapic

/-! ## Requesting an interrupt -/

/-- The part of `vlapic_set_intr_ready` a vector of 16 or more reaches. -/
def setIrr (s : Vlapic) (vector : Nat) : Vlapic × Bool :=
  if s.svr &&& svrEnable = 0 then (s, false)
  else ({ s with irr := s.irr.set vector }, true)

/-- `vlapic_fire_lvt`, given what `vlapic_set_error` does at this depth. -/
def fireLvtWith (setError : Vlapic → Nat → Vlapic) (s : Vlapic) (lvt : Nat) : Vlapic × Bool :=
  if lvt &&& lvtM ≠ 0 then (s, false)
  else
    let vec := lvt &&& lvtVectorMask
    let mode := lvt &&& lvtDm
    if mode = lvtDmFixed then
      if vec < 16 then (setError s esrSendIllegalVector, false)
      else
        let r := setIrr s vec
        (if r.2 then r.1.emit .notifyEvent else r.1, true)
    else if mode = lvtDmNmi then (s.emit .injectNmi, true)
    else if mode = lvtDmExtint then (s.emit .injectExtint, true)
    else (s, false)

/-- While `esr_firing` is set a nested error is only recorded. -/
def vlapicSetError (s : Vlapic) (mask : Nat) : Vlapic :=
  let s := { s with esrPending := s.esrPending ||| mask }
  if s.esrFiring then s
  else
    let nested (s : Vlapic) (m : Nat) := { s with esrPending := s.esrPending ||| m }
    let s := (fireLvtWith nested { s with esrFiring := true } (s.lvtLast .error ||| lvtDmFixed)).1
    { s with esrFiring := false }

def vlapicFireLvt (s : Vlapic) (lvt : Nat) : Vlapic × Bool := fireLvtWith vlapicSetError s lvt

def vlapicSetIntrReady (s : Vlapic) (vector : Nat) (_level : Bool) : Vlapic × Bool :=
  if s.svr &&& svrEnable = 0 then (s, false)
  else if vector < 16 then (vlapicSetError s esrReceiveIllegalVector, true)
  else setIrr s vector

/-- The local vector table entry a trigger reads; timer and error are fixed mode. -/
def triggerLvt (s : Vlapic) : Lvt → Nat
  | .timer => s.lvtLast .timer ||| lvtDmFixed
  | .error => s.lvtLast .error ||| lvtDmFixed
  | i => s.lvtLast i

/-! ## Local vector table, spurious vector and error status writes -/

def lvtWriteMask : Lvt → Nat
  | .timer => lvtM ||| lvtDs ||| lvtVectorMask ||| lvttTm
  | .error => lvtM ||| lvtDs ||| lvtVectorMask
  | .lint0 | .lint1 => lvtM ||| lvtDs ||| lvtVectorMask ||| (lvtTm ||| lvtRirr ||| lvtIipp) ||| lvtDm
  | _ => lvtM ||| lvtDs ||| lvtVectorMask ||| lvtDm

def vlapicLvtWriteHandler (s : Vlapic) (i : Lvt) : Vlapic :=
  let val := if s.svr &&& svrEnable = 0 then s.lvt i ||| lvtM else s.lvt i
  let val := val &&& lvtWriteMask i
  { s with lvt := Function.update s.lvt i val, lvtLast := Function.update s.lvtLast i val }

def maskLvt (s : Vlapic) (i : Lvt) : Vlapic :=
  vlapicLvtWriteHandler { s with lvt := Function.update s.lvt i (s.lvt i ||| lvtM) } i

def vlapicMaskLvts (s : Vlapic) : Vlapic :=
  [Lvt.cmci, .timer, .thermal, .pmc, .lint0, .lint1, .error].foldl maskLvt s

def vlapicSvrWriteHandler (s : Vlapic) : Vlapic :=
  let new := s.svr
  let changed := s.svrLast ^^^ new
  let s := { s with svrLast := new }
  if changed &&& svrEnable ≠ 0 then
    if new &&& svrEnable = 0 then vlapicMaskLvts (s.emit .calloutStop)
    else if s.lvtLast .timer &&& lvttTmPeriodic ≠ 0 then s.emit .icrtmrWrite
    else s
  else s

def vlapicEsrWriteHandler (s : Vlapic) : Vlapic := { s with esr := s.esrPending, esrPending := 0 }

def vlapicSetTmr (s : Vlapic) (vector : Nat) (level : Bool) : Vlapic :=
  { s with tmr := if level then s.tmr.set vector else s.tmr.clear vector }

/-! ## Processor priority -/

/-- The first loop of `vlapic_update_ppr`, over the entries above the placeholder. -/
def prioIncreasing : Int → List Nat → Bool
  | _, [] => true
  | lastprio, v :: rest => if (prio v : Int) ≤ lastprio then false else prioIncreasing (prio v) rest

/-- The second loop: each set bit, in vector order, must be the next stack entry. -/
def isrInSync (isr : BitWords 32) : List Nat → List Nat → Bool
  | [], _ => true
  | vector :: vs, entries =>
    if isr.has vector then
      match entries with
      | [] => false
      | e :: rest => if e ≠ vector then false else isrInSync isr vs rest
    else isrInSync isr vs entries

def pprOf (tpr isrvec : Nat) : Nat := if prio tpr ≥ prio isrvec then tpr else isrvec &&& 0xf0

def vlapicUpdatePpr (s : Vlapic) : Except String Vlapic :=
  let isrvec := s.isrvecStk s.isrvecStkTop
  if s.isrvecStkTop = 0 ∧ isrvec ≠ 0 then
    .error ("isrvec_stk is corrupted: " ++ toString isrvec ++ "\n")
  else if ¬ prioIncreasing (-1) s.stack then .error "isrvec_stk does not satisfy invariant\n"
  else if ¬ isrInSync s.isr (List.range 256) s.stack then .error "ISR and isrvec_stk out of sync\n"
  else .ok { s with ppr := pprOf s.tpr isrvec }

/-! ## End of interrupt, task priority, injection -/

def vlapicProcessEoi (s : Vlapic) : Except String Vlapic :=
  match s.isr.highest 8 with
  | none => .ok (s.emit .gratuitousEoi)
  | some vector =>
    if s.isrvecStkTop = 0 then
      .error ("invalid vlapic isrvec_stk_top " ++ toString s.isrvecStkTop ++ "\n")
    else
      (vlapicUpdatePpr { s with
        isr := s.isr.clear vector, isrvecStkTop := s.isrvecStkTop - 1 }).map fun s =>
          if s.tmr.has vector then s.emit (.vioapicEoi vector) else s

def vlapicSetTpr (s : Vlapic) (val : Nat) : Except String Vlapic :=
  if s.tpr ≠ val then vlapicUpdatePpr { s with tpr := val } else .ok s

def vlapicSetCr8 (s : Vlapic) (val : Nat) : Except String Vlapic :=
  if val / 16 ≠ 0 then .ok (s.emit .injectGp) else vlapicSetTpr s ((val <<< 4) % 256)

def vlapicPendingIntr (s : Vlapic) : Option Nat :=
  match s.irr.highest 8 with
  | some vector => if prio vector > prio s.ppr then some vector else none
  | none => none

def vlapicIntrAccepted (s : Vlapic) (vector : Nat) : Except String Vlapic :=
  let stkTop := s.isrvecStkTop + 1
  if stkTop ≥ isrvecStkSize then .error ("isrvec_stk_top overflow " ++ toString stkTop ++ "\n")
  else
    vlapicUpdatePpr { s with
      irr := s.irr.clear vector
      isr := s.isr.set vector
      isrvecStkTop := stkTop
      isrvecStk := Function.update s.isrvecStk stkTop (vector % 256) }

/-! ## Initialisation -/

/-- The zeroed structure and register page `vmx_vlapic_init` starts from. -/
def bzero : Vlapic where
  tpr := 0
  ppr := 0
  svr := 0
  esr := 0
  isr := fun _ => 0
  tmr := fun _ => 0
  irr := fun _ => 0
  lvt := fun _ => 0
  lvtLast := fun _ => 0
  svrLast := 0
  esrPending := 0
  esrFiring := false
  isrvecStk := fun _ => 0
  isrvecStkTop := 0
  trace := []

def vlapicResetTmr (s : Vlapic) : Vlapic :=
  (List.range 256).foldl (fun s v => vlapicSetTmr s v false) s

/-- `vlapic_init`, whose effect on these registers is all in `vlapic_reset`. -/
def vlapicInit : Vlapic :=
  let s := vlapicResetTmr (vlapicMaskLvts { bzero with svr := svrVector })
  { s with svrLast := s.svr }

end Xhyve.Vmm.Lapic
