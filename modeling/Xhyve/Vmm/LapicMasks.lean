import Xhyve.Vmm.Lapic
import Xhyve.Vmm.LapicDest

/-!
# The local vector table and its copy

`vlapic_write` with the handler of each register, and whatever else reaches a local APIC: resets, interrupts of other
vCPUs and devices, the timer. `lvt_last` is a second copy of the local vector table, from which interrupts are fired.

A page access runs into `vlapic_write` only: the hypervisor never lets the guest write the page itself.
-/

namespace Xhyve.Vmm.LapicMasks

open Xhyve.Lib
open Xhyve.Vmm.Lapic
open Xhyve.Vmm.LapicDest (DestRegs Cpuset Call apicDelstatPend vlapicSetX2apicState vlapicLdrWriteHandler
  vlapicDfrWriteHandler vlapicIcrloWriteHandler)

/-! ## Where the entries are -/

def apicOffsetCmciLvt : Nat := 0x2f0
def apicOffsetTimerLvt : Nat := 0x320

/-- From `APIC_OFFSET_TIMER_LVT` to `APIC_OFFSET_ERROR_LVT`. -/
def lvtOffsets : List Nat := [0x320, 0x330, 0x340, 0x350, 0x360, 0x370]

/-- The entries from `lvt_timer` on, as the register page has them, four words apart. -/
def lvtOrder : List Lvt := [.timer, .thermal, .pmc, .lint0, .lint1, .error]

/-- `vlapic_get_lvtptr`, which indexes words from `lvt_timer`. -/
def vlapicGetLvtptr (offset : Nat) : Option Lvt :=
  if offset = apicOffsetCmciLvt then some .cmci
  else if offset ∈ lvtOffsets then
    let i := (offset - apicOffsetTimerLvt) >>> 2
    lvtOrder[i / 4]?
  else none

/-- The entry of `lvt_last`. -/
def lvtOffToIdx (offset : Nat) : Option Lvt :=
  match offset with
  | 0x2f0 => some .cmci
  | 0x320 => some .timer
  | 0x330 => some .thermal
  | 0x340 => some .pmc
  | 0x350 => some .lint0
  | 0x360 => some .lint1
  | 0x370 => some .error
  | _ => none

/-- A register and its copy are the same entry. -/
theorem lvtptr_eq_idx (offset : Nat) : vlapicGetLvtptr offset = lvtOffToIdx offset := by
  by_cases hcmci : offset = apicOffsetCmciLvt
  · subst hcmci
    rfl
  · unfold vlapicGetLvtptr
    rw [if_neg hcmci]
    by_cases hmem : offset ∈ lvtOffsets
    · rw [if_pos hmem]
      simp only [lvtOffsets, List.mem_cons, List.not_mem_nil, or_false] at hmem
      rcases hmem with rfl | rfl | rfl | rfl | rfl | rfl
      all_goals rfl
    · rw [if_neg hmem]
      simp only [lvtOffsets, List.mem_cons, List.not_mem_nil, or_false, not_or] at hmem
      obtain ⟨htimer, htherm, hpmc, hlint0, hlint1, herror⟩ := hmem
      unfold lvtOffToIdx
      split <;> first | rfl | contradiction

/-! ## What the architecture lets software set -/

def lvtPolarity : Nat := lvtIipp

/-- The fields of an entry software may write. -/
def lvtWritable : Lvt → Nat
  | .timer => lvtM ||| lvtVectorMask ||| lvttTm
  | .error => lvtM ||| lvtVectorMask
  | .lint0 | .lint1 => lvtM ||| lvtVectorMask ||| lvtDm ||| lvtTm ||| lvtPolarity
  | _ => lvtM ||| lvtVectorMask ||| lvtDm

/-- The fields that only report: the delivery status and, of the pins, the remote IRR. -/
def lvtStatus : Lvt → Nat
  | .lint0 | .lint1 => lvtDs ||| lvtRirr
  | _ => lvtDs

theorem lvtWriteMask_eq (i : Lvt) : lvtWriteMask i = lvtWritable i ||| lvtStatus i := by cases i <;> decide

/-! ## Triggering an entry -/

/-- `vlapic_enabled`; the bit of `msr_apicbase` cannot be cleared. -/
def vlapicEnabled (s : Vlapic) : Bool := s.svr &&& svrEnable ≠ 0

/-- `vlapic_trigger_lvt` by index; `none` is `EINVAL`. -/
def lvtOfIdx : Int → Option Lvt
  | 0 => some .lint0
  | 1 => some .lint1
  | 2 => some .timer
  | 3 => some .error
  | 4 => some .pmc
  | 5 => some .thermal
  | 6 => some .cmci
  | _ => none

def vlapicTriggerLvt (s : Vlapic) (vector : Int) : Option Vlapic :=
  if vlapicEnabled s = false then
    -- the pins then work as INTR and NMI
    match lvtOfIdx vector with
    | some .lint0 => some (s.emit .injectExtint)
    | some .lint1 => some (s.emit .injectNmi)
    | _ => some s
  else
    match lvtOfIdx vector with
    | some i => some (vlapicFireLvt s (triggerLvt s i)).1
    | none => none

def vlapicFireTimer (s : Vlapic) : Vlapic := (vlapicFireLvt s (s.lvtLast .timer ||| lvtDmFixed)).1

def vlapicFireCmci (s : Vlapic) : Vlapic := (vlapicFireLvt s (s.lvtLast .cmci)).1

/-! ## Register writes -/

/-- A local APIC, but for the timer's clock. -/
structure Chip where
  lapic : Vlapic
  dest : DestRegs
  icrLo : BitVec 32
  icrHi : BitVec 32

/-- What a destination is looked up in. -/
structure Others where
  active : Cpuset
  lapic : Nat → DestRegs

/-- A call that some sender makes, as far as it concerns the local APIC of `vcpuid`. -/
def receive (vcpuid : Nat) (s : Vlapic) : Call → Vlapic
  | .lapicSetIntr cpu vector level =>
    if cpu = vcpuid ∧ 16 ≤ vector.toNat ∧ vector.toNat ≤ 255 then
      let r := vlapicSetIntrReady s vector.toNat level
      if r.2 then r.1.emit .notifyEvent else r.1
    else s
  | .injectNmi v => if v = vcpuid then s.emit .injectNmi else s
  | .injectExtint v => if v = vcpuid then s.emit .injectExtint else s
  | .setError v => if v = vcpuid then vlapicSetError s esrSendIllegalVector else s

/-- `vlapic_icrlo_write_handler`; INIT and STARTUP leave these registers alone. -/
def icrloWrite (vcpuid : Nat) (o : Others) (c : Chip) : Chip :=
  let lapics := Function.update o.lapic vcpuid c.dest
  let calls := (vlapicIcrloWriteHandler o.active lapics vcpuid c.icrLo c.icrHi).getD []
  { c with icrLo := c.icrLo &&& ~~~apicDelstatPend, lapic := calls.foldl (receive vcpuid) c.lapic }

/-- The registers `vlapic_write` has a handler for. -/
inductive Register
  | id | tpr | eoi | ldr | dfr | svr | icrLow | icrHi | lvt (i : Lvt) | timerIcr | timerDcr | esr | selfIpi
deriving DecidableEq, Repr

def registerAt (offset : Nat) : Option Register :=
  match offset with
  | 0x020 => some .id
  | 0x080 => some .tpr
  | 0x0b0 => some .eoi
  | 0x0d0 => some .ldr
  | 0x0e0 => some .dfr
  | 0x0f0 => some .svr
  | 0x280 => some .esr
  | 0x300 => some .icrLow
  | 0x310 => some .icrHi
  | 0x380 => some .timerIcr
  | 0x3e0 => some .timerDcr
  | 0x3f0 => some .selfIpi
  | _ => (lvtOffToIdx offset).map .lvt

/-- One case of the switch. ID is written back as it was, and the timer's registers act on its clock. -/
def writeRegister (vcpuid : Nat) (o : Others) (c : Chip) (data : Nat) : Register → Except String Chip
  | .id | .timerDcr => .ok c
  | .tpr => (vlapicSetTpr c.lapic (data &&& 0xff)).map fun s => { c with lapic := s }
  | .eoi => (vlapicProcessEoi c.lapic).map fun s => { c with lapic := s }
  | .ldr => .ok { c with dest := vlapicLdrWriteHandler vcpuid { c.dest with ldr := BitVec.ofNat 32 data } }
  | .dfr => .ok { c with dest := vlapicDfrWriteHandler { c.dest with dfr := BitVec.ofNat 32 data } }
  | .svr => .ok { c with lapic := vlapicSvrWriteHandler { c.lapic with svr := data % 2 ^ 32 } }
  | .icrLow =>
    let c := { c with icrLo := BitVec.ofNat 32 data }
    let c := if c.dest.x2apic then { c with icrHi := BitVec.ofNat 32 (data >>> 32) } else c
    .ok (icrloWrite vcpuid o c)
  | .icrHi => .ok { c with icrHi := BitVec.ofNat 32 data }
  | .lvt i => .ok { c with lapic :=
      vlapicLvtWriteHandler { c.lapic with lvt := Function.update c.lapic.lvt i (data % 2 ^ 32) } i }
  | .timerIcr => .ok { c with lapic := c.lapic.emit .icrtmrWrite }
  | .esr => .ok { c with lapic := vlapicEsrWriteHandler c.lapic }
  | .selfIpi =>
    if c.dest.x2apic then
      .ok { c with lapic := receive vcpuid c.lapic (.lapicSetIntr vcpuid (BitVec.ofNat 32 (data &&& 0xff)) false) }
    else .ok c

def lapicSize : Nat := 0x400

def pageSize : Nat := 4096

def vlapicWrite (vcpuid : Nat) (o : Others) (c : Chip) (mmioAccess : Bool) (offset data : Nat) : Except String Chip :=
  if ¬ (offset &&& 0xf = 0 ∧ offset < pageSize) then .error "vlapic_write: invalid offset"
  else if offset > lapicSize then .ok c
  else if c.dest.x2apic ∧ mmioAccess then .ok c
  else if ¬ c.dest.x2apic ∧ ¬ mmioAccess then .ok c
  else
    match registerAt offset with
    | some r => writeRegister vcpuid o c data r
    | none => .ok c

/-! ## Resets -/

/-- `vlapic_reset`: the register page is cleared, the rest of the structure is kept. -/
def vlapicReset (s : Vlapic) : Vlapic :=
  let s := { s with
    tpr := 0, ppr := 0, svr := 0, esr := 0
    isr := fun _ => 0, tmr := fun _ => 0, irr := fun _ => 0, lvt := fun _ => 0 }
  let s := vlapicResetTmr (vlapicMaskLvts { s with svr := svrVector })
  { s with svrLast := s.svr }

theorem vlapicInit_eq : vlapicInit = vlapicReset bzero := rfl

def chipReset (c : Chip) : Chip :=
  { c with lapic := vlapicReset c.lapic, dest := { c.dest with ldr := 0, dfr := 0xffffffff }, icrLo := 0, icrHi := 0 }

/-! ## Runs -/

inductive Op
  | write (o : Others) (mmioAccess : Bool) (offset data : Nat)
  | reset
  | setX2apicState (x2apic : Bool)
  /- Devices, other vCPUs and the timer. -/
  | triggerLvt (vector : Int)
  | fireTimer
  | fireCmci
  | setError (mask : Nat)
  | receive (call : Call)
  | setTmr (vector : Nat) (level : Bool)
  /- The processor's other exits and its VM entry. -/
  | setCr8 (val : Nat)
  | intrAccepted (vector : Nat)

def apply (vcpuid : Nat) (c : Chip) : Op → Except String Chip
  | .write o mmioAccess offset data => vlapicWrite vcpuid o c mmioAccess offset data
  | .reset => .ok (chipReset c)
  | .setX2apicState x2apic => .ok { c with dest := vlapicSetX2apicState vcpuid x2apic }
  | .triggerLvt vector => .ok { c with lapic := (vlapicTriggerLvt c.lapic vector).getD c.lapic }
  | .fireTimer => .ok { c with lapic := vlapicFireTimer c.lapic }
  | .fireCmci => .ok { c with lapic := vlapicFireCmci c.lapic }
  | .setError mask => .ok { c with lapic := vlapicSetError c.lapic mask }
  | .receive call => .ok { c with lapic := LapicMasks.receive vcpuid c.lapic call }
  | .setTmr vector level => .ok { c with lapic := vlapicSetTmr c.lapic vector level }
  | .setCr8 val => (vlapicSetCr8 c.lapic val).map fun s => { c with lapic := s }
  | .intrAccepted vector => (vlapicIntrAccepted c.lapic vector).map fun s => { c with lapic := s }

def next (vcpuid : Nat) (c : Chip) (op : Op) : Option Chip := (apply vcpuid c op).toOption

def initChip (vcpuid : Nat) : Chip := ⟨vlapicInit, vlapicSetX2apicState vcpuid false, 0, 0⟩

def system (vcpuid : Nat) : System Chip Op := .ofFn (· = initChip vcpuid) (next vcpuid)

end Xhyve.Vmm.LapicMasks
