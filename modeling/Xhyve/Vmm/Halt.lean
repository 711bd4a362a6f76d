import Xhyve.Vmm.Lapic
import Mathlib.Data.Finset.Basic
import Mathlib.Tactic.Common

/-!
# Halted vCPUs

`vm_handle_hlt` puts a vCPU to sleep until an event is pending for it, and asks for the machine to be
halted when all active vCPUs sleep with interrupts disabled. The steps of the vCPUs in it and of
the threads that post events come in any order; a step is what one thread does between two accesses
to shared memory.

The vCPU holds its lock from the first check to the place where it is about to wait, and
`vcpu_notify_event` needs that lock; the signal it sends under it reaches a vCPU that waits
already, and no other. The waiting vCPU's `vcpu_sleep_mtx` is not taken by anybody else.
-/

namespace Xhyve.Vmm.Halt

open Xhyve.Lib
open Xhyve.Vmm.Lapic (Vlapic vlapicPendingIntr vlapicSetIntrReady)

def vmMaxcpu : Nat := 16

/-- What the loop of `vm_handle_hlt` looks at, in this order. -/
inductive Check
  | rendezvous | suspend | nmi | extint | lapic
deriving DecidableEq, Repr

/-- Where a vCPU stands. -/
inductive Pc
  | out
  /-- About to read a condition. -/
  | check (c : Check)
  /-- About to set its bit in `halted_cpus`. -/
  | mark
  /-- About to compare `halted_cpus` and `active_cpus`; it may read either first. -/
  | cmp
  | cmpActive (active : Finset Nat)
  | cmpHalted (halted : Finset Nat)
  /-- About to set the state to `VCPU_SLEEPING`. -/
  | sleep
  /-- About to lock `vcpu_sleep_mtx`. -/
  | lockSleepMtx
  /-- About to release the vCPU lock. -/
  | unlock
  /-- The lock is released; about to wait. -/
  | released
  | waiting
  /-- The wait is over; about to lock the vCPU again. -/
  | woken
  /-- Out of the loop, the lock still held. -/
  | leave (vmHalted : Bool)
  /-- About to call `vm_suspend(vm, VM_SUSPEND_HALT)`. -/
  | suspend
deriving DecidableEq

/-- Whether the vCPU holds its lock. -/
def Pc.locked : Pc → Bool
  | .out | .released | .waiting | .woken | .suspend => false
  | _ => true

structure Vcpu where
  pc : Pc
  intrDisabled : Bool
  vcpuHalted : Bool
  nmiPending : Bool
  extintPending : Bool
  vlapic : Vlapic
  /-- Whether every active vCPU was in `vm_handle_hlt` with interrupts disabled when this one
  last read `halted_cpus`. -/
  sawAllHalted : Bool

inductive SuspendHow
  | reset | poweroff | halt | triplefault
deriving DecidableEq, Repr

/-- A thread that has posted an event and has still to notify. -/
inductive Poster
  | notify (vcpuid : Nat)
  /-- In the loop of `vm_suspend`. -/
  | suspendLoop (i : Nat)
  /-- In the loop of `vm_smp_rendezvous`. -/
  | rendezvousLoop (dest : Finset Nat) (i : Nat)
deriving DecidableEq

structure State where
  vcpu : Nat → Vcpu
  active : Finset Nat
  halted : Finset Nat
  suspend : Option SuspendHow
  /-- Whether `rendezvous_func` is set. -/
  rendezvousFunc : Bool
  posters : Nat → Option Poster

namespace State

def setVcpu (s : State) (i : Nat) (v : Vcpu) : State :=
  { s with vcpu := Function.update s.vcpu i v }

def goto (s : State) (i : Nat) (pc : Pc) : State := s.setVcpu i { s.vcpu i with pc := pc }

def setPoster (s : State) (t : Nat) (p : Option Poster) : State :=
  { s with posters := Function.update s.posters t p }

/-- Whether a condition ends the sleep of a vCPU. -/
def holds (s : State) (i : Nat) : Check → Bool
  | .rendezvous => s.rendezvousFunc
  | .suspend => s.suspend.isSome
  | .nmi => (s.vcpu i).nmiPending
  | .extint => (s.vcpu i).extintPending
  | .lapic => (vlapicPendingIntr (s.vcpu i).vlapic).isSome

/-- The vCPU is in `vm_handle_hlt` with interrupts disabled. -/
def hardHalted (s : State) (i : Nat) : Prop :=
  (s.vcpu i).pc ≠ .out ∧ (s.vcpu i).intrDisabled = true

instance (s : State) (i : Nat) : Decidable (s.hardHalted i) := inferInstanceAs (Decidable (_ ∧ _))

end State

/-! ## `vm_handle_hlt` -/

/-- Where a condition that does not hold leads; the last two are read with interrupts enabled. -/
def afterCheck (intrDisabled : Bool) : Check → Pc
  | .rendezvous => .check .suspend
  | .suspend => .check .nmi
  | .nmi => if intrDisabled then .mark else .check .extint
  | .extint => .check .lapic
  | .lapic => .sleep

/-- Reads `halted_cpus`, and records what the vCPUs were doing then. -/
def recordHalted (s : State) (i : Nat) : Vcpu :=
  { s.vcpu i with sawAllHalted := decide (∀ k ∈ s.active, s.hardHalted k) }

def afterCmp (equal : Bool) : Pc := if equal then .leave true else .sleep

/-- The next step of a vCPU in `vm_handle_hlt`, where it needs nobody else. -/
def stepVcpu (s : State) (i : Nat) : Option State :=
  let v := s.vcpu i
  match v.pc with
  | .out | .cmp | .waiting | .suspend => none
  | .check c =>
    some (s.goto i (if s.holds i c then .leave false else afterCheck v.intrDisabled c))
  | .mark =>
    if v.vcpuHalted then some (s.goto i .cmp)
    else some { s.setVcpu i { v with vcpuHalted := true, pc := .cmp } with
      halted := insert i s.halted }
  | .cmpActive active =>
    some (s.setVcpu i { recordHalted s i with pc := afterCmp (s.halted = active) })
  | .cmpHalted halted => some (s.goto i (afterCmp (halted = s.active)))
  | .sleep => some (s.goto i .lockSleepMtx)
  | .lockSleepMtx => some (s.goto i .unlock)
  | .unlock => some (s.goto i .released)
  | .released => some (s.goto i .waiting)
  | .woken => some (s.goto i (.check .rendezvous))
  | .leave vmHalted =>
    some { s.setVcpu i { v with
        vcpuHalted := false, pc := if vmHalted then .suspend else .out } with
      halted := if v.vcpuHalted then s.halted.erase i else s.halted }

/-! ## Posting and notifying -/

/-- `vcpu_notify_event`; `none` while the vCPU holds its lock. -/
def vcpuNotifyEvent (s : State) (i : Nat) : Option State :=
  if (s.vcpu i).pc.locked then none
  else if (s.vcpu i).pc = .waiting then some (s.goto i .woken)
  else some s

/-- One turn of a loop over the vCPUs that notifies those with a bit set. -/
def loopTurn (s : State) (t : Nat) (i : Nat) (isset : Bool) (next : Poster) : Option State :=
  if i ≥ vmMaxcpu then some (s.setPoster t none)
  else if isset then (vcpuNotifyEvent s i).map (·.setPoster t next)
  else some (s.setPoster t next)

/-- The next step of a thread that has events to notify of. -/
def stepPoster (s : State) (t : Nat) : Option State :=
  match s.posters t with
  | none => none
  | some (.notify i) => (vcpuNotifyEvent s i).map (·.setPoster t none)
  | some (.suspendLoop i) => loopTurn s t i (i ∈ s.active) (.suspendLoop (i + 1))
  | some (.rendezvousLoop dest i) => loopTurn s t i (i ∈ dest) (.rendezvousLoop dest (i + 1))

/-- `vm_suspend` up to its loop: only the first request counts. -/
def vmSuspend (s : State) (t : Nat) (how : SuspendHow) : State :=
  match s.suspend with
  | some _ => s
  | none => { s with suspend := some how }.setPoster t (some (.suspendLoop 0))

inductive Op
  /-- The guest executes HLT. -/
  | hlt (i : Nat) (intrDisabled : Bool)
  | step (i : Nat)
  | readActive (i : Nat)
  | readHalted (i : Nat)
  /-- The wait times out, or ends without cause. -/
  | wake (i : Nat)
  /-- Out of `vm_handle_hlt` a vCPU's own thread takes and raises events of its own. -/
  | own (i : Nat) (vlapic : Vlapic) (nmiPending extintPending : Bool)
  /-- The boot vCPU starts another one. -/
  | activate (n : Nat)
  | injectNmi (t i : Nat)
  | injectExtint (t i : Nat)
  | setIntr (t i vector : Nat) (level : Bool)
  | suspend (t : Nat) (how : SuspendHow)
  /-- A vCPU that found all halted calls `vm_suspend`. -/
  | haltSuspend (t i : Nat)
  | rendezvous (t : Nat) (dest : Finset Nat)
  | endRendezvous
  | notify (t : Nat)

/-- Something posted by a thread that is in no other call. -/
def post (s : State) (t : Nat) (s' : State) : Option State :=
  match s.posters t with
  | some _ => none
  | none => some s'

def next (s : State) : Op → Option State
  | .hlt i intrDisabled =>
    if i ∈ s.active ∧ (s.vcpu i).pc = .out then
      some (s.setVcpu i { s.vcpu i with
        pc := .check .rendezvous, intrDisabled := intrDisabled, vcpuHalted := false })
    else none
  | .step i => stepVcpu s i
  | .readActive i =>
    if (s.vcpu i).pc = .cmp then some (s.goto i (.cmpActive s.active)) else none
  | .readHalted i =>
    if (s.vcpu i).pc = .cmp then
      some (s.setVcpu i { recordHalted s i with pc := .cmpHalted s.halted })
    else none
  | .wake i => if (s.vcpu i).pc = .waiting then some (s.goto i .woken) else none
  | .own i vlapic nmiPending extintPending =>
    if (s.vcpu i).pc = .out then
      some (s.setVcpu i { s.vcpu i with
        vlapic := vlapic, nmiPending := nmiPending, extintPending := extintPending })
    else none
  | .activate n =>
    if n < vmMaxcpu ∧ n ∉ s.active ∧ (s.vcpu 0).pc = .out then
      some { s with active := insert n s.active }
    else none
  | .injectNmi t i =>
    post s t ((s.setVcpu i { s.vcpu i with nmiPending := true }).setPoster t (some (.notify i)))
  | .injectExtint t i =>
    post s t ((s.setVcpu i { s.vcpu i with extintPending := true }).setPoster t (some (.notify i)))
  | .setIntr t i vector level =>
    let r := vlapicSetIntrReady (s.vcpu i).vlapic vector level
    post s t ((s.setVcpu i { s.vcpu i with vlapic := r.1 }).setPoster t
      (if r.2 then some (.notify i) else none))
  | .suspend t how => post s t (vmSuspend s t how)
  | .haltSuspend t i =>
    if (s.vcpu i).pc = .suspend then post s t (vmSuspend (s.goto i .out) t .halt) else none
  | .rendezvous t dest =>
    if s.rendezvousFunc then none
    else post s t ({ s with rendezvousFunc := true }.setPoster t (some (.rendezvousLoop dest 0)))
  | .endRendezvous => some { s with rendezvousFunc := false }
  | .notify t => stepPoster s t

/-- The boot vCPU alone is active, and none is halted. -/
structure Initial (s : State) : Prop where
  out : ∀ i, (s.vcpu i).pc = .out
  notHalted : ∀ i, (s.vcpu i).vcpuHalted = false
  active : s.active = {0}
  halted : s.halted = ∅
  suspend : s.suspend = none
  rendezvousFunc : s.rendezvousFunc = false
  posters : ∀ t, s.posters t = none

def system : System State Op := System.ofFn Initial next

end Xhyve.Vmm.Halt
