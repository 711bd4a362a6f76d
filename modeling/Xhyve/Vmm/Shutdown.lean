import Mathlib
import Xhyve.Lib.Transition
import Xhyve.Vmm.Halt

/-!
# How a machine ends

`vm_suspend` keeps the first reason it is given and has the running vCPUs interrupted. A vCPU that finds the
machine suspended leaves the guest for good, waits in `vm_handle_suspend` until all active vCPUs have
come there, and takes itself out of `cpumask`; its thread ends, except for that of the boot processor,
which waits for `cpumask` to become empty and ends the program with a status that tells the reason.

The boot processor can add vCPUs up to the last moment. A step is what one thread does between two
accesses to shared memory; an interrupt for a vCPU that is not in the guest stays pending.
-/

namespace Xhyve.Vmm.Shutdown

open Xhyve.Lib
open Xhyve.Vmm.Halt (SuspendHow vmMaxcpu)

abbrev Vcpu := Fin vmMaxcpu

/-- `BSP`. -/
def bsp : Vcpu := ⟨0, by decide⟩

/-- Where the thread of a vCPU is. -/
inductive Pc
  | unborn
  /-- Its thread is still to be created: `vm_activate_cpu` has been called, -/
  | activated
  /-- and it is in `cpumask` as well. -/
  | masked
  /-- In user space, at the start or in the handler of an exit. -/
  | user
  /-- In `vcpu_add`. -/
  | adding (newcpu : Vcpu)
  /-- In `vmx_run`, about to look at `suspend`, -/
  | run
  /-- or to call `hv_vcpu_run`. -/
  | enter
  | guest
  | exited
  /-- In a handler of `vm_run`. -/
  | kernel
  /-- At the top of `vm_handle_suspend`, with the reason in its `vm_exit`. -/
  | suspended (how : SuspendHow)
  /-- About to compare `suspended_cpus` and `active_cpus`; it may read either first. -/
  | barrier (how : SuspendHow)
  | sawActive (how : SuspendHow) (active : Finset Vcpu)
  | sawSuspended (how : SuspendHow) (suspended : Finset Vcpu)
  /-- Sleeps for a second at most, or helps with a rendezvous. -/
  | pause (how : SuspendHow)
  /-- In `vmexit_suspend`, about to call `vcpu_delete`, -/
  | delete (how : SuspendHow)
  /-- or to lock `resetcpu_mtx`. -/
  | lock (how : SuspendHow)
  | signal (how : SuspendHow)
  /-- The boot processor, with the lock, about to look at `cpumask`. -/
  | look (how : SuspendHow)
  | waiting (how : SuspendHow)
  | unlock (how : SuspendHow)
  | gone
deriving DecidableEq

/-- How the program comes to its end. -/
inductive End
  | suspended (how : SuspendHow)
  /-- `vcpu_add` by another than the boot processor, or of an active vCPU. -/
  | assertion
  | vmRunError
  | unknownCpu
deriving DecidableEq, Repr

/-- The argument of `exit`; an assertion that fails calls `abort`. -/
def End.status : End → Option Nat
  | .suspended .reset => some 0
  | .suspended .poweroff => some 1
  | .suspended .halt => some 2
  | .suspended .triplefault => some 3
  | .assertion => none
  | .vmRunError | .unknownCpu => some 1

structure State where
  pc : Vcpu → Pc
  suspend : Option SuspendHow
  /-- The vCPU that the loop of `vm_suspend` comes to next. -/
  notify : Option Nat
  /-- An interrupt is pending. -/
  kicked : Vcpu → Bool
  active : Finset Vcpu
  suspended : Finset Vcpu
  cpumask : Finset Vcpu
  /-- Who has `resetcpu_mtx`. -/
  resetcpu : Option Vcpu
  ended : Option End

def State.initial : State where
  pc i := if i = bsp then .user else .unborn
  suspend := none
  notify := none
  kicked _ := false
  active := {bsp}
  suspended := ∅
  cpumask := {bsp}
  resetcpu := none
  ended := none

def goto (s : State) (i : Vcpu) (pc : Pc) : State := { s with pc := Function.update s.pc i pc }

inductive Act
  /-- Somebody calls `vm_suspend`. -/
  | suspend (how : SuspendHow)
  /-- One turn of its loop. -/
  | notify
  /-- A vCPU goes on, -/
  | go (i : Vcpu)
  /-- by the other way, -/
  | other (i : Vcpu)
  /-- or calls `vcpu_add`. -/
  | add (i newcpu : Vcpu)
deriving DecidableEq

/-- In the state `VCPU_RUNNING`. -/
def Pc.running : Pc → Bool
  | .run | .enter | .guest | .exited => true
  | _ => false

def vcpuNotifyEvent (s : State) (i : Vcpu) : State :=
  if (s.pc i).running then { s with kicked := Function.update s.kicked i true } else s

def vmSuspend (s : State) (how : SuspendHow) : State :=
  match s.suspend with
  | none => { s with suspend := some how, notify := some 0 }
  | some _ => s

def vmSuspendNotify (s : State) : Option State :=
  match s.notify with
  | none => none
  | some i =>
    if h : i < vmMaxcpu then
      let s := if ⟨i, h⟩ ∈ s.active then vcpuNotifyEvent s ⟨i, h⟩ else s
      some { s with notify := some (i + 1) }
    else some { s with notify := none }

def vcpuAdd (s : State) (fromcpu newcpu : Vcpu) : State :=
  if fromcpu ≠ bsp ∨ newcpu ∈ s.active then { s with ended := some .assertion }
  else
    { s with
      pc := Function.update (Function.update s.pc newcpu .activated) fromcpu (.adding newcpu)
      active := insert newcpu s.active }

/-- The comparison of `vm_handle_suspend` comes out. -/
def afterCmp (how : SuspendHow) (equal : Bool) : Pc := if equal then .delete how else .pause how

def go (s : State) (i : Vcpu) : Option State :=
  match s.pc i with
  | .unborn | .activated | .masked | .gone | .waiting _ => none
  | .user =>
    if i ∈ s.active ∧ i ∉ s.suspended then some (goto s i .run)
    else some { s with ended := some .vmRunError }
  | .adding n =>
    match s.pc n with
    | .activated => some { goto s n .masked with cpumask := insert n s.cpumask }
    | .masked => some (goto (goto s n .user) i .user)
    | _ => none
  | .run =>
    match s.suspend with
    | some how => some (goto s i (.suspended how))
    | none => some (goto s i .enter)
  | .enter =>
    if s.kicked i then some { goto s i .exited with kicked := Function.update s.kicked i false }
    else some (goto s i .guest)
  | .guest => some { goto s i .exited with kicked := Function.update s.kicked i false }
  | .exited => some (goto s i .kernel)
  | .kernel => some (goto s i .run)
  | .suspended how => some { goto s i (.barrier how) with suspended := insert i s.suspended }
  | .barrier how => some (goto s i (.sawActive how s.active))
  | .sawActive how active => some (goto s i (afterCmp how (s.suspended = active)))
  | .sawSuspended how suspended => some (goto s i (afterCmp how (suspended = s.active)))
  | .pause how => some (goto s i (.barrier how))
  | .delete how =>
    if i ∈ s.cpumask then some { goto s i (.lock how) with cpumask := s.cpumask.erase i }
    else some { s with ended := some .unknownCpu }
  | .lock how =>
    if s.resetcpu = none then
      some { goto s i (if i = bsp then .look how else .signal how) with resetcpu := some i }
    else none
  | .signal how =>
    match s.pc bsp with
    | .waiting how' => some (goto (goto s bsp (.lock how')) i (.unlock how))
    | _ => some (goto s i (.unlock how))
  | .look how =>
    if s.cpumask = ∅ then some (goto s i (.unlock how))
    else some { goto s i (.waiting how) with resetcpu := none }
  | .unlock how =>
    if i = bsp then some { s with resetcpu := none, ended := some (.suspended how) }
    else some { goto s i .gone with resetcpu := none }

/-- `vmx_run` goes on after an exit it has handled, or leaves for a rendezvous; `vm_run` returns to user space; the other set
is read first; `pthread_cond_wait` returns without a signal. -/
def goOther (s : State) (i : Vcpu) : Option State :=
  match s.pc i with
  | .exited => some (goto s i .run)
  | .run => if s.suspend = none then some (goto s i .kernel) else none
  | .kernel => some (goto s i .user)
  | .barrier how => some (goto s i (.sawSuspended how s.suspended))
  | .waiting how => some (goto s i (.lock how))
  | _ => none

def next (s : State) (a : Act) : Option State :=
  if s.ended.isSome then none
  else
    match a with
    | .suspend how => some (vmSuspend s how)
    | .notify => vmSuspendNotify s
    | .go i => go s i
    | .other i => goOther s i
    | .add i newcpu => if s.pc i = .user then some (vcpuAdd s i newcpu) else none

def system : System State Act := System.ofFn (· = State.initial) next

end Xhyve.Vmm.Shutdown
