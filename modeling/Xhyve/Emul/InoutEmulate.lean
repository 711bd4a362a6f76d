import Xhyve.Emul.Inout
import Xhyve.Vmm.EmulateRepeat

/-!
# I/O instructions

An IN or OUT goes to the handler of its port with the accumulator; a string instruction moves up to sixteen elements
between the port and guest memory and asks to be restarted for the rest. The kernel part has its own way for the ports it
handles itself. What guest memory looks like, how it is translated and what the handlers do is up to the surroundings.
-/

namespace Xhyve.Emul.Inout

open Xhyve.Vmm.Segment (size2mask SegReg SegDesc Prot vieCalculateGla)
open Xhyve.Vmm.Decode (CpuMode)
open Xhyve.Vmm.Emulate (updatedRegister)

def ioportFIn : Nat := 0x1
def ioportFOut : Nat := 0x2

def pslD : BitVec 64 := 0x400
def pslAc : BitVec 64 := 0x40000
def cr0Am : BitVec 64 := 0x40000

inductive Reg
  | rax | rcx | rsi | rdi
deriving DecidableEq, Repr

/-- Faults that are injected with a restart of the instruction. -/
inductive Fault
  | gp
  | ac (errcode : BitVec 32)
  | pf (errcode : BitVec 32) (cr2 : BitVec 64)
deriving DecidableEq, Repr

/-- A call of a port handler, with the address of the element it is for. -/
structure Access where
  gla : BitVec 64
  inp : Bool
  port : Nat
  bytes : Nat
  val : BitVec 32
deriving DecidableEq, Repr

/-- A virtual CPU in the state `σ` of memory and devices. -/
structure Vcpu (σ : Type) where
  regs : Reg → BitVec 64
  machine : σ
  accesses : List Access
  pending : Option Fault
  /-- The instruction is executed again. -/
  restart : Bool

/-- `inout_func_t`: the return value, `*eax` and what becomes of the machine. -/
abbrev InoutFunc (σ : Type) := σ → Bool → Nat → Nat → BitVec 32 → Nat → Int × BitVec 32 × σ

/-- What `xh_vm_copy_setup` ends with. -/
inductive Setup (ι σ : Type)
  | iov (v : ι) (s : σ)
  | fault (f : Fault) (s : σ)
  | error (s : σ)

structure Surroundings (ι σ : Type) where
  /-- The function behind the pointer of a handler. -/
  code : Nat → InoutFunc σ
  copySetup : σ → BitVec 64 → Nat → Prot → Setup ι σ
  copyin : σ → ι → Nat → BitVec 32
  copyout : σ → ι → Nat → BitVec 32 → σ

/-- `u.inout` and `u.inout_str` of an exit. -/
structure VmExit where
  bytes : Nat
  inp : Bool
  string : Bool
  rep : Bool
  port : Nat
  eax : BitVec 32
  cpuMode : CpuMode
  cpl : Nat
  rflags : BitVec 64
  cr0 : BitVec 64
  index : BitVec 64
  count : BitVec 64
  addrsize : Nat
  segName : SegReg
  segDesc : SegDesc

def VmExit.prot (x : VmExit) : Prot := ⟨!x.inp, x.inp⟩

def vieAlignmentCheck (cpl size : Nat) (cr0 rf gla : BitVec 64) : Bool :=
  if cpl ≠ 3 ∨ cr0 &&& cr0Am = 0 ∨ rf &&& pslAc = 0 then false else gla &&& BitVec.ofNat 64 (size - 1) ≠ 0

section Code

variable {ι σ : Type}

def Vcpu.set (m : Vcpu σ) (reg : Reg) (val : BitVec 64) : Vcpu σ := { m with regs := Function.update m.regs reg val }

theorem Vcpu.set_self (m : Vcpu σ) (reg : Reg) (val : BitVec 64) : (m.set reg val).regs reg = val :=
  Function.update_self ..

theorem Vcpu.set_ne (m : Vcpu σ) {reg reg' : Reg} (val : BitVec 64) (h : reg' ≠ reg) :
    (m.set reg val).regs reg' = m.regs reg' :=
  Function.update_of_ne h ..

/-- `none` when an assertion fails: one fault at a time. -/
def injectFault (m : Vcpu σ) (f : Fault) : Option (Vcpu σ) :=
  if m.pending.isSome then none else some { m with pending := some f, restart := true }

def updateRegister (m : Vcpu σ) (reg : Reg) (val : BitVec 64) (size : Nat) : Option (Vcpu σ) :=
  if size = 1 ∨ size = 2 ∨ size = 4 ∨ size = 8 then some (m.set reg (updatedRegister (m.regs reg) val size)) else none

/-! ## String instructions -/

/-- One turn of the loop goes on to the next or leaves it. -/
inductive Element (σ : Type)
  | next (m : Vcpu σ)
  | stop (retval : Int) (m : Vcpu σ)

variable (env : Surroundings ι σ) (handler : InoutFunc σ) (arg : Nat) (x : VmExit)

/-- The handler is called for one element, and gets it from memory or leaves it there. -/
def strAccess (gla : BitVec 64) (iov : ι) (m : Vcpu σ) : Element σ :=
  let val := if x.inp then 0 else env.copyin m.machine iov x.bytes
  let r := handler m.machine x.inp x.port x.bytes val arg
  let m := { m with
    machine := r.2.2
    accesses := m.accesses ++ [⟨gla, x.inp, x.port, x.bytes, if x.inp then r.2.1 else val⟩] }
  if r.1 ≠ 0 then .stop r.1 m
  else .next (if x.inp then { m with machine := env.copyout m.machine iov x.bytes r.2.1 } else m)

/-- The element at a linear address, once it is translated or not. -/
def strSetup (gla : BitVec 64) (m : Vcpu σ) : Setup ι σ → Option (Element σ)
  | .error s => some (.stop (-1) { m with machine := s })
  | .fault f s => (injectFault { m with machine := s } f).map (.stop 0)
  | .iov iov s =>
    if vieAlignmentCheck x.cpl x.bytes x.cr0 x.rflags gla then
      (injectFault { m with machine := s } (.ac 0)).map (.stop 0)
    else some (strAccess env handler arg x gla iov { m with machine := s })

def strAt (m : Vcpu σ) : Except Vmm.Segment.Stop (BitVec 64) → Option (Element σ)
  | .error .kassert => none
  | .error .fault => (injectFault m .gp).map (.stop 0)
  | .ok gla => strSetup env handler arg x gla m (env.copySetup m.machine gla x.bytes x.prot)

def strElement (index : BitVec 64) (m : Vcpu σ) : Option (Element σ) :=
  strAt env handler arg x m (vieCalculateGla x.cpuMode x.segName x.segDesc index x.bytes x.addrsize x.prot)

def nextIndex (index : BitVec 64) : BitVec 64 :=
  if x.rflags &&& pslD ≠ 0 then index - BitVec.ofNat 64 x.bytes else index + BitVec.ofNat 64 x.bytes

/-- The local variables the loop leaves. -/
structure Loop (σ : Type) where
  retval : Int
  index : BitVec 64
  count : BitVec 64
  m : Vcpu σ

def strLoop : Nat → BitVec 64 → BitVec 64 → Vcpu σ → Option (Loop σ)
  | 0, index, count, m => some ⟨0, index, count, m⟩
  | iterations + 1, index, count, m =>
    (strElement env handler arg x index m).bind fun
      | .stop retval m => some ⟨retval, index, count, m⟩
      | .next m => strLoop iterations (nextIndex x index) (count - 1) m

def idxreg (inp : Bool) : Reg := if inp then .rdi else .rsi

/-- The index register, and with a repeat prefix the count register, as the loop leaves them. -/
def updateRegisters (r : Loop σ) : Option (Vcpu σ) :=
  (updateRegister r.m (idxreg x.inp) r.index x.addrsize).bind fun m =>
    if x.rep then updateRegister m .rcx r.count x.addrsize else some m

def emulateString (m : Vcpu σ) : Option (Int × Vcpu σ) :=
  let count := x.count &&& size2mask x.addrsize
  -- No more than 16 elements for one exit.
  (strLoop env handler arg x (min count.toNat 16) (x.index &&& size2mask x.addrsize) count m).bind fun r =>
    (updateRegisters x r).map fun m =>
      (r.retval, if r.retval = 0 ∧ r.count ≠ 0 then { m with restart := true } else m)

/-! ## The accumulator -/

/-- The accumulator with the handler's value in its low bytes. -/
def mergeEax (eax val : BitVec 32) (bytes : Nat) : BitVec 32 :=
  (eax &&& ~~~((size2mask bytes).setWidth 32)) ||| (val &&& (size2mask bytes).setWidth 32)

def emulateAccumulator (m : Vcpu σ) : Int × Vcpu σ :=
  let r := handler m.machine x.inp x.port x.bytes (x.eax &&& (size2mask x.bytes).setWidth 32) arg
  let m := { m with machine := r.2.2 }
  (r.1, if r.1 = 0 ∧ x.inp then m.set .rax ((mergeEax x.eax r.2.1 x.bytes).setWidth 64) else m)

/-- `emulate_inout`: the return value, or `none` when an assertion fails. -/
def emulateInout (t : Table) (strict : Bool) (m : Vcpu σ) : Option (Int × Vcpu σ) :=
  if ¬ (x.port < maxIoports ∧ (x.bytes = 1 ∨ x.bytes = 2 ∨ x.bytes = 4)) then none
  else if strict ∧ (t x.port).handler = defaultInout then some (-1, m)
  else if (t x.port).flags &&& (if x.inp then ioportFIn else ioportFOut) = 0 then some (-1, m)
  else if x.string then
    if x.addrsize = 2 ∨ x.addrsize = 4 ∨ x.addrsize = 8 then
      emulateString env (env.code (t x.port).handler) (t x.port).arg x m
    else none
  else some (emulateAccumulator (env.code (t x.port).handler) (t x.port).arg x m)

/-! ## The kernel part -/

def maxIoportsKernel : Nat := 1280

/-- `ioport_handler_func_t`: the error, `*val` and the machine. -/
abbrev IoportFunc (σ : Type) := σ → Bool → Nat → Nat → BitVec 32 → Bool × BitVec 32 × σ

inductive Kernel (σ : Type)
  /-- Nobody here handles the port. -/
  | retu
  | eio (m : Vcpu σ)
  | done (m : Vcpu σ)

/-- `emulate_inout_port`. What `val` holds before an IN is nobody's business: it is not initialised. -/
def emulateInoutPort (table : Nat → Option (IoportFunc σ)) (uninit : BitVec 32) (m : Vcpu σ) : Kernel σ :=
  match if x.port < maxIoportsKernel then table x.port else none with
  | none => .retu
  | some handler =>
    let val := if x.inp then uninit else x.eax &&& (size2mask x.bytes).setWidth 32
    let r := handler m.machine x.inp x.port x.bytes val
    let m := { m with machine := r.2.2 }
    if r.1 then .eio m
    else .done (if x.inp then m.set .rax ((mergeEax x.eax r.2.1 x.bytes).setWidth 64) else m)

end Code

end Xhyve.Emul.Inout
