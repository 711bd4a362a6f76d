import Xhyve.Vmm.GuestCopy
import Xhyve.Vmm.SegmentAddress

/-!
# Emulating an instruction on a memory-mapped device

`vmm_emulate_instruction` carries out a decoded instruction whose memory operand is a device: the operand is read and
written through the callbacks of the device, the registers are updated, and string instructions are restarted as
long as their count lasts.
-/

namespace Xhyve.Vmm.Emulate

open Xhyve.Lib
open Xhyve.Vmm.PageWalk
open Xhyve.Vmm.TaskSwitch (Vm Guest Ret TaskM Iov PendingException vmCopySetup vmCopyin vmCopyout gla2gpa injectFault
  protRead idtSS idtGP idtAC)
open Xhyve.Vmm.Decode (Vie VmReg CpuMode OpType gprMap)
open Xhyve.Vmm.Segment (SegReg SegDesc Prot vieCalculateGla size2mask segDescDef32)

inductive Errno
  | einval | efault
  | other (n : Nat)
deriving DecidableEq, Repr

/-- How an emulation ends early: 0 is returned behind an exception that was injected, or an error, or an assertion
fails. -/
inductive Stop
  | fault
  | error (e : Errno)
  | kassert
deriving DecidableEq, Repr

/-- A callback that was made. -/
inductive Access
  | read (gpa : BitVec 64) (size : Nat) (val : BitVec 64)
  | write (gpa : BitVec 64) (size : Nat) (val : BitVec 64)
deriving DecidableEq, Repr

/-- `mem_region_read_t` and `mem_region_write_t` of a device with states `δ`. -/
structure Region (δ : Type) where
  memread : δ → BitVec 64 → Nat → Except Errno (BitVec 64 × δ)
  memwrite : δ → BitVec 64 → BitVec 64 → Nat → Except Errno δ

/-- The virtual CPU, guest memory and the device; `log` are the callbacks made so far. -/
structure Vcpu (δ : Type) where
  guest : Guest
  regs : VmReg → BitVec 64
  segs : SegReg → SegDesc
  nextrip : BitVec 64
  dev : δ
  log : List Access

abbrev EmulM (δ : Type) := EStateM Stop (Vcpu δ)

variable {δ : Type}

def einval {α : Type} : EmulM δ α := throw (.error .einval)

/-! ## Registers, memory and callbacks -/

def vieReadRegister (reg : VmReg) : EmulM δ (BitVec 64) := do
  let s ← get
  return s.regs reg

def vmSetRegister (reg : VmReg) (val : BitVec 64) : EmulM δ PUnit :=
  modify fun s => { s with regs := Function.update s.regs reg val }

/-- `gpr_map[vie->reg]`. -/
def gpr (n : Nat) : VmReg := gprMap.getD n .rax

/-- The register of a byte operand, and whether the operand is its high byte. -/
def vieCalcBytereg (vie : Vie) : VmReg × Bool :=
  if vie.rexPresent = false ∧ vie.reg &&& 0x4 ≠ 0 then (gpr (vie.reg &&& 0x3), true) else (gpr vie.reg, false)

def bytereg (vie : Vie) (val : BitVec 64) : BitVec 64 :=
  (if (vieCalcBytereg vie).2 then val >>> 8 else val) &&& 0xff

def vieReadBytereg (vie : Vie) : EmulM δ (BitVec 64) := do
  let val ← vieReadRegister (vieCalcBytereg vie).1
  return bytereg vie val

def vieWriteBytereg (vie : Vie) (byte : BitVec 64) : EmulM δ PUnit := do
  let (reg, lhbr) := vieCalcBytereg vie
  let origval ← vieReadRegister reg
  let shift := if lhbr then 8 else 0
  vmSetRegister reg (((byte &&& 0xff) <<< shift) ||| (origval &&& ~~~((0xff : BitVec 64) <<< shift)))

/-- The value a register gets when `size` bytes of it are written. -/
def updatedRegister (origval val : BitVec 64) (size : Nat) : BitVec 64 :=
  if size = 1 ∨ size = 2 then (val &&& size2mask size) ||| (origval &&& ~~~(size2mask size))
  else if size = 4 then val &&& 0xffffffff
  else val

def vieUpdateRegister (reg : VmReg) (val : BitVec 64) (size : Nat) : EmulM δ PUnit := do
  if size = 1 ∨ size = 2 ∨ size = 4 ∨ size = 8 then
    let origval ← vieReadRegister reg
    vmSetRegister reg (updatedRegister origval val size)
  else einval

/-- `vm_restart_instruction` on a frozen virtual CPU. -/
def Vcpu.restart (s : Vcpu δ) : Vcpu δ := { s with nextrip := s.regs .rip }

def vmRestartInstruction : EmulM δ PUnit := modify Vcpu.restart

/-- An exception restarts the instruction. -/
def inject {α : Type} (e : PendingException) : EmulM δ α := fun s =>
  match injectFault e s.guest with
  | .ok _ g => .error .fault { s.restart with guest := g }
  | .error _ g => .error .kassert { s with guest := g }

/-- A function of guest memory: its value, or nothing where it returns `EFAULT`. -/
def onGuest {α : Type} (x : TaskM α) : EmulM δ (Option α) := fun s =>
  match x s.guest with
  | .ok a g => .ok (some a) { s with guest := g }
  | .error .efault g => .ok none { s with guest := g }
  | .error .fault g => .error .fault { s.restart with guest := g }
  | .error _ g => .error .kassert { s with guest := g }

def orEfault {α : Type} : Option α → EmulM δ α
  | some a => return a
  | none => throw (.error .efault)

section Callbacks
variable (r : Region δ)

def memread (gpa : BitVec 64) (size : Nat) : EmulM δ (BitVec 64) := fun s =>
  match r.memread s.dev gpa size with
  | .ok (val, dev) => .ok val { s with dev := dev, log := s.log ++ [.read gpa size val] }
  | .error e => .error (.error e) s

def memwrite (gpa val : BitVec 64) (size : Nat) : EmulM δ PUnit := fun s =>
  let log := s.log ++ [.write gpa size val]
  match r.memwrite s.dev gpa val size with
  | .ok dev => .ok ⟨⟩ { s with dev := dev, log := log }
  | .error e => .error (.error e) { s with log := log }

end Callbacks

/-! ## Flags -/

def pslC : BitVec 64 := 0x1
def pslPF : BitVec 64 := 0x4
def pslAF : BitVec 64 := 0x10
def pslZ : BitVec 64 := 0x40
def pslN : BitVec 64 := 0x80
def pslD : BitVec 64 := 0x400
def pslV : BitVec 64 := 0x800
def pslAC : BitVec 64 := 0x40000
def cr0AM : BitVec 64 := 0x40000

def rflagsStatusBits : BitVec 64 := pslC ||| pslPF ||| pslAF ||| pslZ ||| pslN ||| pslV

/-- The status flags of `x - y`. -/
def getcc (opsize : Nat) (x y : BitVec 64) : BitVec 64 :=
  let x := x.setWidth (8 * opsize)
  let y := y.setWidth (8 * opsize)
  let d := x - y
  let flag (c : Bool) (bit : BitVec 64) : BitVec 64 := if c then bit else 0
  let parity := (List.range 8).countP fun i => d.getLsbD i
  flag (x.ult y) pslC ||| flag (parity % 2 == 0) pslPF ||| flag (x.toNat % 16 < y.toNat % 16) pslAF |||
    flag (d == 0) pslZ ||| flag d.msb pslN ||| flag (x.msb != y.msb && d.msb != x.msb) pslV

/-- The status flags are replaced by those in `mask` of `rflags2`. -/
def setFlags (rflags2 mask : BitVec 64) : EmulM δ PUnit := do
  let rflags ← vieReadRegister .rflags
  vieUpdateRegister .rflags ((rflags &&& ~~~rflagsStatusBits) ||| (rflags2 &&& mask)) 8

/-! ## The instructions -/

section Instructions
variable (r : Region δ) (vm : Vm) (paging : GuestPaging) (gpa : BitVec 64) (vie : Vie)

def immediate : BitVec 64 := BitVec.ofInt 64 vie.immediate

def emulateMov : EmulM δ PUnit := do
  let size := vie.opsize
  if vie.op.opByte = 0x88 then
    let byte ← vieReadBytereg vie
    memwrite r gpa byte 1
  else if vie.op.opByte = 0x89 then
    let val ← vieReadRegister (gpr vie.reg)
    memwrite r gpa (val &&& size2mask size) size
  else if vie.op.opByte = 0x8A then
    let val ← memread r gpa 1
    vieWriteBytereg vie val
  else if vie.op.opByte = 0x8B then
    let val ← memread r gpa size
    vieUpdateRegister (gpr vie.reg) val size
  else if vie.op.opByte = 0xA1 then
    let val ← memread r gpa size
    vieUpdateRegister .rax val size
  else if vie.op.opByte = 0xA3 then
    let val ← vieReadRegister .rax
    memwrite r gpa (val &&& size2mask size) size
  else if vie.op.opByte = 0xC6 then memwrite r gpa (immediate vie) 1
  else if vie.op.opByte = 0xC7 then memwrite r gpa (immediate vie &&& size2mask size) size
  else einval

def emulateMovx : EmulM δ PUnit := do
  if vie.op.opByte = 0xB6 then
    let val ← memread r gpa 1
    vieUpdateRegister (gpr vie.reg) (val &&& 0xff) vie.opsize
  else if vie.op.opByte = 0xB7 then
    let val ← memread r gpa 2
    vieUpdateRegister (gpr vie.reg) (val &&& 0xffff) vie.opsize
  else if vie.op.opByte = 0xBE then
    let val ← memread r gpa 1
    vieUpdateRegister (gpr vie.reg) ((val.setWidth 8).signExtend 64) vie.opsize
  else einval

def vieAlignmentCheck (cpl size : Nat) (cr0 rf gla : BitVec 64) : Bool :=
  cpl = 3 ∧ cr0 &&& cr0AM ≠ 0 ∧ rf &&& pslAC ≠ 0 ∧ gla &&& BitVec.ofNat 64 (size - 1) ≠ 0

/-- `#SS` for the stack segment, `#GP` for the others. -/
def injectSegment {α : Type} (seg : SegReg) : EmulM δ α :=
  inject ⟨if seg = .ss then idtSS else idtGP, 0, none⟩

/-- The checks of a linear address. -/
def checkGla (size : Nat) (seg : SegReg) (cr0 rflags : BitVec 64) (gla : Except Segment.Stop (BitVec 64)) :
    EmulM δ (BitVec 64) :=
  match gla with
  | .error .kassert => throw .kassert
  | .error .fault => injectSegment seg
  | .ok gla =>
    if vieCanonicalCheck paging.cpuMode gla.toNat then injectSegment seg
    else if vieAlignmentCheck paging.cpl size cr0 rflags gla then inject ⟨idtAC, 0, none⟩
    else return gla

/-- Helper function to calculate and validate a linear address. -/
def getGla (opsize addrsize : Nat) (prot : Prot) (seg : SegReg) (gpr : VmReg) : EmulM δ (BitVec 64) := do
  let s ← get
  checkGla paging opsize seg (s.regs .cr0) (s.regs .rflags)
    (vieCalculateGla paging.cpuMode seg (s.segs seg) (s.regs gpr) opsize addrsize prot)

/-- The value of bytes that were copied in. -/
def valueOf (bs : List UInt8) : BitVec 64 := BitVec.ofNat 64 (LittleEndian.toNat bs)

/-- The bytes of a value that is copied out. -/
def bytesOf (val : BitVec 64) : Mem := fun i => UInt8.ofNat (val.toNat / 256 ^ i)

def copyin (copyinfo : Iov) (len : Nat) : EmulM δ (BitVec 64) := do
  let s ← get
  return valueOf (vmCopyin s.guest.mem copyinfo len)

def copyout (val : BitVec 64) (copyinfo : Iov) (len : Nat) : EmulM δ PUnit :=
  modify fun s => { s with guest := { s.guest with mem := vmCopyout (bytesOf val) copyinfo len 0 s.guest.mem } }

def copySetup (gla : BitVec 64) (len prot : Nat) : EmulM δ (Option Iov) :=
  onGuest (vmCopySetup vm paging prot 2 gla.toNat len)

/-- The segment of the source. -/
def sourceSegment : SegReg :=
  if vie.segmentOverride then
    match vie.segmentRegister with
    | some .es => .es
    | some .cs => .cs
    | some .ss => .ss
    | some .fs => .fs
    | some .gs => .gs
    | _ => .ds
  else .ds

def isRepeat : Bool := vie.repzPresent || vie.repnzPresent

def stringSize : Nat := if vie.op.opByte = 0xA4 ∨ vie.op.opByte = 0xAA then 1 else vie.opsize

/-- The count register is empty. -/
def countDone (rcx : BitVec 64) : Bool := rcx &&& size2mask vie.addrsize = 0

/-- Case (2): read from system memory and write to mmio. -/
def moveToMmio (opsize : Nat) (copyinfo : Iov) : EmulM δ PUnit := do
  let val ← copyin copyinfo opsize
  memwrite r gpa val opsize

/-- Case (3): read from mmio and write to system memory. -/
def moveFromMmio (opsize : Nat) (copyinfo : Iov) : EmulM δ PUnit := do
  let val ← memread r gpa opsize
  copyout val copyinfo opsize

def vmGla2gpa (gla : BitVec 64) (prot : Nat) : EmulM δ (BitVec 64) := do
  let gpa ← onGuest (gla2gpa vm paging gla.toNat prot)
  let gpa ← orEfault gpa
  return BitVec.ofNat 64 gpa

/-- Case (4): read from and write to mmio. -/
def moveMmio (opsize : Nat) (srcaddr dstaddr : BitVec 64) : EmulM δ PUnit := do
  let srcgpa ← vmGla2gpa vm paging srcaddr protRead
  let dstgpa ← vmGla2gpa vm paging dstaddr protWrite
  let val ← memread r srcgpa opsize
  memwrite r dstgpa val opsize

/-- One element of `MOVS`. -/
def moveElement : EmulM δ PUnit := do
  let opsize := stringSize vie
  let srcaddr ← getGla paging opsize vie.addrsize ⟨true, false⟩ (sourceSegment vie) .rsi
  let src ← copySetup vm paging srcaddr opsize protRead
  match src with
  | some copyinfo => moveToMmio r gpa opsize copyinfo
  | none =>
    let dstaddr ← getGla paging opsize vie.addrsize ⟨false, true⟩ .es .rdi
    let dst ← copySetup vm paging dstaddr opsize protWrite
    match dst with
    | some copyinfo => moveFromMmio r gpa opsize copyinfo
    | none => moveMmio r vm paging opsize srcaddr dstaddr

/-- Errors other than `EFAULT` fail the assertion at the end of `emulate_movs`. -/
def efaultOnly {α : Type} (x : EmulM δ α) : EmulM δ α := fun s =>
  match x s with
  | .error (.error .efault) t => .error (.error .efault) t
  | .error (.error _) t => .error .kassert t
  | result => result

/-- `rsi` or `rdi` behind an element. -/
def stepIndex (rflags index : BitVec 64) (opsize : Nat) : BitVec 64 :=
  if rflags &&& pslD ≠ 0 then index - BitVec.ofNat 64 opsize else index + BitVec.ofNat 64 opsize

def advance (reg : VmReg) : EmulM δ PUnit := do
  let index ← vieReadRegister reg
  let rflags ← vieReadRegister .rflags
  vieUpdateRegister reg (stepIndex rflags index (stringSize vie)) vie.addrsize

/-- Repeat the instruction if the count register is not zero. -/
def countDown (rcx : BitVec 64) : EmulM δ PUnit := do
  if isRepeat vie then
    vieUpdateRegister .rcx (rcx - 1) vie.addrsize
    if countDone vie (rcx - 1) = false then vmRestartInstruction
  else return ⟨⟩

def emulateMovs : EmulM δ PUnit := efaultOnly do
  let rcx ← vieReadRegister .rcx
  if isRepeat vie ∧ countDone vie rcx then return ⟨⟩
  else
    moveElement r vm paging gpa vie
    advance vie .rsi
    advance vie .rdi
    countDown vie rcx

def emulateStos : EmulM δ PUnit := do
  let rcx ← vieReadRegister .rcx
  if isRepeat vie ∧ countDone vie rcx then return ⟨⟩
  else
    let val ← vieReadRegister .rax
    memwrite r gpa val (stringSize vie)
    advance vie .rdi
    countDown vie rcx

def emulateAnd : EmulM δ PUnit := do
  let size := vie.opsize
  let result ←
    if vie.op.opByte = 0x23 then do
      let val1 ← vieReadRegister (gpr vie.reg)
      let val2 ← memread r gpa size
      vieUpdateRegister (gpr vie.reg) (val1 &&& val2) size
      pure (val1 &&& val2)
    else if vie.op.opByte = 0x81 ∨ vie.op.opByte = 0x83 then do
      let val1 ← memread r gpa size
      memwrite r gpa (val1 &&& immediate vie) size
      pure (val1 &&& immediate vie)
    else einval
  setFlags (getcc size result 0) (pslPF ||| pslZ ||| pslN)

def emulateOr : EmulM δ PUnit := do
  let size := vie.opsize
  let result ←
    if vie.op.opByte = 0x81 ∨ vie.op.opByte = 0x83 then do
      let val1 ← memread r gpa size
      memwrite r gpa (val1 ||| immediate vie) size
      pure (val1 ||| immediate vie)
    else einval
  setFlags (getcc size result 0) (pslPF ||| pslZ ||| pslN)

def emulateCmp : EmulM δ PUnit := do
  let rflags2 ←
    if vie.op.opByte = 0x3B then do
      let op1 ← vieReadRegister (gpr vie.reg)
      let op2 ← memread r gpa vie.opsize
      pure (getcc vie.opsize op1 op2)
    else if vie.op.opByte = 0x80 ∨ vie.op.opByte = 0x81 ∨ vie.op.opByte = 0x83 then do
      let size := if vie.op.opByte = 0x80 then 1 else vie.opsize
      let op1 ← memread r gpa size
      pure (getcc size op1 (immediate vie))
    else einval
  setFlags rflags2 rflagsStatusBits

def emulateSub : EmulM δ PUnit := do
  if vie.op.opByte = 0x2B then
    let val1 ← vieReadRegister (gpr vie.reg)
    let val2 ← memread r gpa vie.opsize
    vieUpdateRegister (gpr vie.reg) (val1 - val2) vie.opsize
    setFlags (getcc vie.opsize val1 val2) rflagsStatusBits
  else einval

/-- The size of the stack pointer. -/
def stackaddrsize (ssDesc : SegDesc) : Nat :=
  match paging.cpuMode with
  | .real => 2
  | .mode64 => 8
  | _ => if segDescDef32 ssDesc.access then 4 else 2

def stackSize : Nat :=
  if paging.cpuMode = .mode64 then (if vie.opsizeOverride then 2 else 8) else vie.opsize

def emulateStackOp (pushop : Bool) : EmulM δ PUnit := do
  let s ← get
  let size := stackSize paging vie
  let addrsize := stackaddrsize paging (s.segs .ss)
  let rsp := if pushop then s.regs .rsp - BitVec.ofNat 64 size else s.regs .rsp
  let stackGla ← checkGla paging size .ss (s.regs .cr0) (s.regs .rflags)
    (vieCalculateGla paging.cpuMode .ss (s.segs .ss) rsp size addrsize ⟨!pushop, pushop⟩)
  let found ← copySetup vm paging stackGla size (if pushop then protWrite else protRead)
  let copyinfo ← orEfault found
  if pushop then
    let val ← memread r gpa size
    copyout val copyinfo size
    vieUpdateRegister .rsp rsp addrsize
  else
    let val ← copyin copyinfo size
    memwrite r gpa val size
    vieUpdateRegister .rsp (rsp + BitVec.ofNat 64 size) addrsize

def emulatePush : EmulM δ PUnit :=
  if vie.reg &&& 7 ≠ 6 then einval else emulateStackOp r vm paging gpa vie true

def emulatePop : EmulM δ PUnit :=
  if vie.reg &&& 7 ≠ 0 then einval else emulateStackOp r vm paging gpa vie false

def emulateGroup1 : EmulM δ PUnit :=
  if vie.reg &&& 7 = 1 then emulateOr r gpa vie
  else if vie.reg &&& 7 = 4 then emulateAnd r gpa vie
  else if vie.reg &&& 7 = 7 then emulateCmp r gpa vie
  else einval

def emulateBittest : EmulM δ PUnit := do
  if vie.reg &&& 7 ≠ 4 then einval
  else
    let rflags ← vieReadRegister .rflags
    let val ← memread r gpa vie.opsize
    let bitoff := (immediate vie).toNat % (vie.opsize * 8)
    vieUpdateRegister .rflags (if val.getLsbD bitoff then rflags ||| pslC else rflags &&& ~~~pslC) 8

def vmmEmulateInstruction : EmulM δ PUnit :=
  if vie.decoded = false then einval
  else
    match vie.op.opType with
    | .group1 => emulateGroup1 r gpa vie
    | .pop => emulatePop r vm paging gpa vie
    | .push => emulatePush r vm paging gpa vie
    | .cmp => emulateCmp r gpa vie
    | .mov => emulateMov r gpa vie
    | .movsx | .movzx => emulateMovx r gpa vie
    | .movs => emulateMovs r vm paging gpa vie
    | .stos => emulateStos r gpa vie
    | .and => emulateAnd r gpa vie
    | .or => emulateOr r gpa vie
    | .sub => emulateSub r gpa vie
    | .bittest => emulateBittest r gpa vie
    | .none | .twoByte => einval

end Instructions

end Xhyve.Vmm.Emulate
