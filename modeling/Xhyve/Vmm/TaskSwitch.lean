import Xhyve.Lib.Fallible
import Xhyve.Vmm.PageWalk

/-!
# Task switches

`vmexit_task_switch` and its helpers, over the guest's registers, hidden segment state and memory, with
`vm_gla2gpa` for every access. The helpers of the source return an error and a fault flag; here they
throw what they return, and `CHKERR` is the one place where that is read again.

A guest address stands for the host pointer to it. Reading and writing registers does not fail. The
assertions of `vie_calculate_gla`, which only a debug build has, are left out.
-/

namespace Xhyve.Vmm.TaskSwitch

open Xhyve.Lib Xhyve.Lib.Mem Xhyve.Lib.Fallible
open Xhyve.Vmm.PageWalk (GuestPaging MemSeg PagingMode Result vmGla2gpa)
open Xhyve.Vmm.Decode (CpuMode)

inductive Seg
  | es | cs | ss | ds | fs | gs | ldtr | tr
deriving DecidableEq, Repr

inductive Reg
  | rax | rbx | rcx | rdx | rsi | rdi | rbp | rsp | rip | rflags | cr0 | cr3
  | pdpte (i : Fin 4)
  /-- The selector of a segment register. -/
  | sel (seg : Seg)
deriving DecidableEq, Repr

structure SegDesc where
  base : Nat
  limit : Nat
  access : Nat
deriving DecidableEq, Repr

/-- An exception that is pending; `cr2` is the address of a page fault. -/
structure PendingException where
  vector : Nat
  errcode : Nat
  cr2 : Option Nat
deriving DecidableEq, Repr

structure Guest where
  regs : Reg → Nat
  descs : Seg → SegDesc
  gdtr : SegDesc
  mem : Mem
  pending : Option PendingException
  /-- The event that was being delivered when the exit occurred. -/
  intinfo : Nat
  /-- `task_switch->paging`, which `tss32_restore` brings up to date. -/
  paging : GuestPaging

/-- Where guest memory is. -/
structure Vm where
  segs : List MemSeg
  lowmem : Nat
  highmem : Nat

inductive Reason
  | call | iret | jmp | idtGate
deriving DecidableEq, Repr

/-- The exit: `struct vm_task_switch` and the two fields of `struct vm_exit` that are read. -/
structure TaskExit where
  tsssel : Nat
  ext : Bool
  errcode : Nat
  errcodeValid : Bool
  reason : Reason
  paging : GuestPaging
  rip : Nat
  instLength : Nat
deriving DecidableEq, Repr

/-- What a helper returns when it does not return 0 with no fault, and the other ways the function
does not reach its end. -/
inductive Ret
  /-- 0, with the fault flag set: an exception was injected. -/
  | fault
  /-- 1: an exception was injected. -/
  | one
  /-- `EFAULT`. -/
  | efault
  /-- `goto done` behind an injected exception. -/
  | done
  /-- 16-bit TSS. -/
  | unsupported
  | assertion
  /-- Use of a null pointer. -/
  | null
  /-- Page tables that are walked without end. -/
  | diverged
deriving DecidableEq, Repr

abbrev TaskM := EStateM Ret Guest

def idtTS : Nat := 10
def idtNP : Nat := 11
def idtSS : Nat := 12
def idtGP : Nat := 13
def idtPF : Nat := 14
def idtAC : Nat := 17

def sdtSys286tss : Nat := 1
def sdtSysldt : Nat := 2
def sdtSys286bsy : Nat := 3
def sdtSys386tss : Nat := 9
def sdtSys386bsy : Nat := 11

def pslNt : Nat := 0x4000
def pslAc : Nat := 0x40000
def cr0Ts : Nat := 0x8
def cr0Am : Nat := 0x40000

def protRead : Nat := 1
def protWrite : Nat := 2

/-! ## Selectors and descriptors -/

def isldt (sel : Nat) : Bool := sel &&& 4 ≠ 0
def idxsel (sel : Nat) : Nat := (sel >>> 3) &&& 0x1fff
def selStart (sel : Nat) : Nat := sel &&& 0xfff8
def selLimit (sel : Nat) : Nat := sel ||| 0x7
def selRpl (sel : Nat) : Nat := sel &&& 3

def segDescType (access : Nat) : Nat := access &&& 0x1f
def segDescPresent (access : Nat) : Bool := access &&& 0x80 ≠ 0
def segDescDef32 (access : Nat) : Bool := access &&& 0x4000 ≠ 0
def segDescUnusable (access : Nat) : Bool := access &&& 0x10000 ≠ 0

def tssBusy (type : Nat) : Bool := type &&& 0x2 ≠ 0

/-- A bit field of `struct user_segment_descriptor`. -/
def field (lo width usd : Nat) : Nat := (usd >>> lo) % 2 ^ width

def sdLolimit : Nat → Nat := field 0 16
def sdLobase : Nat → Nat := field 16 24
def sdType : Nat → Nat := field 40 5
def sdDpl : Nat → Nat := field 45 2
def sdP : Nat → Nat := field 47 1
def sdHilimit : Nat → Nat := field 48 4
def sdXx : Nat → Nat := field 52 1
def sdDef32 : Nat → Nat := field 54 1
def sdGran : Nat → Nat := field 55 1
def sdHibase : Nat → Nat := field 56 8

/-- `sd_type &= ~0x2` and `sd_type |= 0x2`. -/
def clearBusy (usd : Nat) : Nat := usd &&& (2 ^ 64 - 1 - 2 ^ 41)
def setBusy (usd : Nat) : Nat := usd ||| 2 ^ 41

def usdToSegDesc (usd : Nat) : SegDesc :=
  let limit := sdLolimit usd ||| sdHilimit usd <<< 16
  { base := sdLobase usd ||| sdHibase usd <<< 24
    limit := if sdGran usd ≠ 0 then (limit <<< 12) ||| 0xfff else limit
    access := sdType usd ||| sdDpl usd <<< 5 ||| sdP usd <<< 7 ||| sdXx usd <<< 12 |||
      sdDef32 usd <<< 14 ||| sdGran usd <<< 15 }

/-! ## Registers and exceptions -/

def getreg (r : Reg) : TaskM Nat := do
  let g ← get
  return g.regs r

def setreg (r : Reg) (val : Nat) : TaskM PUnit :=
  modify fun g => { g with regs := Function.update g.regs r val }

/-- `xh_vm_set_desc`, which does not fail. -/
def updateSegDesc (seg : Seg) (sd : SegDesc) : TaskM PUnit :=
  modify fun g => { g with descs := Function.update g.descs seg sd }

/-- `xh_vm_inject_fault` asserts that no other exception is pending. -/
def injectFault (e : PendingException) : TaskM PUnit := do
  let g ← get
  check g.pending.isSome (throw .assertion)
  modify fun g => { g with pending := some e }

def selException (vector sel : Nat) (ext : Bool) : TaskM PUnit :=
  injectFault ⟨vector, (sel &&& 0xfffc) ||| (if ext then 1 else 0), none⟩

/-- An exception on a selector, and what is returned behind it. -/
def raise (α : Type) (vector sel : Nat) (ext : Bool) (r : Ret) : TaskM α := do
  selException vector sel ext
  throw r

/-! ## Guest memory -/

/-- Guest addresses and lengths of the pieces of a buffer. -/
abbrev Iov := List (Nat × Nat)

def mapGpa (vm : Vm) (gpa len : Nat) : Option Nat :=
  if gpa < vm.lowmem ∧ gpa + len ≤ vm.lowmem then some gpa
  else if 2 ^ 32 ≤ gpa ∧ gpa - 2 ^ 32 < vm.highmem ∧ gpa - 2 ^ 32 + len ≤ vm.highmem then some gpa
  else none

/-- `xh_vm_gla2gpa`. Without another writer two passes are enough. -/
def gla2gpa (vm : Vm) (pg : GuestPaging) (gla prot : Nat) : TaskM Nat := do
  let g ← get
  match vmGla2gpa vm.segs pg (BitVec.ofNat 64 gla) prot 2 g.mem with
  | none => throw .diverged
  | some (r, m) =>
    modify fun g => { g with mem := m }
    match r with
    | .ok gpa => return gpa
    | .pf code => do
      injectFault ⟨idtPF, code, some gla⟩
      throw .fault
    | .gp => do
      injectFault ⟨idtGP, 0, none⟩
      throw .fault
    | .efault => throw .efault

/-- `xh_vm_copy_setup` with room for `iovcnt` pieces. -/
def copySetup (vm : Vm) (pg : GuestPaging) (prot : Nat) : Nat → Nat → Nat → TaskM Iov
  | _, _, 0 => return []
  | 0, _, _ + 1 => throw .assertion
  | iovcnt + 1, gla, len + 1 => do
    let gpa ← gla2gpa vm pg gla prot
    let n := min (len + 1) (4096 - gpa % 4096)
    match mapGpa vm gpa n with
    | none => throw .efault
    | some va => do
      let rest ← copySetup vm pg prot iovcnt (gla + n) (len + 1 - n)
      return (va, n) :: rest

/-- The address of byte `i` of the buffer. -/
def iovAddr : Iov → Nat → Nat
  | [], i => i
  | (va, n) :: iov, i => if i < n then va + i else iovAddr iov (i - n)

def copyin (iov : Iov) : TaskM Mem := do
  let g ← get
  return fun i => g.mem (iovAddr iov i)

/-- Piece by piece. -/
def copyoutMem : Mem → Iov → Mem → Mem
  | m, [], _ => m
  | m, (va, n) :: iov, buf =>
    copyoutMem (fun a => if va ≤ a ∧ a < va + n then buf (a - va) else m a) iov fun i => buf (i + n)

def copyout (buf : Mem) (iov : Iov) : TaskM PUnit :=
  modify fun g => { g with mem := copyoutMem g.mem iov buf }

/-! ## Descriptor tables -/

/-- The table a selector points into. -/
def descTable (g : Guest) (sel : Nat) : SegDesc := if isldt sel then g.descs .ldtr else g.gdtr

/-- `desc_table_limit_check` has returned 0. -/
def inTable (g : Guest) (sel : Nat) : Bool :=
  let t := descTable g sel
  (isldt sel → !segDescUnusable t.access ∧ segDescPresent t.access) ∧ selLimit sel ≤ t.limit

def descTableSetup (vm : Vm) (pg : GuestPaging) (sel prot : Nat) : TaskM Iov := do
  let g ← get
  check ((descTable g sel).limit < selLimit sel) (throw .assertion)
  copySetup vm pg prot 2 ((descTable g sel).base + selStart sel) 8

def descTableRead (vm : Vm) (pg : GuestPaging) (sel : Nat) : TaskM Nat := do
  let iov ← descTableSetup vm pg sel protRead
  let usd ← copyin iov
  return load 8 usd 0

def descTableWrite (vm : Vm) (pg : GuestPaging) (sel usd : Nat) : TaskM PUnit := do
  let iov ← descTableSetup vm pg sel protWrite
  copyout (store 8 (fun _ => 0) 0 usd) iov

def sup (pg : GuestPaging) : GuestPaging := { pg with cpl := 0 }

def readTssDescriptor (vm : Vm) (x : TaskExit) (sel : Nat) : TaskM Nat := do
  let g ← get
  check (isldt sel ∨ idxsel sel = 0) (throw .assertion)
  check (!inTable g sel) (raise _ (if x.reason = .iret then idtTS else idtGP) sel x.ext .one)
  descTableRead vm (sup g.paging) sel

/-! ## Segments -/

def codeDesc (sdType : Nat) : Bool := sdType &&& 0x18 = 0x18
def stackDesc (sdType : Nat) : Bool := sdType &&& 0x1A = 0x12
def dataDesc (sdType : Nat) : Bool := sdType &&& 0x18 = 0x10 ∨ sdType &&& 0x1A = 0x1A
def ldtDesc (sdType : Nat) : Bool := sdType = sdtSysldt

/-- What `validate_seg_desc` distinguishes. `TR` is not one it is called with. -/
inductive SegKind
  | ldt | code | stack | data
deriving DecidableEq, Repr

def Seg.kind : Seg → Option SegKind
  | .ldtr => some .ldt
  | .cs => some .code
  | .ss => some .stack
  | .ds | .es | .fs | .gs => some .data
  | .tr => none

/-- The type of the descriptor fits the segment. -/
def typeFits (kind : SegKind) (type : Nat) : Bool :=
  match kind with
  | .ldt => ldtDesc type
  | .code => codeDesc type
  | .stack => stackDesc type
  | .data => dataDesc type

def absentVector : SegKind → Nat
  | .ldt => idtTS
  | .stack => idtSS
  | .code | .data => idtNP

/-- The privilege checks. -/
def privilegeFits (kind : SegKind) (cpl rpl dpl type : Nat) : Bool :=
  match kind with
  | .ldt => true
  | .stack => rpl = cpl ∧ dpl = cpl
  | .code => if type &&& 0x4 ≠ 0 then !(cpl < dpl) else cpl = dpl
  | .data => (codeDesc type ∧ type &&& 0x4 ≠ 0) ∨ !(dpl < rpl ∨ dpl < cpl)

/-- The checks on a descriptor that has been read. -/
def descFits (kind : SegKind) (cpl sel usd : Nat) : Bool :=
  typeFits kind (sdType usd) ∧ sdP usd ≠ 0 ∧
    privilegeFits kind cpl (selRpl sel) (sdDpl usd) (sdType usd)

/-- The exception for a descriptor that does not fit: the type comes first, then presence. -/
def unfitVector (kind : SegKind) (usd : Nat) : Nat :=
  if !typeFits kind (sdType usd) then idtTS
  else if sdP usd = 0 then absentVector kind
  else idtTS

/-- The checks on the selector alone. -/
def selFits (g : Guest) (kind : SegKind) (sel : Nat) : Bool :=
  !(kind = .ldt ∧ isldt sel) ∧ inTable g sel ∧ !(idxsel sel = 0 ∧ (kind = .code ∨ kind = .stack))

def validateSegDesc (vm : Vm) (x : TaskExit) (seg : Seg) : TaskM SegDesc :=
  match seg.kind with
  | none => throw .assertion
  | some kind => do
    let g ← get
    let sel := g.regs (.sel seg) % 2 ^ 16
    check (!selFits g kind sel) (raise _ idtTS sel x.ext .one)
    if idxsel sel = 0 then return ⟨0, 0, 0x10000⟩
    else do
      let usd ← descTableRead vm (sup g.paging) sel
      check (!descFits kind (selRpl (g.regs (.sel .cs) % 2 ^ 16)) sel usd)
        (raise _ (unfitVector kind usd) sel x.ext .one)
      return usdToSegDesc usd

/-! ## The task state segment -/

/-- Places of `struct tss32`. -/
def tssLink : Nat := 0
def tssCr3 : Nat := 28
def tssEip : Nat := 32
def tssEflags : Nat := 36
def tssLdt : Nat := 96

/-- The general registers, in the order of the structure. -/
def tssGprs : List (Reg × Nat) :=
  [(.rax, 40), (.rcx, 44), (.rdx, 48), (.rbx, 52), (.rsp, 56), (.rbp, 60), (.rsi, 64), (.rdi, 68)]

def tssSels : List (Seg × Nat) :=
  [(.es, 72), (.cs, 76), (.ss, 80), (.ds, 84), (.fs, 88), (.gs, 92)]

/-- The image `tss32_save` copies out. -/
def tssSaved (g : Guest) (x : TaskExit) (eip : Nat) (tss : Mem) : Mem :=
  let tss := tssGprs.foldl (fun tss f => store 4 tss f.2 (g.regs f.1 % 2 ^ 32)) tss
  let tss := tssSels.foldl (fun tss f => store 2 tss f.2 (g.regs (.sel f.1) % 2 ^ 16)) tss
  let eflags := g.regs .rflags % 2 ^ 32
  let eflags := if x.reason = .iret then eflags &&& (0xffffffff - pslNt) else eflags
  store 4 (store 4 tss tssEflags eflags) tssEip eip

def tss32Save (x : TaskExit) (eip : Nat) (tss : Mem) (iov : Iov) : TaskM PUnit := do
  let g ← get
  copyout (tssSaved g x eip tss) iov

/-- A PDPTE that is present with a reserved bit set, `MAXPHYADDR` being 36. -/
def pdpteReserved (pdpte : Nat) : Bool :=
  pdpte &&& 1 ≠ 0 ∧ pdpte &&& ((2 ^ 64 - 2 ^ 36) ||| 0x1E6) ≠ 0

def pdpteAt (m : Mem) (va : Nat) (i : Fin 4) : Nat := load 8 m (va + 8 * i.val)

/-- The four PDPTEs behind the new CR3. -/
def restorePdptes (vm : Vm) (cr3 : Nat) : TaskM PUnit :=
  match mapGpa vm (cr3 &&& 0xffffffe0) 32 with
  | none => throw .null
  | some va => do
    let g ← get
    check (∃ i, pdpteReserved (pdpteAt g.mem va i)) do
      injectFault ⟨idtGP, 0, none⟩
      throw .one
    (List.finRange 4).forM fun i => setreg (.pdpte i) (pdpteAt g.mem va i)

def restoreCr3 (vm : Vm) (cr3 : Nat) : TaskM PUnit := do
  let g ← get
  check (g.paging.pagingMode = .pae) (restorePdptes vm cr3)
  check (g.paging.pagingMode ≠ .flat) do
    setreg .cr3 cr3
    modify fun g => { g with paging := { g.paging with cr3 := BitVec.ofNat 64 cr3 } }

/-- The task that was left is the previous one of the new task. -/
def nested (x : TaskExit) : Bool := x.reason ≠ .iret ∧ x.reason ≠ .jmp

def tss32Linked (x : TaskExit) (otSel : Nat) (tss : Mem) : Mem :=
  if nested x then store 2 tss tssLink otSel else tss

def restoreRegs (x : TaskExit) (tss : Mem) : TaskM PUnit := do
  let eflags := load 4 tss tssEflags
  setreg .rflags (if nested x then eflags ||| pslNt else eflags)
  setreg .rip (load 4 tss tssEip)
  tssGprs.forM fun f => setreg f.1 (load 4 tss f.2)
  tssSels.forM fun f => setreg (.sel f.1) (load 2 tss f.2)

def loadSeg (vm : Vm) (x : TaskExit) (seg : Seg) : TaskM PUnit := do
  let sd ← validateSegDesc vm x seg
  updateSegDesc seg sd

/-- CS and SS are both validated before either is loaded. -/
def restoreSegs (vm : Vm) (x : TaskExit) (tss : Mem) : TaskM PUnit := do
  loadSeg vm x .ldtr
  let cs ← validateSegDesc vm x .cs
  let ss ← validateSegDesc vm x .ss
  updateSegDesc .cs cs
  updateSegDesc .ss ss
  modify fun g => { g with paging := { g.paging with cpl := selRpl (load 2 tss 76) } }
  loadSeg vm x .ds
  loadSeg vm x .es
  loadSeg vm x .fs
  loadSeg vm x .gs

def tss32Restore (vm : Vm) (x : TaskExit) (otSel : Nat) (tss : Mem) (iov : Iov) : TaskM PUnit := do
  let tss := tss32Linked x otSel tss
  setreg (.sel .ldtr) (load 2 tss tssLdt)
  restoreCr3 vm (load 4 tss tssCr3)
  restoreRegs x tss
  check (nested x) (copyout tss iov)
  restoreSegs vm x tss

/-! ## The error code -/

/-- `vie_calculate_gla` outside 64-bit mode; `none` is -1. -/
def vieCalculateGla (desc : SegDesc) (offset length addrsize prot : Nat) : Option Nat :=
  let type := segDescType desc.access
  let mask := 2 ^ (8 * addrsize) - 1
  let expandDown := type &&& 0xC = 0x4
  let lowLimit := if expandDown then (desc.limit + 1) % 2 ^ 32 else 0
  let highLimit :=
    if expandDown then (if segDescDef32 desc.access then 0xffffffff else 0xffff) else desc.limit
  if segDescUnusable desc.access then none
  else if prot &&& protRead ≠ 0 ∧ type &&& 0xA = 0x8 then none
  else if prot &&& protWrite ≠ 0 ∧ (type &&& 0x8 ≠ 0 ∨ type &&& 0xA = 0) then none
  else if (List.range length).any fun i =>
      let off := (offset + i) &&& mask
      off < lowLimit ∨ highLimit < off then none
  else some ((desc.base + (offset &&& mask)) % 2 ^ 32)

def vieAlignmentCheck (cpl size cr0 rf gla : Nat) : Bool :=
  cpl = 3 ∧ cr0 &&& cr0Am ≠ 0 ∧ rf &&& pslAc ≠ 0 ∧ gla % size ≠ 0

def pushErrcode (vm : Vm) (taskType errcode : Nat) : TaskM PUnit := do
  let g ← get
  let desc := g.descs .ss
  let bytes := if taskType = sdtSys386bsy ∨ taskType = sdtSys386tss then 4 else 2
  let stacksize := if segDescDef32 desc.access then 4 else 2
  let esp := (g.regs .rsp % 2 ^ 32 + 2 ^ 32 - bytes) % 2 ^ 32
  match vieCalculateGla desc esp bytes stacksize protWrite with
  | none => raise _ idtSS (g.regs (.sel .ss) % 2 ^ 16) true .fault
  | some gla => do
    check (vieAlignmentCheck g.paging.cpl bytes (g.regs .cr0) (g.regs .rflags) gla) do
      injectFault ⟨idtAC, 1, none⟩
      throw .fault
    let iov ← copySetup vm g.paging protWrite 2 gla bytes
    copyout (store 4 (fun _ => 0) 0 errcode) iov
    setreg .rsp esp

/-! ## `vmexit_task_switch` -/

/-- What is known of the new task. -/
structure NewTask where
  desc : Nat
  type : Nat
  tss : Mem
  iov : Iov

structure OldTask where
  sel : Nat
  desc : Nat
  tss : Mem
  iov : Iov

def is386 (type : Nat) : Bool := type = sdtSys386bsy ∨ type = sdtSys386tss
def is286 (type : Nat) : Bool := type = sdtSys286bsy ∨ type = sdtSys286tss

def tssSize (type : Nat) : Nat := if is386 type then 104 else 44

/-- The vector of the exception for a descriptor that cannot be switched to. -/
def unfitTss (x : TaskExit) (nt : SegDesc) : Option Nat :=
  let type := segDescType nt.access
  if !is386 type ∧ !is286 type then some idtTS
  else if !segDescPresent nt.access then some idtNP
  else if nt.limit < tssSize type - 1 then some idtTS
  else if x.reason = .iret ∧ !tssBusy type then some idtTS
  else if x.reason ≠ .iret ∧ tssBusy type then some idtGP
  else none

/-- The new TSS and its descriptor. -/
def fetchNew (vm : Vm) (x : TaskExit) : TaskM NewTask := do
  let desc ← readTssDescriptor vm x x.tsssel
  match unfitTss x (usdToSegDesc desc) with
  | some vector => raise _ vector x.tsssel x.ext .done
  | none => do
    let nt := usdToSegDesc desc
    let type := segDescType nt.access
    let iov ← copySetup vm (sup x.paging) (protRead ||| protWrite) 2 nt.base (tssSize type)
    let tss ← copyin iov
    return ⟨desc, type, tss, iov⟩

/-- The task register holds a TSS that is busy. -/
def trLoaded (access : Nat) : Bool :=
  !segDescUnusable access ∧ segDescPresent access ∧
    (segDescType access = sdtSys386bsy ∨ segDescType access = sdtSys286bsy)

/-- The old TSS and its descriptor. -/
def fetchOld (vm : Vm) (x : TaskExit) (nt : NewTask) : TaskM OldTask := do
  let g ← get
  let sel := g.regs (.sel .tr) % 2 ^ 16
  check (isldt sel ∨ idxsel sel = 0) (raise _ idtTS sel x.ext .done)
  check (!trLoaded (g.descs .tr).access) (throw .assertion)
  let desc ← readTssDescriptor vm x sel
  let iov ← copySetup vm (sup x.paging) (protRead ||| protWrite) 2 (g.descs .tr).base
    (tssSize nt.type)
  let tss ← copyin iov
  return ⟨sel, desc, tss, iov⟩

/-- The old task's busy bit and its registers. -/
def saveOld (vm : Vm) (x : TaskExit) (nt : NewTask) (ot : OldTask) : TaskM PUnit := do
  check (x.reason = .iret ∨ x.reason = .jmp)
    (descTableWrite vm (sup x.paging) ot.sel (clearBusy ot.desc))
  check (is286 nt.type) (throw .unsupported)
  tss32Save x ((x.rip + x.instLength) % 2 ^ 32) ot.tss ot.iov

/-- The descriptor of the new TSS as the task register takes it. -/
def newDesc (x : TaskExit) (nt : NewTask) : Nat := if x.reason = .iret then nt.desc else setBusy nt.desc

/-- The new task's busy bit. -/
def markNew (vm : Vm) (x : TaskExit) (nt : NewTask) : TaskM PUnit := do
  check (x.reason ≠ .iret) (descTableWrite vm (sup x.paging) x.tsssel (setBusy nt.desc))

/-- The task register and `CR0.TS`; the instruction pointer commits the switch. -/
def commit (x : TaskExit) (nt : NewTask) : TaskM PUnit := do
  setreg (.sel .tr) x.tsssel
  updateSegDesc .tr (usdToSegDesc (newDesc x nt))
  let cr0 ← getreg .cr0
  setreg .cr0 (cr0 ||| cr0Ts)
  setreg .rip (load 4 nt.tss tssEip)

/-- Up to the last access that can raise an exception in the old task. -/
def leaveOld (vm : Vm) (x : TaskExit) : TaskM (NewTask × OldTask) := do
  check (x.paging.cpuMode ≠ .protectedMode) (throw .assertion)
  let nt ← fetchNew vm x
  let ot ← fetchOld vm x nt
  saveOld vm x nt ot
  markNew vm x nt
  return (nt, ot)

/-- From the commit on. -/
def enterNew (vm : Vm) (x : TaskExit) (nt : NewTask) (ot : OldTask) : TaskM PUnit := do
  commit x nt
  tss32Restore vm x ot.sel nt.tss nt.iov
  check x.errcodeValid do
    check (!x.ext ∨ x.reason ≠ .idtGate) (throw .assertion)
    pushErrcode vm nt.type x.errcode
  check (x.reason = .idtGate) (modify fun g => { g with intinfo := 0 })

def taskSwitch (vm : Vm) (x : TaskExit) : TaskM PUnit := do
  let (nt, ot) ← leaveOld vm x
  enterNew vm x nt ot

/-- How the process goes on. -/
inductive Exit
  /-- `VMEXIT_CONTINUE`. -/
  | continue
  /-- `VMEXIT_ABORT`. -/
  | abort
  | assertionFailed
  | crashed
  | hung
deriving DecidableEq, Repr

/-- `CHKERR`: the error is asserted to be 0 or `EFAULT`. -/
def chkerr : Ret → Exit
  | .fault => .continue
  | .one => .assertionFailed
  | .efault => .abort
  | .done => .continue
  | .unsupported => .abort
  | .assertion => .assertionFailed
  | .null => .crashed
  | .diverged => .hung

def vmexitTaskSwitch (vm : Vm) (x : TaskExit) (g : Guest) : Exit × Guest :=
  match taskSwitch vm x g with
  | .ok _ g' => (.continue, g')
  | .error r g' => (chkerr r, g')

end Xhyve.Vmm.TaskSwitch
