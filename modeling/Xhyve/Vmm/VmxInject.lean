import Xhyve.Vmm.LapicInService
import Xhyve.Vmm.Pic8259
import Xhyve.Lib.BitFlags

/-!
# Events injected on VM entry

`vmx_inject_interrupts` puts at most one event into the VM-entry interruption-information field:
the event whose delivery the last exit cut short, an exception raised by the exit's handler, an
NMI, an ExtINT or a vector of the local APIC, in this order; where one cannot go in, a window
control asks for an exit as soon as it can. The entry may be abandoned afterwards and tried again.

The function is cut where it reads what other threads write, so that they may post events in
between. `hv_vcpu_run` is not part of the repository: an `Exit` is what it leaves, and what is
assumed of it is `Documented`.
-/

namespace Xhyve.Vmm.VmxInject

open Xhyve.Lib
open Xhyve.Vmm.Lapic (Vlapic)
open Xhyve.Vmm.Pic8259 (Vatpic)

/-! ## Bits -/

def intrValid : BitVec 32 := 0x80000000
def intrTMask : BitVec 32 := 0x700
def intrTHwintr : BitVec 32 := 0x000
def intrTNmi : BitVec 32 := 0x200
def intrTSwexception : BitVec 32 := 0x600
def intrDelErrcode : BitVec 32 := 0x800

def intinfoValid : BitVec 64 := 0x80000000
def intinfoType : BitVec 64 := 0x700
def intinfoRsvd : BitVec 64 := 0x7ffff000
def intinfoHwintr : BitVec 64 := 0x000
def intinfoNmi : BitVec 64 := 0x200
def intinfoHwexception : BitVec 64 := 0x300
def intinfoSwintr : BitVec 64 := 0x400
def intinfoDelErrcode : BitVec 64 := 0x800

def idtNmi : Nat := 2
def idtBp : Nat := 3
def idtOf : Nat := 4
def idtDf : Nat := 8

def stiBlocking : BitVec 32 := 0x1
def movssBlocking : BitVec 32 := 0x2
def nmiBlocked : BitVec 32 := 0x8
def nmiBlocking : BitVec 32 := nmiBlocked ||| movssBlocking
def hwintrBlocking : BitVec 32 := stiBlocking ||| movssBlocking

def intWindowExiting : BitVec 32 := 0x4
def nmiWindowExiting : BitVec 32 := 0x400000

def pslI : BitVec 64 := 0x200

/-! ## State -/

/-- The checks that may fail, by what they find. -/
inductive Abort
  /-- "entry intinfo is not valid" -/
  | entryIntinfo
  /-- "cannot inject pending exception" -/
  | cannotInject
  /-- "vmx_inject_nmi: invalid guest interruptibility-state" -/
  | nmiInterruptibility
  /-- "vmx_inject_nmi: invalid VM-entry interruption information" -/
  | nmiEntryInfo
  /-- "vm_nmi_clear: inconsistent nmi_pending state" -/
  | nmiClear
  /-- "vm_extint_clear: inconsistent extint_pending state" -/
  | extintClear
  /-- "invalid vector from local APIC" -/
  | lapicVector
  /-- "invalid vector from INTR" -/
  | intrVector
  /-- "intr_window_exiting not set" -/
  | intWindow
  /-- "nmi_window_exiting not set" -/
  | nmiWindow
  /-- "vm_set_intinfo error" -/
  | exitIntinfo
  /-- A check of the local APIC. -/
  | vlapic (msg : String)
deriving DecidableEq, Repr

/-- Where an event came from. -/
inductive Source
  | intinfo | nmi
  | lapic (vector : Nat)
  | extint (vector : Nat)
deriving DecidableEq, Repr

inductive Event
  | write (source : Source)
  | nmiClear
  | extintClear
  | vlapicIntrAccepted (vector : Nat)
  | vatpicIntrAccepted (vector : Nat)
deriving DecidableEq, Repr

/-- Where the thread of the vCPU stands in `vmx_run`. -/
inductive Pc
  /-- Before `vmx_inject_interrupts`. -/
  | idle
  /-- Before the test of `nmi_pending`. -/
  | nmi
  /-- Before `extint_pending` is read. -/
  | extint
  /-- Before a controller is asked for its vector. -/
  | ask (extintPending : Bool)
  | inject (extintPending : Bool) (vector : Nat)
  /-- After `vmx_inject_interrupts`. -/
  | ready
deriving DecidableEq, Repr

structure Vmcs where
  entryIntrInfo : BitVec 32
  entryExceptionError : BitVec 32
  guestInterruptibility : BitVec 32
  guestRflags : BitVec 64
  guestRip : BitVec 64
  priProcBasedCtls : BitVec 32
deriving DecidableEq, Repr

structure State where
  vmcs : Vmcs
  /-- `vmx->cap[vcpu].proc_ctls`. -/
  procCtls : BitVec 32
  /-- `vmx->state[vcpu].nextrip`. -/
  nextrip : BitVec 64
  vlapic : Vlapic
  vatpic : Vatpic
  exitintinfo : BitVec 64
  exceptionPending : Bool
  excVector : BitVec 8
  excErrcodeValid : Bool
  excErrcode : BitVec 32
  nmiPending : Bool
  extintPending : Bool
  /-- The vCPU has suspended the machine by a triple fault. -/
  tripleFault : Bool
  pc : Pc
  /-- An exit is being handled, so that an exception may be raised. -/
  handling : Bool
  aborted : Option Abort
  /-- A valid field has been written over. -/
  overwritten : Bool
  /-- Since `vmx_inject_interrupts` began something was posted by another thread, or an NMI by the
  8259s as they were acknowledged, where LINT0 stands for one. -/
  posted : Bool
  log : List Event

def entryValid (s : State) : Prop := s.vmcs.entryIntrInfo &&& intrValid ≠ 0

instance (s : State) : Decidable (entryValid s) := inferInstanceAs (Decidable (_ ≠ _))

def State.setVmcs (s : State) (v : Vmcs) : State := { s with vmcs := v }
def State.emit (s : State) (e : Event) : State := { s with log := e :: s.log }
def State.abort (s : State) (a : Abort) : State := { s with aborted := some a }

/-- A write of the VM-entry interruption-information field. -/
def writeEntry (s : State) (source : Source) (info : BitVec 32) : State :=
  { s with
    vmcs := { s.vmcs with entryIntrInfo := info }
    overwritten := s.overwritten || decide (entryValid s)
    log := .write source :: s.log }

def writeProcCtls (s : State) (ctls : BitVec 32) : State :=
  { s with procCtls := ctls, vmcs := { s.vmcs with priProcBasedCtls := ctls } }

def vmxSetIntWindowExiting (s : State) : State :=
  if s.procCtls &&& intWindowExiting = 0 then writeProcCtls s (s.procCtls ||| intWindowExiting)
  else s

def vmxClearIntWindowExiting (s : State) : State :=
  if s.procCtls &&& intWindowExiting = 0 then s.abort .intWindow
  else writeProcCtls s (s.procCtls &&& ~~~intWindowExiting)

def vmxSetNmiWindowExiting (s : State) : State :=
  if s.procCtls &&& nmiWindowExiting = 0 then writeProcCtls s (s.procCtls ||| nmiWindowExiting)
  else s

def vmxClearNmiWindowExiting (s : State) : State :=
  if s.procCtls &&& nmiWindowExiting = 0 then s.abort .nmiWindow
  else writeProcCtls s (s.procCtls &&& ~~~nmiWindowExiting)

/-! ## The event of `vm_entry_intinfo` -/

inductive ExcClass
  | benign | contributory | pagefault
deriving DecidableEq, Repr

def exceptionClass (info : BitVec 64) : ExcClass :=
  let type := info &&& intinfoType
  let vector := (info &&& 0xff).toNat
  if type = intinfoHwintr ∨ type = intinfoSwintr ∨ type = intinfoNmi then .benign
  else if vector = 14 ∨ vector = 20 then .pagefault
  else if vector = 0 ∨ vector = 10 ∨ vector = 11 ∨ vector = 12 ∨ vector = 13 then .contributory
  else .benign

/-- `none` is a triple fault. -/
def nestedFault (info1 info2 : BitVec 64) : Option (BitVec 64) :=
  if info1 &&& intinfoType = intinfoHwexception ∧ (info1 &&& 0xff).toNat = idtDf then none
  else
    let exc1 := exceptionClass info1
    let exc2 := exceptionClass info2
    if (exc1 = .contributory ∧ exc2 = .contributory) ∨ (exc1 = .pagefault ∧ exc2 ≠ .benign) then
      some (BitVec.ofNat 64 idtDf ||| intinfoValid ||| intinfoHwexception ||| intinfoDelErrcode)
    else some info2

def vcpuExceptionIntinfo (s : State) : BitVec 64 :=
  if s.exceptionPending then
    let info := s.excVector.setWidth 64 ||| intinfoValid ||| intinfoHwexception
    if s.excErrcodeValid then info ||| intinfoDelErrcode ||| (s.excErrcode.setWidth 64 <<< 32)
    else info
  else 0

def vmEntryIntinfo (s : State) : State × Option (BitVec 64) :=
  let info1 := s.exitintinfo
  let info2 := vcpuExceptionIntinfo s
  let s := { s with exitintinfo := 0, exceptionPending := false }
  if info1 &&& intinfoValid ≠ 0 ∧ info2 &&& intinfoValid ≠ 0 then
    match nestedFault info1 info2 with
    | some info => (s, some info)
    | none => ({ s with tripleFault := true }, none)
  else if info1 &&& intinfoValid ≠ 0 then (s, some info1)
  else if info2 &&& intinfoValid ≠ 0 then (s, some info2)
  else (s, none)

/-! ## `vmx_inject_interrupts` -/

/-- Up to the test of `nmi_pending`. -/
def injectIntinfo (s : State) : State :=
  let gi := s.vmcs.guestInterruptibility
  let s :=
    if s.nextrip ≠ s.vmcs.guestRip ∧ gi &&& hwintrBlocking ≠ 0 then
      s.setVmcs { s.vmcs with guestInterruptibility := gi &&& ~~~hwintrBlocking }
    else s
  match vmEntryIntinfo s with
  | (s, none) => s
  | (s, some entryinfo) =>
    if entryinfo &&& intinfoValid = 0 then s.abort .entryIntinfo
    else if entryValid s then s.abort .cannotInject
    else
      let info : BitVec 32 := entryinfo.setWidth 32
      let vector := (info &&& 0xff).toNat
      let info :=
        if vector = idtBp ∨ vector = idtOf then (info &&& ~~~intrTMask) ||| intrTSwexception else info
      let s :=
        if info &&& intrDelErrcode ≠ 0 then
          s.setVmcs { s.vmcs with entryExceptionError := (entryinfo >>> 32).setWidth 32 }
        else s
      writeEntry s .intinfo info

def vmNmiClear (s : State) : State :=
  if s.nmiPending then { s with nmiPending := false }.emit .nmiClear else s.abort .nmiClear

def vmxInjectNmi (s : State) : State :=
  if s.vmcs.guestInterruptibility &&& nmiBlocking ≠ 0 then s.abort .nmiInterruptibility
  else if entryValid s then s.abort .nmiEntryInfo
  else vmNmiClear (writeEntry s .nmi (BitVec.ofNat 32 idtNmi ||| intrTNmi ||| intrValid))

def injectNmi (s : State) : State :=
  if s.nmiPending then
    if s.vmcs.guestInterruptibility &&& (hwintrBlocking ||| nmiBlocking) = 0 ∧ ¬ entryValid s then
      vmxInjectNmi s
    else vmxSetNmiWindowExiting s
  else s

def askVector (s : State) (extintPending : Bool) : State :=
  if s.procCtls &&& intWindowExiting ≠ 0 then { s with pc := .ready }
  else if extintPending then
    let vector := Pic8259.vatpicPendingIntr s.vatpic
    if vector > 255 then s.abort .intrVector else { s with pc := .inject true vector }
  else
    match Lapic.vlapicPendingIntr s.vlapic with
    | none => { s with pc := .ready }
    | some vector =>
      if vector < 16 ∨ vector > 255 then s.abort .lapicVector
      else { s with pc := .inject false vector }

def vmExtintClear (s : State) : State :=
  if s.extintPending then { s with extintPending := false }.emit .extintClear
  else s.abort .extintClear

/-- What other code posts to this vCPU. -/
inductive Post
  | nmi | extint
  | intr (vector : Nat) (level : Bool)
  /-- A source of the local vector table fires. -/
  | lvt (i : Lapic.Lvt)
  | tmr (vector : Nat) (level : Bool)
deriving DecidableEq, Repr

def applyPost (s : State) : Post → State
  | .nmi => { s with nmiPending := true }
  | .extint => { s with extintPending := true }
  | .intr vector level => { s with vlapic := (Lapic.vlapicSetIntrReady s.vlapic vector level).1 }
  | .lvt i => { s with vlapic := (Lapic.vlapicFireLvt s.vlapic (Lapic.triggerLvt s.vlapic i)).1 }
  | .tmr vector level => { s with vlapic := Lapic.vlapicSetTmr s.vlapic vector level }

/-- `vatpic_intr_accepted`, and what its notification posts to this vCPU through LINT0 and the
I/O APIC. -/
def acceptExtint (s : State) (vector : Nat) (again : List Post) : State :=
  let r := Pic8259.vatpicIntrAccepted s.vatpic vector
  let s := { s with vatpic := r.1 }.emit (.vatpicIntrAccepted vector)
  if r.2 then { again.foldl applyPost s with posted := s.posted || again.contains .nmi } else s

/-- From the test of RFLAGS.IF on. -/
def injectVector (s : State) (extintPending : Bool) (vector : Nat) (again : List Post) : State :=
  let s := { s with pc := .ready }
  if s.vmcs.guestRflags &&& pslI = 0 then vmxSetIntWindowExiting s
  else if s.vmcs.guestInterruptibility &&& hwintrBlocking ≠ 0 then vmxSetIntWindowExiting s
  else if entryValid s then vmxSetIntWindowExiting s
  else
    let info := intrTHwintr ||| intrValid ||| BitVec.ofNat 32 vector
    if extintPending then
      vmxSetIntWindowExiting
        (acceptExtint (vmExtintClear (writeEntry s (.extint vector) info)) vector again)
    else
      let s := writeEntry s (.lapic vector) info
      match Lapic.vlapicIntrAccepted s.vlapic vector with
      | .error msg => s.abort (.vlapic msg)
      | .ok vlapic => { s with vlapic := vlapic }.emit (.vlapicIntrAccepted vector)

/-! ## Exits -/

inductive ExitReason
  | intrWindow | nmiWindow | extIntr | taskSwitch | other
deriving DecidableEq, Repr

/-- What `hv_vcpu_run` leaves. -/
structure Exit where
  reason : ExitReason
  entryIntrInfo : BitVec 32
  idtVectoringInfo : BitVec 32
  idtVectoringErr : BitVec 32
  guestInterruptibility : BitVec 32
  guestRflags : BitVec 64
  guestRip : BitVec 64
deriving DecidableEq, Repr

/-- `exitintinfo` from the IDT-vectoring information. -/
def exitIntinfoOf (e : Exit) : BitVec 64 :=
  let info := e.idtVectoringInfo &&& ~~~0x1000
  if info &&& intrDelErrcode ≠ 0 then info.setWidth 64 ||| (e.idtVectoringErr.setWidth 64 <<< 32)
  else info.setWidth 64

/-- Whether `vm_exit_intinfo` takes a valid event. -/
def intinfoOk (info : BitVec 64) : Prop :=
  ¬ (info &&& intinfoType = intinfoNmi ∧ (info &&& 0xff).toNat ≠ idtNmi) ∧
    ¬ (info &&& intinfoType = intinfoHwexception ∧ (info &&& 0xff).toNat ≥ 32) ∧
    info &&& intinfoRsvd = 0

instance (info : BitVec 64) : Decidable (intinfoOk info) :=
  inferInstanceAs (Decidable (_ ∧ _))

/-- What the processor's manual says of a VM entry and the exit that follows, as far as the code
relies on it. -/
structure Documented (v : Vmcs) (e : Exit) : Prop where
  /-- The entry consumes the event: the field's valid bit is clear after the exit. -/
  consumed : e.entryIntrInfo &&& intrValid = 0
  /-- A window exit comes only where its control asks for it. -/
  intrWindow : e.reason = .intrWindow → v.priProcBasedCtls &&& intWindowExiting ≠ 0
  nmiWindow : e.reason = .nmiWindow → v.priProcBasedCtls &&& nmiWindowExiting ≠ 0
  /-- The NMI window is open when nothing blocks NMIs, and between two instructions. -/
  nmiUnblocked : e.reason = .nmiWindow → e.guestInterruptibility &&& nmiBlocking = 0
  nmiBoundary : e.reason = .nmiWindow → e.idtVectoringInfo &&& intrValid = 0
  /-- An event whose delivery was cut short is one that can be injected. -/
  idt : e.idtVectoringInfo &&& intrValid ≠ 0 → intinfoOk (exitIntinfoOf e)

/-- The IDT-vectoring part of `vmx_exit_process`. -/
def exitVectoring (s : State) (e : Exit) : State :=
  if e.idtVectoringInfo &&& intrValid ≠ 0 then
    let info := exitIntinfoOf e
    if intinfoOk info then
      let s := { s with exitintinfo := if info &&& intinfoValid ≠ 0 then info else 0 }
      if e.idtVectoringInfo &&& intrTMask = intrTNmi ∧ e.reason ≠ .taskSwitch then
        s.setVmcs { s.vmcs with
          guestInterruptibility := s.vmcs.guestInterruptibility &&& ~~~nmiBlocked }
      else s
    else s.abort .exitIntinfo
  else s

def exitProcess (s : State) (e : Exit) : State :=
  let s := exitVectoring s e
  match e.reason with
  | .intrWindow => { vmxClearIntWindowExiting s with handling := false }
  | .nmiWindow =>
    let s := if s.nmiPending then vmxInjectNmi s else s
    { vmxClearNmiWindowExiting s with handling := false }
  | .extIntr => { s with handling := false }
  | .taskSwitch | .other => { s with handling := true }

/-- `hv_vcpu_run` and the processing of its exit. -/
def runGuest (s : State) (e : Exit) : State :=
  exitProcess { s with
    vmcs := { s.vmcs with
      entryIntrInfo := e.entryIntrInfo
      guestInterruptibility := e.guestInterruptibility
      guestRflags := e.guestRflags
      guestRip := e.guestRip }
    nextrip := e.guestRip
    pc := .idle } e

/-! ## Runs -/

inductive Op
  | begin
  /-- The next part of `vmx_inject_interrupts`. -/
  | step (again : List Post)
  /-- The entry is abandoned, for a rendezvous or because the machine is suspended. -/
  | abandon
  | run (e : Exit)
  /-- While it handles an exit the vCPU's thread may raise an exception, -/
  | raise (vector : BitVec 8) (errcodeValid : Bool) (errcode : BitVec 32)
  /-- work on its local APIC, -/
  | own (op : Lapic.Op)
  /-- and set registers. -/
  | setRegs (rip rflags : BitVec 64) (clearIntrShadow : Bool)
  /-- Any thread may post an event to the vCPU, or work on the 8259s. -/
  | post (p : Post)
  | atpic (v : Vatpic)

/-- `vm_inject_exception`; a second one is refused. -/
def vmInjectException (s : State) (vector : BitVec 8) (errcodeValid : Bool) (errcode : BitVec 32) :
    State :=
  if vector.toNat ≥ 32 ∨ vector.toNat = idtDf ∨ s.exceptionPending then s
  else
    { s with
      vmcs := { s.vmcs with
        guestInterruptibility := s.vmcs.guestInterruptibility &&& ~~~hwintrBlocking }
      exceptionPending := true
      excVector := vector
      excErrcodeValid := errcodeValid
      excErrcode := errcode }

/-- The parts of `vmx_inject_interrupts` after the first. -/
def stepInject (s : State) (again : List Post) : Option State :=
  match s.pc with
  | .idle | .ready => none
  | .nmi => some { injectNmi s with pc := .extint }
  | .extint => some { s with pc := .ask s.extintPending }
  | .ask extintPending => some (askVector s extintPending)
  | .inject extintPending vector => some (injectVector s extintPending vector again)

def next (s : State) (op : Op) : Option State :=
  if s.aborted.isSome then none
  else
    match op with
    | .begin =>
      if s.pc = .idle then
        some { injectIntinfo s with pc := .nmi, handling := false, posted := false }
      else none
    | .step again => stepInject s again
    | .abandon => if s.pc = .ready then some { s with pc := .idle } else none
    | .run e => if s.pc = .ready ∧ ¬ s.tripleFault then some (runGuest s e) else none
    | .raise vector errcodeValid errcode =>
      if s.handling then some (vmInjectException s vector errcodeValid errcode) else none
    | .own op =>
      if s.handling then
        match Lapic.apply ⟨s.vlapic, none⟩ op with
        | .error msg => some (s.abort (.vlapic msg))
        | .ok c => some { s with vlapic := c.lapic }
      else none
    | .setRegs rip rflags clearIntrShadow =>
      if s.handling then
        some (s.setVmcs { s.vmcs with
          guestRip := rip
          guestRflags := rflags
          guestInterruptibility :=
            if clearIntrShadow then s.vmcs.guestInterruptibility &&& ~~~hwintrBlocking
            else s.vmcs.guestInterruptibility })
      else none
    | .post p => some { applyPost s p with posted := true }
    | .atpic v => some { s with vatpic := v }

/-- A vCPU that has been set up and not yet run. -/
structure Initial (s : State) : Prop where
  /-- `vmx_init` takes both window controls out of those the host sets. -/
  ctls : s.procCtls = s.vmcs.priProcBasedCtls
  intWindow : s.procCtls &&& intWindowExiting = 0
  nmiWindow : s.procCtls &&& nmiWindowExiting = 0
  entry : ¬ entryValid s
  vlapic : s.vlapic = Lapic.vlapicInit
  exitintinfo : s.exitintinfo = 0
  exceptionPending : s.exceptionPending = false
  pc : s.pc = .idle
  handling : s.handling = false
  aborted : s.aborted = none
  overwritten : s.overwritten = false
  log : s.log = []

/-- `hv` says which exits `hv_vcpu_run` may return with. -/
def system (hv : Vmcs → Exit → Prop) : System State Op :=
  (System.ofFn Initial next).restrict fun s op =>
    match op with
    | .run e => hv s.vmcs e
    | _ => True

end Xhyve.Vmm.VmxInject
