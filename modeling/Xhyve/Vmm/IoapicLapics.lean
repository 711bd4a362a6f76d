import Xhyve.Vmm.LapicInService
import Xhyve.Vmm.LapicDest

/-!
# The I/O APIC and the local APICs together

A level-triggered pin sets its remote IRR when its interrupt is handed to the local APICs, and a
local APIC passes an EOI on to the I/O APIC where the trigger-mode bit of the vector is set. The
trigger-mode registers are computed from the redirection table when an entry changes, by each
active vCPU in a rendezvous; until the last of them is done the write that changed the entry is
under way.

What the I/O APIC hands out is read off its trace, from the oldest event on.
-/

namespace Xhyve.Vmm.IoapicLapics

open Xhyve.Lib
open Xhyve.Vmm.Ioapic
open Xhyve.Vmm.Lapic (Vlapic Vcpu)
open Xhyve.Vmm.LapicDest

/-- The virtual machine's active vCPUs. -/
structure Machine where
  active : Cpuset
  active_lt : ∀ i, active.getLsbD i = true → i < vmMaxcpu

/-- A write to the redirection table, in its rendezvous. -/
structure Window where
  pin : Nat
  /-- The vCPUs that have yet to compute their trigger modes. -/
  todo : List Nat
deriving DecidableEq, Repr

structure State where
  vioapic : Vioapic
  vcpu : Nat → Vcpu
  regs : Nat → DestRegs
  /-- By the vCPU that makes the write. -/
  window : Nat → Option Window

def State.setLapic (s : State) (vcpuid : Nat) (l : Vlapic) : State :=
  { s with vcpu := Function.update s.vcpu vcpuid { s.vcpu vcpuid with lapic := l } }

section Machine
variable (m : Machine)

/-! ## Trigger modes -/

/-- The vCPUs `vlapic_calcdest` gives for an interrupt. -/
def destOf (regs : Nat → DestRegs) (intr : Intr) : Cpuset :=
  vlapicCalcdest m.active regs intr.dest intr.phys (intr.delmode = apicDelmodeLowprio 32) false

def vlapicSetTmrLevel (regs : Nat → DestRegs) (vcpuid : Nat) (l : Vlapic) (intr : Intr) : Vlapic :=
  if intr.delmode ≠ apicDelmodeFixed 32 ∧ intr.delmode ≠ apicDelmodeLowprio 32 then l
  else if (destOf m regs intr).getLsbD vcpuid then Lapic.vlapicSetTmr l intr.vector.toNat true
  else l

/-- The body of the loop in `vioapic_update_tmr`. -/
def updateTmrPin (s : State) (vcpuid : Nat) (l : Vlapic) (pin : Nat) : Vlapic :=
  if isLevel (s.vioapic.rtbl pin).reg then
    vlapicSetTmrLevel m s.regs vcpuid l (intrOf (s.vioapic.rtbl pin).reg)
  else l

def vioapicUpdateTmr (s : State) (vcpuid : Nat) : Vlapic :=
  (List.range redirEntries).foldl (updateTmrPin m s vcpuid)
    (Lapic.vlapicResetTmr (s.vcpu vcpuid).lapic)

/-! ## Delivery -/

/-- `lapic_set_intr`; the other calls leave the request registers alone. -/
def applyCall (vcpu : Nat → Vcpu) : Call → Nat → Vcpu
  | .lapicSetIntr cpu vector level =>
    if cpu ≥ vmMaxcpu ∨ vector.toNat < 16 ∨ vector.toNat > 255 then vcpu
    else Function.update vcpu cpu { vcpu cpu with
      lapic := (Lapic.vlapicSetIntrReady (vcpu cpu).lapic vector.toNat level).1 }
  | .injectNmi _ | .injectExtint _ | .setError _ => vcpu

def applyEvent (regs : Nat → DestRegs) (vcpu : Nat → Vcpu) : Event → Nat → Vcpu
  | .deliver _ intr => (vlapicDeliverIntr m.active regs intr).foldl applyCall vcpu
  | .ack _ => vcpu

/-- Hands on what the I/O APIC has sent. -/
def deliverAll (s : State) (v : Vioapic) : State :=
  { s with
    vioapic := { v with trace := [] }
    vcpu := v.trace.reverse.foldl (applyEvent m s.regs) s.vcpu }

/-! ## Operations -/

inductive Op
  | assertIrq (irq : Int)
  | deassertIrq (irq : Int)
  | pulseIrq (irq : Int)
  | mmioWrite (writer : Nat) (gpa wval : BitVec 64) (size : Nat)
  /-- `vioapic_update_tmr` on a vCPU, in the rendezvous of the writer. -/
  | updateTmr (writer vcpuid : Nat)
  | finishWrite (writer : Nat)
  /-- A local APIC by itself: registers, other interrupts, and the acceptance of one. -/
  | lapic (vcpuid : Nat) (op : Lapic.Op)
  | eoi (vcpuid : Nat)
  | ldrWrite (vcpuid : Nat) (data : BitVec 32)
  | dfrWrite (vcpuid : Nat) (data : BitVec 32)

/-- The vector an EOI of this local APIC passes on. -/
def eoiVector (l : Vlapic) : Option Nat :=
  match Lapic.vlapicProcessEoi { l with trace := [] } with
  | .error _ => none
  | .ok l =>
    match l.trace with
    | .vioapicEoi vector :: _ => some vector
    | _ => none

/-- What an operation does to the I/O APIC. -/
def ioapicPart (s : State) (op : Op) : Vioapic :=
  let v := { s.vioapic with trace := [] }
  match op with
  | .assertIrq irq => (vioapicSetIrqstate v irq .assert).getD v
  | .deassertIrq irq => (vioapicSetIrqstate v irq .deassert).getD v
  | .pulseIrq irq => (vioapicSetIrqstate v irq .pulse).getD v
  | .mmioWrite _ gpa wval size => (vioapicMmioWrite v gpa wval size).1
  | .finishWrite writer =>
    match s.window writer with
    | some w => vioapicWriteSend v w.pin
    | none => v
  | .eoi vcpuid =>
    match eoiVector (s.vcpu vcpuid).lapic with
    | some vector => vioapicProcessEoi v (BitVec.ofNat 8 vector)
    | none => v
  | .updateTmr .. | .lapic .. | .ldrWrite .. | .dfrWrite .. => v

/-- The registers that name the local APICs, with what an operation writes to them. -/
def regsAfter (s : State) : Op → Nat → DestRegs
  | .ldrWrite vcpuid data => Function.update s.regs vcpuid
    (vlapicLdrWriteHandler vcpuid { s.regs vcpuid with ldr := data })
  | .dfrWrite vcpuid data => Function.update s.regs vcpuid
    (vlapicDfrWriteHandler { s.regs vcpuid with dfr := data })
  | _ => s.regs

/-- Whether the vCPU makes no other write. -/
def State.idle (s : State) (writer : Nat) : Bool := (s.window writer).isNone

/-- What it does to the rest, before anything is delivered. -/
def lapicPart (s : State) (op : Op) : Option State :=
  match op with
  | .assertIrq _ | .deassertIrq _ | .pulseIrq _ => some s
  | .mmioWrite writer gpa wval size =>
    let opened := (vioapicMmioWrite { s.vioapic with trace := [] } gpa wval size).2.map fun pin =>
      Window.mk pin (WordSet.visit 64 m.active)
    if m.active.getLsbD writer ∧ s.idle writer then
      some { s with window := Function.update s.window writer opened }
    else none
  | .updateTmr writer vcpuid =>
    match s.window writer with
    | some w =>
      if vcpuid ∈ w.todo then
        some { s.setLapic vcpuid (vioapicUpdateTmr m s vcpuid) with
          window := Function.update s.window writer (some { w with todo := w.todo.erase vcpuid }) }
      else none
    | none => none
  | .finishWrite writer =>
    match s.window writer with
    | some w =>
      if w.todo = [] then some { s with window := Function.update s.window writer none } else none
    | none => none
  | .lapic vcpuid op =>
    match op with
    | .eoi | .setTmr .. => none
    | op =>
      match Lapic.apply (s.vcpu vcpuid) op with
      | .ok c => some { s with vcpu := Function.update s.vcpu vcpuid c }
      | .error _ => none
  | .eoi vcpuid =>
    match Lapic.apply (s.vcpu vcpuid) .eoi with
    | .ok c => some { s with vcpu := Function.update s.vcpu vcpuid c }
    | .error _ => none
  | .ldrWrite .. | .dfrWrite .. => some { s with regs := regsAfter s op }

def next (s : State) (op : Op) : Option State :=
  (lapicPart m s op).map fun s' => deliverAll m s' (ioapicPart s op)

def start (x2apic : Bool) : State where
  vioapic := vioapicInit
  vcpu _ := ⟨Lapic.vlapicInit, none⟩
  regs vcpuid := vlapicSetX2apicState vcpuid x2apic
  window _ := none

/-! ## Writes of the redirection table -/

structure EntryWrite where
  pin : Nat
  lshift : Nat
  data : BitVec 32
deriving DecidableEq, Repr

/-- The entry an operation writes. -/
def entryWrite (s : State) : Op → Option EntryWrite
  | .mmioWrite _ gpa wval size =>
    let regnum := (s.vioapic.ioregsel &&& 0xff).toNat
    if size = 4 ∧ gpa - BitVec.ofNat 64 vioapicBase = BitVec.ofNat 64 iowinOffset ∧
        ioapicRedtbl ≤ regnum ∧ regnum < ioapicRedtbl + redirEntries * 2 then
      some ⟨(regnum - ioapicRedtbl) / 2, if (regnum - ioapicRedtbl) % 2 ≠ 0 then 32 else 0,
        wval.setWidth 32⟩
    else none
  | _ => none

/-- The entry with what an operation writes to it; the remote IRR is not written. -/
def entryAfter (s : State) (op : Op) (pin : Nat) : Reg :=
  match entryWrite s op with
  | some w =>
    if w.pin = pin then writeHalf (s.vioapic.rtbl pin).reg w.lshift w.data
    else (s.vioapic.rtbl pin).reg
  | none => (s.vioapic.rtbl pin).reg

/-- Fixed or lowest-priority delivery of a vector from 16 on. -/
def Legal (reg : Reg) : Prop :=
  ((intrOf reg).delmode = apicDelmodeFixed 32 ∨ (intrOf reg).delmode = apicDelmodeLowprio 32) ∧
    16 ≤ (intrOf reg).vector.toNat

instance (reg : Reg) : Decidable (Legal reg) := inferInstanceAs (Decidable (_ ∧ _))

/-- The writes that are considered: the lower half has the vector and the delivery mode. -/
def Considered (s : State) (op : Op) : Prop :=
  ∀ w ∈ entryWrite s op, w.lshift = 0 → Legal (entryAfter s op w.pin)

def system : System State Op :=
  (System.ofFn (fun s => ∃ x2apic, s = start x2apic) (next m)).restrict Considered

/-! ## Waiting for an EOI -/

/-- The active vCPUs an interrupt goes to. -/
def targets (regs : Nat → DestRegs) (intr : Intr) : Cpuset := m.active &&& destOf m regs intr

/-- The vector is requested or in service, and its EOI is passed on. -/
structure Holds (l : Vlapic) (vector : Nat) : Prop where
  held : l.irr.has vector = true ∨ l.isr.has vector = true
  tmr : l.tmr.has vector = true

/-- An EOI on the vCPU is one of the vector, and comes to the pin. -/
def Acknowledges (s : State) (vcpuid pin : Nat) : Prop :=
  (∃ t, next m s (.eoi vcpuid) = some t) ∧ .ack pin ∈ (ioapicPart s (.eoi vcpuid)).trace

/-- Every pin that waits for an EOI, and goes to an active vCPU, is level-triggered and has a vCPU to
wait for; and the EOI, once it is the vector's turn, comes to the pin. -/
def Agreed (s : State) : Prop :=
  ∀ pin < redirEntries, (s.vioapic.rtbl pin).reg &&& ioartRemIrr 64 ≠ 0 →
    targets m s.regs (intrOf (s.vioapic.rtbl pin).reg) ≠ 0 →
    isLevel (s.vioapic.rtbl pin).reg = true ∧
      ∃ vcpuid < vmMaxcpu,
        Holds (s.vcpu vcpuid).lapic (intrOf (s.vioapic.rtbl pin).reg).vector.toNat ∧
        ((s.vcpu vcpuid).lapic.isr.highest 8 =
            some (intrOf (s.vioapic.rtbl pin).reg).vector.toNat → Acknowledges m s vcpuid pin)

/-! ## When the two agree -/

/-- A write to the entry of a pin that waits keeps its trigger mode, vector and destinations. -/
def Undisturbed (s : State) (op : Op) : Prop :=
  ∀ pin < redirEntries, (s.vioapic.rtbl pin).reg &&& ioartRemIrr 64 ≠ 0 →
    isLevel (entryAfter s op pin) = isLevel (s.vioapic.rtbl pin).reg ∧
    (intrOf (entryAfter s op pin)).vector = (intrOf (s.vioapic.rtbl pin).reg).vector ∧
    targets m s.regs (intrOf (entryAfter s op pin)) =
      targets m s.regs (intrOf (s.vioapic.rtbl pin).reg)

/-- A new logical address keeps the destinations of every level-triggered entry. -/
def SameTargets (s : State) (op : Op) : Prop :=
  ∀ pin < redirEntries, isLevel (s.vioapic.rtbl pin).reg = true →
    targets m (regsAfter s op) (intrOf (s.vioapic.rtbl pin).reg) =
      targets m s.regs (intrOf (s.vioapic.rtbl pin).reg)

/-- Whether the operation makes the I/O APIC send the pin's interrupt, unless it is masked. -/
def Triggers (s : State) (op : Op) (pin : Nat) : Prop :=
  let e := s.vioapic.rtbl pin
  match op with
  | .assertIrq irq | .pulseIrq irq => irq = pin ∧ e.acnt = 0
  | .mmioWrite .. =>
    (∃ w ∈ entryWrite s op, w.pin = pin) ∧
      (e.reg ^^^ entryAfter s op pin) &&& ~~~(ioartIntmask 64 ||| ioartIntpol 64) = 0 ∧
      e.reg &&& ioartRemIrr 64 = 0 ∧ e.acnt > 0
  | .finishWrite writer =>
    (∃ w ∈ s.window writer, w.pin = pin) ∧ e.reg &&& ioartRemIrr 64 = 0 ∧ e.acnt > 0
  | .eoi vcpuid =>
    eoiVector (s.vcpu vcpuid).lapic = some (intrOf e.reg).vector.toNat ∧
      e.reg &&& ioartRemIrr 64 ≠ 0 ∧ e.acnt > 0
  | .deassertIrq _ | .updateTmr .. | .lapic .. | .ldrWrite .. | .dfrWrite .. => False

def Sends (s : State) (op : Op) (pin : Nat) : Prop :=
  (entryAfter s op pin).getLsbD 16 = false ∧ Triggers s op pin

def enabled (l : Vlapic) : Prop := l.svr &&& Lapic.svrEnable ≠ 0

/-- Some vCPU has yet to compute its trigger modes for a write of the pin's entry. -/
def underWay (s : State) (pin : Nat) : Prop :=
  ∃ writer < vmMaxcpu, ∃ w ∈ s.window writer, w.pin = pin ∧ w.todo ≠ []

/-- If a level interrupt of the pin is sent to active vCPUs, it finds one that is enabled, and no
write of its entry in its rendezvous. -/
def HeardAt (s : State) (op : Op) (pin : Nat) : Prop :=
  Sends s op pin → isLevel (entryAfter s op pin) = true →
    targets m s.regs (intrOf (entryAfter s op pin)) ≠ 0 →
    (∃ vcpuid < vmMaxcpu,
      (targets m s.regs (intrOf (entryAfter s op pin))).getLsbD vcpuid = true ∧
        enabled (s.vcpu vcpuid).lapic) ∧
      ¬ underWay s pin

def Heard (s : State) (op : Op) : Prop := ∀ pin < redirEntries, HeardAt m s op pin

structure Meets (s : State) (op : Op) : Prop where
  undisturbed : Undisturbed m s op
  sameTargets : SameTargets m s op
  heard : Heard m s op

end Machine

end Xhyve.Vmm.IoapicLapics
