import Xhyve.Lib.Transition
import Xhyve.Vmm.Pic8259
import Mathlib.Data.Finset.Card

/-!
# The 8259 interrupt controllers: lines and ports

Devices assert and deassert the sixteen lines, and the guest programs the two controllers through
their command and data ports. A controller is ready from ICW4 to the next ICW1; a call for one of its
lines that comes in between is dropped. `vatpic_pending_intr` and `vatpic_intr_accepted` are two
calls, with other processors' in between.
-/

namespace Xhyve.Vmm.Pic8259

open Xhyve.Lib

def icw1Ic4 : BitVec 8 := 0x01
def icw1Sngl : BitVec 8 := 0x02
def icw4Is8086 : BitVec 8 := 0x01
def icw4Aeoi : BitVec 8 := 0x02
def icw4Sfnm : BitVec 8 := 0x10
def ocw2Eoi : BitVec 8 := 0x20
def ocw2Sl : BitVec 8 := 0x40
def ocw2R : BitVec 8 := 0x80
def ocw3Ris : BitVec 8 := 0x01
def ocw3Rr : BitVec 8 := 0x02
def ocw3P : BitVec 8 := 0x04
def ocw3Smm : BitVec 8 := 0x20
def ocw3Esmm : BitVec 8 := 0x40

/-- The fields of `struct atpic` that only its ports use. -/
structure Ports where
  ready : Bool
  icwNum : Nat
  rdCmdReg : BitVec 8
  poll : Bool
deriving DecidableEq, Repr

inductive Chip
  | master | slave
deriving DecidableEq, Repr

structure Pics where
  vatpic : Vatpic
  ports : Chip → Ports

namespace Pics

def atpic (s : Pics) : Chip → Atpic
  | .master => s.vatpic.master
  | .slave => s.vatpic.slave

def setAtpic (s : Pics) (c : Chip) (a : Atpic) : Pics :=
  match c with
  | .master => { s with vatpic := { s.vatpic with master := a } }
  | .slave => { s with vatpic := { s.vatpic with slave := a } }

def setPorts (s : Pics) (c : Chip) (p : Ports) : Pics :=
  { s with ports := Function.update s.ports c p }

end Pics

/-! ## Lines -/

/-- `vatpic_set_pinstate` on its controller, before the notification. -/
def setPin (a : Atpic) (elc : BitVec 8) (pin : Nat) (newstate : Bool) : Atpic :=
  let oldcnt := a.acnt pin
  let newcnt := if newstate then oldcnt + 1 else oldcnt - 1
  let level := elc.getLsbD pin
  let a := { a with acnt := Function.update a.acnt pin newcnt }
  if (oldcnt = 0 ∧ newcnt = 1) ∨ (newcnt > 0 ∧ level) then
    { a with request := a.request ||| (1#8 <<< pin) }
  else if oldcnt = 1 ∧ newcnt = 0 then
    if level then { a with request := a.request &&& ~~~(1#8 <<< pin) } else a
  else a

def chipOf (irq : Nat) : Chip := if irq < 8 then .master else .slave

def elcOf (v : Vatpic) : Chip → BitVec 8
  | .master => v.elc 0
  | .slave => v.elc 1

def notify (s : Pics) : Pics := { s with vatpic := (vatpicNotifyIntr s.vatpic).1 }

def vatpicSetPinstate (s : Pics) (pin : Nat) (newstate : Bool) : Pics :=
  let c := chipOf pin
  notify (s.setAtpic c (setPin (s.atpic c) (elcOf s.vatpic c) (pin % 8) newstate))

inductive Irqstate
  | assert | deassert | pulse
deriving DecidableEq, Repr

/-- `none` is `EINVAL`. -/
def vatpicSetIrqstate (s : Pics) (irq : Int) (irqstate : Irqstate) : Option Pics :=
  if irq < 0 ∨ irq > 15 then none
  else if (s.ports (chipOf irq.toNat)).ready = false then some s
  else
    match irqstate with
    | .assert => some (vatpicSetPinstate s irq.toNat true)
    | .deassert => some (vatpicSetPinstate s irq.toNat false)
    | .pulse => some (vatpicSetPinstate (vatpicSetPinstate s irq.toNat true) irq.toNat false)

def setElc (s : Pics) (c : Chip) (val : BitVec 8) : Pics :=
  let i := match c with | .master => 0 | .slave => 1
  { s with vatpic := { s.vatpic with elc := Function.update s.vatpic.elc i val } }

/-- `none` is `EINVAL`. -/
def vatpicSetIrqTrigger (s : Pics) (irq : Int) (level : Bool) : Option Pics :=
  if irq < 0 ∨ irq > 15 then none
  else if level ∧ (irq = 0 ∨ irq = 1 ∨ irq = 2 ∨ irq = 8 ∨ irq = 13) then none
  else
    let c := chipOf irq.toNat
    let pinBit : BitVec 8 := 1#8 <<< (irq.toNat % 8)
    some (setElc s c (if level then elcOf s.vatpic c ||| pinBit else elcOf s.vatpic c &&& ~~~pinBit))

/-- A write of `vatpic_elc_handler`. -/
def vatpicElcWrite (s : Pics) (c : Chip) (eax : BitVec 8) : Pics :=
  match c with
  | .master => setElc s .master (eax &&& 0xf8)
  | .slave => setElc s .slave (eax &&& 0xde)

/-! ## Initialisation and operation command words -/

/-- The state after a command word, and whether it was refused. -/
structure Written where
  atpic : Atpic
  ports : Ports
  error : Bool

def vatpicIcw1 (a : Atpic) (val : BitVec 8) : Written :=
  let a := { a with request := 0, mask := 0, lowprio := 7, smm := false }
  let p : Ports := ⟨false, 1, 0, false⟩
  if val &&& icw1Sngl ≠ 0 then ⟨a, p, true⟩
  else if val &&& icw1Ic4 = 0 then ⟨a, p, true⟩
  else ⟨a, { p with icwNum := 2 }, false⟩

theorem toNat_and_f8_le (val : BitVec 8) : (val &&& 0xf8).toNat ≤ 0xf8 := by
  rw [BitVec.toNat_and]
  exact Nat.and_le_right

def vatpicIcw2 (a : Atpic) (p : Ports) (val : BitVec 8) : Written :=
  ⟨{ a with irqBase := (val &&& 0xf8).toNat, irqBase_le := toNat_and_f8_le val },
    { p with icwNum := p.icwNum + 1 }, false⟩

def vatpicIcw3 (a : Atpic) (p : Ports) : Written := ⟨a, { p with icwNum := p.icwNum + 1 }, false⟩

/-- Special fully-nested mode is ignored on the slave. -/
def vatpicIcw4 (c : Chip) (a : Atpic) (p : Ports) (val : BitVec 8) : Written :=
  if val &&& icw4Is8086 = 0 then ⟨a, p, true⟩
  else
    let a := if val &&& icw4Aeoi ≠ 0 then { a with aeoi := true } else a
    let a := if val &&& icw4Sfnm ≠ 0 ∧ c = .master then { a with sfn := true } else a
    ⟨a, { p with icwNum := 0, ready := true }, false⟩

def vatpicOcw1 (a : Atpic) (p : Ports) (val : BitVec 8) : Written := ⟨{ a with mask := val }, p, false⟩

/-- In special mask mode a pin in service that is masked is passed over. -/
def vatpicGetHighestIsrpin (a : Atpic) : Option Nat :=
  (pinsByPriority a).find? fun pin =>
    a.service.getLsbD pin && !(a.smm && a.mask.getLsbD pin)

def vatpicOcw2 (a : Atpic) (p : Ports) (val : BitVec 8) : Written :=
  let rotate : Bool := val &&& ocw2R ≠ 0
  let a := { a with rotate := rotate }
  if val &&& ocw2Eoi ≠ 0 then
    let isrBit := if val &&& ocw2Sl ≠ 0 then some (val &&& 0x7).toNat else vatpicGetHighestIsrpin a
    match isrBit with
    | none => ⟨a, p, false⟩
    | some pin =>
      let a := { a with service := a.service &&& ~~~(1#8 <<< pin) }
      ⟨if rotate then { a with lowprio := pin } else a, p, false⟩
  else if val &&& ocw2Sl ≠ 0 ∧ rotate then ⟨{ a with lowprio := (val &&& 0x7).toNat }, p, false⟩
  else ⟨a, p, false⟩

def vatpicOcw3 (a : Atpic) (p : Ports) (val : BitVec 8) : Written :=
  let a := if val &&& ocw3Esmm ≠ 0 then { a with smm := val &&& ocw3Smm ≠ 0 } else a
  let p :=
    if val &&& ocw3Rr ≠ 0 then { p with rdCmdReg := val &&& ocw3Ris, poll := val &&& ocw3P ≠ 0 }
    else p
  ⟨a, p, false⟩

/-! ## Ports -/

/-- The command word a write is taken for. -/
def commandWord (c : Chip) (a : Atpic) (p : Ports) (imr : Bool) (val : BitVec 8) : Written :=
  if imr then
    match p.icwNum with
    | 2 => vatpicIcw2 a p val
    | 3 => vatpicIcw3 a p
    | 4 => vatpicIcw4 c a p val
    | _ => vatpicOcw1 a p val
  else if val.getLsbD 4 then vatpicIcw1 a val
  else if p.ready then if val.getLsbD 3 then vatpicOcw3 a p val else vatpicOcw2 a p val
  else ⟨a, p, false⟩

/-- `vatpic_write`; `imr` is the data port. The second component is whether it returns -1. -/
def vatpicWrite (s : Pics) (c : Chip) (imr : Bool) (val : BitVec 8) : Pics × Bool :=
  let w := commandWord c (s.atpic c) (s.ports c) imr val
  let s := (s.setAtpic c w.atpic).setPorts c w.ports
  (if w.ports.ready then notify s else s, w.error)

/-- `vatpic_read`: the state after it and what is read. -/
def vatpicRead (s : Pics) (c : Chip) (imr : Bool) : Pics × Nat :=
  if (s.ports c).poll then
    let s := s.setPorts c { s.ports c with poll := false }
    match vatpicGetHighestIrrpin (s.atpic c) with
    | some pin => (s.setAtpic c (vatpicPinAccepted (s.atpic c) pin), 0x80 ||| pin)
    | none => (s, 0)
  else if imr then (s, (s.atpic c).mask.toNat)
  else if (s.ports c).rdCmdReg = ocw3Ris then (s, (s.atpic c).service.toNat)
  else (s, (s.atpic c).request.toNat)

/-! ## Runs -/

/-- The controllers, who asserts each line, and the vector each vCPU has asked for and not yet
accepted. -/
structure State where
  pics : Pics
  asserters : Nat → Finset Nat
  asked : Nat → Option Nat

inductive Op
  | assertIrq (dev : Nat) (irq : Int)
  | deassertIrq (dev : Nat) (irq : Int)
  | pulseIrq (irq : Int)
  | setIrqTrigger (irq : Int) (level : Bool)
  | write (c : Chip) (imr : Bool) (val : BitVec 8)
  | read (c : Chip) (imr : Bool)
  | elcWrite (c : Chip) (eax : BitVec 8)
  | pendingIntr (vcpuid : Nat)
  | intrAccepted (vcpuid : Nat)
deriving DecidableEq, Repr

/-- The device's own account of the line. -/
def State.setAsserters (s : State) (irq : Int) (devs : Finset Nat) : State :=
  if irq < 0 ∨ irq > 15 then s
  else { s with asserters := Function.update s.asserters irq.toNat devs }

/-- A call with an invalid IRQ changes nothing, and nothing is accepted that was not asked for. -/
def step (s : State) : Op → State
  | .assertIrq dev irq =>
    { s.setAsserters irq (insert dev (s.asserters irq.toNat)) with
      pics := (vatpicSetIrqstate s.pics irq .assert).getD s.pics }
  | .deassertIrq dev irq =>
    { s.setAsserters irq ((s.asserters irq.toNat).erase dev) with
      pics := (vatpicSetIrqstate s.pics irq .deassert).getD s.pics }
  | .pulseIrq irq => { s with pics := (vatpicSetIrqstate s.pics irq .pulse).getD s.pics }
  | .setIrqTrigger irq level => { s with pics := (vatpicSetIrqTrigger s.pics irq level).getD s.pics }
  | .write c imr val => { s with pics := (vatpicWrite s.pics c imr val).1 }
  | .read c imr => { s with pics := (vatpicRead s.pics c imr).1 }
  | .elcWrite c eax => { s with pics := vatpicElcWrite s.pics c eax }
  | .pendingIntr vcpuid =>
    { s with asked := Function.update s.asked vcpuid (some (vatpicPendingIntr s.pics.vatpic)) }
  | .intrAccepted vcpuid =>
    match s.asked vcpuid with
    | none => s
    | some vector =>
      { s with
        pics := { s.pics with vatpic := (vatpicIntrAccepted s.pics.vatpic vector).1 }
        asked := Function.update s.asked vcpuid none }

/-- The zeroed structure of `vatpic_init`. -/
def atpicInit : Atpic where
  aeoi := false
  rotate := false
  sfn := false
  irqBase := 0
  request := 0
  service := 0
  mask := 0
  smm := false
  acnt _ := 0
  lowprio := 0
  intrRaised := false
  irqBase_le := Nat.zero_le _

def start : State where
  pics := ⟨⟨atpicInit, atpicInit, fun _ => 0⟩, fun _ => ⟨false, 0, 0, false⟩⟩
  asserters _ := ∅
  asked _ := none

def system : System State Op := System.ofFn (· = start) fun s op => some (step s op)

end Xhyve.Vmm.Pic8259
