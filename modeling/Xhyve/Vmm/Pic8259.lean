import Mathlib.Logic.Function.Basic
import Mathlib.Tactic.Common

/-!
# The 8259 interrupt controllers, as the injection of an ExtINT sees them

Which pin of a controller is to be served, the vector it stands for, and its acknowledgement. The
slave hangs on pin 2 of the master; a request of the master goes to LINT0 of the local APICs and to
pin 0 of the I/O APIC, once until it is acknowledged.
-/

namespace Xhyve.Vmm.Pic8259

/-- The vector base is a multiple of eight, written by ICW2 through the mask 0xf8. -/
structure Atpic where
  aeoi : Bool
  rotate : Bool
  /-- Special fully-nested mode. -/
  sfn : Bool
  irqBase : Nat
  request : BitVec 8
  service : BitVec 8
  mask : BitVec 8
  /-- Special mask mode. -/
  smm : Bool
  /-- Sum of pin asserts and deasserts. -/
  acnt : Nat → Int
  lowprio : Nat
  intrRaised : Bool
  irqBase_le : irqBase ≤ 0xf8

structure Vatpic where
  master : Atpic
  slave : Atpic
  elc : Nat → BitVec 8

/-- The pins in priority order from highest to lowest. -/
def pinsByPriority (a : Atpic) : List Nat := (List.range 8).map fun i => (a.lowprio + 1 + i) % 8

/-- The loop of `vatpic_get_highest_irrpin`: it ends at a pin in service. -/
def firstRequest (serviced request mask : BitVec 8) : List Nat → Option Nat
  | [] => none
  | pin :: rest =>
    if serviced.getLsbD pin then none
    else if request.getLsbD pin ∧ ¬ mask.getLsbD pin then some pin
    else firstRequest serviced request mask rest

def vatpicGetHighestIrrpin (a : Atpic) : Option Nat :=
  let serviced := if a.sfn then a.service &&& ~~~(1#8 <<< 2) else a.service
  let serviced := if a.smm then 0 else serviced
  firstRequest serviced a.request a.mask (pinsByPriority a)

/-- `vatpic_pending_intr`; without an active pin it is the spurious vector. -/
def vatpicPendingIntr (v : Vatpic) : Nat :=
  match vatpicGetHighestIrrpin v.master with
  | none => v.master.irqBase + 7
  | some pin =>
    if pin = 2 then v.slave.irqBase + (vatpicGetHighestIrrpin v.slave).getD 7
    else v.master.irqBase + pin

/-! ## Notification -/

def setCascadePin (v : Vatpic) (newstate : Bool) : Vatpic :=
  let oldcnt := v.master.acnt 2
  let newcnt := if newstate then oldcnt + 1 else oldcnt - 1
  let level := (v.elc 0).getLsbD 2
  let request :=
    if (oldcnt = 0 ∧ newcnt = 1) ∨ (newcnt > 0 ∧ level) then v.master.request ||| (1#8 <<< 2)
    else if oldcnt = 1 ∧ newcnt = 0 ∧ level then v.master.request &&& ~~~(1#8 <<< 2)
    else v.master.request
  { v with master :=
    { v.master with acnt := Function.update v.master.acnt 2 newcnt, request := request } }

/-- The second half of `vatpic_notify_intr`, and whether it raises an interrupt. -/
def notifyMaster (v : Vatpic) : Vatpic × Bool :=
  if ¬ v.master.intrRaised ∧ (vatpicGetHighestIrrpin v.master).isSome then
    ({ v with master := { v.master with intrRaised := true } }, true)
  else (v, false)

/-- The slave's request pulses the master's pin 2; each of the two changes of the pin notifies
again, and finds the slave's interrupt raised. -/
def vatpicNotifyIntr (v : Vatpic) : Vatpic × Bool :=
  if ¬ v.slave.intrRaised ∧ (vatpicGetHighestIrrpin v.slave).isSome then
    let v := { v with slave := { v.slave with intrRaised := true } }
    let r₁ := notifyMaster (setCascadePin v true)
    let r₂ := notifyMaster (setCascadePin r₁.1 false)
    let r₃ := notifyMaster r₂.1
    (r₃.1, r₁.2 || r₂.2 || r₃.2)
  else notifyMaster v

/-! ## Acknowledgement -/

def vatpicPinAccepted (a : Atpic) (pin : Nat) : Atpic :=
  let a := { a with intrRaised := false }
  let a := if a.acnt pin = 0 then { a with request := a.request &&& ~~~(1#8 <<< pin) } else a
  if a.aeoi then if a.rotate then { a with lowprio := pin } else a
  else { a with service := a.service ||| (1#8 <<< pin) }

def vatpicIntrAccepted (v : Vatpic) (vector : Nat) : Vatpic × Bool :=
  let pin := vector % 8
  let v :=
    if vector - pin = v.slave.irqBase then
      { v with
        slave := vatpicPinAccepted v.slave pin
        master := vatpicPinAccepted v.master 2 }
    else { v with master := vatpicPinAccepted v.master pin }
  vatpicNotifyIntr v

/-! ## The vector -/

theorem firstRequest_lt {serviced request mask : BitVec 8} {pins : List Nat} {pin : Nat}
    (hpins : ∀ p ∈ pins, p < 8) (h : firstRequest serviced request mask pins = some pin) :
    pin < 8 := by
  induction pins with
  | nil => cases h
  | cons p rest ih =>
    unfold firstRequest at h
    split at h
    · cases h
    · split at h
      · cases h
        exact hpins pin List.mem_cons_self
      · exact ih (fun q hq => hpins q (List.mem_cons_of_mem p hq)) h

theorem highestIrrpin_lt {a : Atpic} {pin : Nat} (h : vatpicGetHighestIrrpin a = some pin) :
    pin < 8 := by
  apply firstRequest_lt _ h
  intro p hp
  obtain ⟨i, _, rfl⟩ := List.mem_map.mp hp
  exact Nat.mod_lt _ (by decide)

/-- Whatever the guest programs, the vector fits eight bits. -/
theorem pendingIntr_le (v : Vatpic) : vatpicPendingIntr v ≤ 255 := by
  have hm := v.master.irqBase_le
  have hs := v.slave.irqBase_le
  unfold vatpicPendingIntr
  split
  · omega
  · rename_i pin hpin
    have hlt := highestIrrpin_lt hpin
    split
    · cases hslave : vatpicGetHighestIrrpin v.slave with
      | none =>
        rw [Option.getD_none]
        omega
      | some p =>
        have hp := highestIrrpin_lt hslave
        rw [Option.getD_some]
        omega
    · omega

end Xhyve.Vmm.Pic8259
