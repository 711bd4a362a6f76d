import Xhyve.Vmm.PicCascade

/-!
# The acknowledgement

The pin that is served goes through a vector and back: `vatpic_pending_intr` adds it to the base of its
controller, and `vatpic_intr_accepted` finds the controller by that base. A spurious vector comes back
as pin 7, and a vector of the master as one of the slave where the guest gave both the same base.
-/

namespace Xhyve.Vmm.Pic8259

open Xhyve.Lib

/-! ## The in-service bits of an accepted pin -/

section Service
variable {a : Atpic} {pin k : Nat}

/-- Accepting the pin leaves the in-service bits as they are. -/
def Silent (a : Atpic) (pin : Nat) : Prop := a.aeoi = true ∨ a.service.getLsbD pin = true

theorem pinAccepted_service (a : Atpic) (pin : Nat) :
    (vatpicPinAccepted a pin).service =
      if a.aeoi then a.service else a.service ||| 1#8 <<< pin := by
  unfold vatpicPinAccepted
  simp only
  split <;> split <;> first | rfl | (split <;> rfl)

theorem pinAccepted_irqBase (a : Atpic) (pin : Nat) :
    (vatpicPinAccepted a pin).irqBase = a.irqBase := by
  unfold vatpicPinAccepted
  simp only
  split <;> split <;> first | rfl | (split <;> rfl)

theorem pinAccepted_changes (hpin : pin < 8) :
    (vatpicPinAccepted a pin).service.getLsbD k ≠ a.service.getLsbD k ↔
      k = pin ∧ ¬ Silent a pin := by
  rw [pinAccepted_service]
  unfold Silent
  cases haeoi : a.aeoi with
  | true => simp
  | false =>
    rw [if_neg Bool.false_ne_true, BitVec.getLsbD_or, pinBit, decide_eq_true hpin, Bool.true_and]
    by_cases hk : k = pin
    · subst hk
      rw [decide_eq_true rfl, Bool.or_true]
      cases hserv : a.service.getLsbD k with
      | true => simp
      | false => simp
    · rw [decide_eq_false (Ne.symm hk), Bool.or_false]
      simp [hk]

/-- Only pins that may change do: the accepted one may, or it does not. -/
theorem pinAccepted_only_iff (P : Nat → Prop) (hpin : pin < 8) :
    (∀ k, (vatpicPinAccepted a pin).service.getLsbD k ≠ a.service.getLsbD k → P k) ↔
      P pin ∨ Silent a pin := by
  constructor
  · intro h
    by_cases hs : Silent a pin
    · exact Or.inr hs
    · exact Or.inl (h pin ((pinAccepted_changes hpin).mpr ⟨rfl, hs⟩))
  · intro h k hk
    obtain ⟨rfl, hs⟩ := (pinAccepted_changes hpin).mp hk
    exact h.resolve_right hs

end Service

/-! ## Notification serves nothing -/

section Frame
variable (v : Vatpic)

@[simp] theorem notifyMaster_service : (notifyMaster v).1.master.service = v.master.service := by
  unfold notifyMaster
  split
  · rfl
  · rfl

@[simp] theorem notifyMaster_irqBase : (notifyMaster v).1.master.irqBase = v.master.irqBase := by
  unfold notifyMaster
  split
  · rfl
  · rfl

theorem notifyIntr_service : (vatpicNotifyIntr v).1.master.service = v.master.service := by
  unfold vatpicNotifyIntr
  split
  · simp only [notifyMaster_service]
    rw [setCascadePin_eq, setPin_frame]
    simp only [notifyMaster_service]
    rw [setCascadePin_eq, setPin_frame]
  · exact notifyMaster_service v

theorem notifyIntr_irqBase : (vatpicNotifyIntr v).1.master.irqBase = v.master.irqBase := by
  unfold vatpicNotifyIntr
  split
  · simp only [notifyMaster_irqBase]
    rw [setCascadePin_eq, setPin_frame]
    simp only [notifyMaster_irqBase]
    rw [setCascadePin_eq, setPin_frame]
  · exact notifyMaster_irqBase v

end Frame

/-! ## The vectors of a controller are a block of eight -/

def Blocks (s : Pics) : Prop := ∀ c, 8 ∣ (s.atpic c).irqBase

section Blocks
variable {s : Pics}

theorem Blocks.notify (h : Blocks s) : Blocks (notify s) := by
  intro c
  cases c with
  | master =>
    show 8 ∣ (vatpicNotifyIntr s.vatpic).1.master.irqBase
    rw [notifyIntr_irqBase]
    exact h .master
  | slave =>
    show 8 ∣ (vatpicNotifyIntr s.vatpic).1.slave.irqBase
    rw [notifyIntr_slave]
    exact h .slave

theorem Blocks.setAtpic (h : Blocks s) {c : Chip} {a : Atpic}
    (ha : 8 ∣ (s.atpic c).irqBase → 8 ∣ a.irqBase) : Blocks (s.setAtpic c a) := by
  intro d
  by_cases hd : d = c
  · rw [hd, atpic_setAtpic]
    exact ha (h c)
  · rw [atpic_setAtpic_of_ne s hd]
    exact h d

theorem Blocks.setPorts (h : Blocks s) (c : Chip) (p : Ports) : Blocks (s.setPorts c p) := by
  intro d
  rw [setPorts_atpic]
  exact h d

theorem Blocks.setElc (h : Blocks s) (c : Chip) (val : BitVec 8) : Blocks (setElc s c val) := by
  intro d
  cases d with
  | master => exact h .master
  | slave => exact h .slave

theorem Blocks.setPinstate (h : Blocks s) (pin : Nat) (newstate : Bool) :
    Blocks (vatpicSetPinstate s pin newstate) := by
  apply Blocks.notify
  apply h.setAtpic
  rw [setPin_frame]
  exact id

theorem Blocks.setIrqstate (h : Blocks s) (irq : Int) (irqstate : Irqstate) :
    Blocks ((vatpicSetIrqstate s irq irqstate).getD s) := by
  unfold vatpicSetIrqstate
  split
  · exact h
  · split
    · exact h
    · cases irqstate with
      | assert => exact h.setPinstate _ true
      | deassert => exact h.setPinstate _ false
      | pulse => exact (h.setPinstate _ true).setPinstate _ false

theorem Blocks.write (h : Blocks s) (c : Chip) (imr : Bool) (val : BitVec 8) :
    Blocks (vatpicWrite s c imr val).1 := by
  have hword := (h.setAtpic
    (commandWord_commanded c (s.atpic c) (s.ports c) imr val).irqBase).setPorts c
    (commandWord c (s.atpic c) (s.ports c) imr val).ports
  unfold vatpicWrite
  simp only
  split
  · exact hword.notify
  · exact hword

theorem Blocks.pinAccepted (h : Blocks s) (c : Chip) (pin : Nat) :
    Blocks (s.setAtpic c (vatpicPinAccepted (s.atpic c) pin)) := by
  apply h.setAtpic
  rw [pinAccepted_irqBase]
  exact id

theorem Blocks.read (h : Blocks s) (c : Chip) (imr : Bool) : Blocks (vatpicRead s c imr).1 := by
  unfold vatpicRead
  split
  · simp only
    split
    · exact (h.setPorts c _).pinAccepted c _
    · exact h.setPorts c _
  · split
    · exact h
    · split
      · exact h
      · exact h

theorem Blocks.intrAccepted (h : Blocks s) (vector : Nat) :
    Blocks { s with vatpic := (vatpicIntrAccepted s.vatpic vector).1 } := by
  unfold vatpicIntrAccepted
  simp only
  split
  · exact ((h.pinAccepted .slave (vector % 8)).pinAccepted .master 2).notify
  · exact (h.pinAccepted .master (vector % 8)).notify

theorem Blocks.setIrqTrigger (h : Blocks s) (irq : Int) (level : Bool) :
    Blocks ((vatpicSetIrqTrigger s irq level).getD s) := by
  unfold vatpicSetIrqTrigger
  split
  · exact h
  · split
    · exact h
    · exact h.setElc _ _

end Blocks

theorem blocks_step {s : State} (h : Blocks s.pics) (op : Op) : Blocks (step s op).pics := by
  cases op with
  | assertIrq dev irq => exact h.setIrqstate irq .assert
  | deassertIrq dev irq => exact h.setIrqstate irq .deassert
  | pulseIrq irq => exact h.setIrqstate irq .pulse
  | setIrqTrigger irq level => exact h.setIrqTrigger irq level
  | write c imr val => exact h.write c imr val
  | read c imr => exact h.read c imr
  | elcWrite c eax =>
    cases c with
    | master => exact h.setElc .master _
    | slave => exact h.setElc .slave _
  | pendingIntr vcpuid => exact h
  | intrAccepted vcpuid =>
    unfold step
    simp only
    split
    · exact h
    · exact h.intrAccepted _

theorem reachable_blocks {s : State} (h : system.Reachable s) : Blocks s.pics := by
  have hind : system.Inductive fun s => Blocks s.pics := by
    constructor
    · intro s hs
      rw [show s = start from hs]
      intro c
      cases c with
      | master => exact Nat.dvd_zero 8
      | slave => exact Nat.dvd_zero 8
    · intro s op t hs hstep
      rw [← Option.some.inj hstep]
      exact blocks_step hs op
  exact hind.reachable h

/-! ## Exactness -/

/-- The controllers after the pending vector is accepted. -/
def acknowledge (v : Vatpic) : Vatpic := (vatpicIntrAccepted v (vatpicPendingIntr v)).1

/-- On the master only the highest eligible pin changes its in-service bit, and on the slave only its
own highest eligible pin, where the master's was the cascade. -/
structure Exact (v : Vatpic) : Prop where
  master : ∀ pin, (acknowledge v).master.service.getLsbD pin ≠ v.master.service.getLsbD pin →
    vatpicGetHighestIrrpin v.master = some pin
  slave : ∀ pin, (acknowledge v).slave.service.getLsbD pin ≠ v.slave.service.getLsbD pin →
    vatpicGetHighestIrrpin v.master = some 2 ∧ vatpicGetHighestIrrpin v.slave = some pin

/-- Where the vector leads back to another pin than it came from, accepting that pin changes no
in-service bit. -/
def Unspoilt (v : Vatpic) : Prop :=
  match vatpicGetHighestIrrpin v.master with
  | none =>
    if v.master.irqBase = v.slave.irqBase then Silent v.slave 7 ∧ Silent v.master 2
    else Silent v.master 7
  | some pin =>
    if pin = 2 then vatpicGetHighestIrrpin v.slave = none → Silent v.slave 7
    else v.master.irqBase = v.slave.irqBase → Silent v.slave pin ∧ Silent v.master 2

section Acknowledge
variable {v : Vatpic} {base pin : Nat}

/-- A vector of the slave's base: its pin, and the cascade. -/
theorem intrAccepted_slave (hbase : 8 ∣ v.slave.irqBase) (hpin : pin < 8) :
    (vatpicIntrAccepted v (v.slave.irqBase + pin)).1.slave.service =
        (vatpicPinAccepted v.slave pin).service ∧
      (vatpicIntrAccepted v (v.slave.irqBase + pin)).1.master.service =
        (vatpicPinAccepted v.master 2).service := by
  have hmod : (v.slave.irqBase + pin) % 8 = pin := by omega
  unfold vatpicIntrAccepted
  simp only
  rw [hmod, Nat.add_sub_cancel, if_pos rfl, notifyIntr_slave, notifyIntr_service]
  exact ⟨rfl, rfl⟩

theorem intrAccepted_master (hbase : 8 ∣ v.master.irqBase) (hpin : pin < 8)
    (hne : v.master.irqBase ≠ v.slave.irqBase) :
    (vatpicIntrAccepted v (v.master.irqBase + pin)).1.slave.service = v.slave.service ∧
      (vatpicIntrAccepted v (v.master.irqBase + pin)).1.master.service =
        (vatpicPinAccepted v.master pin).service := by
  have hmod : (v.master.irqBase + pin) % 8 = pin := by omega
  unfold vatpicIntrAccepted
  simp only
  rw [hmod, Nat.add_sub_cancel, if_neg hne, notifyIntr_slave, notifyIntr_service]
  exact ⟨rfl, rfl⟩

theorem exact_slave_iff (hbase : 8 ∣ v.slave.irqBase) (hpin : pin < 8)
    (hvec : vatpicPendingIntr v = v.slave.irqBase + pin) :
    Exact v ↔ (vatpicGetHighestIrrpin v.master = some 2 ∨ Silent v.master 2) ∧
      ((vatpicGetHighestIrrpin v.master = some 2 ∧ vatpicGetHighestIrrpin v.slave = some pin) ∨
        Silent v.slave pin) := by
  obtain ⟨hs, hm⟩ := intrAccepted_slave hbase hpin
  rw [← hvec] at hs hm
  rw [← pinAccepted_only_iff (fun k => vatpicGetHighestIrrpin v.master = some k)
    (by decide : 2 < 8), ← pinAccepted_only_iff (fun k => vatpicGetHighestIrrpin v.master = some 2 ∧
    vatpicGetHighestIrrpin v.slave = some k) hpin, ← hs, ← hm]
  exact ⟨fun h => ⟨h.master, h.slave⟩, fun h => ⟨h.1, h.2⟩⟩

theorem exact_master_iff (hbase : 8 ∣ v.master.irqBase) (hpin : pin < 8)
    (hne : v.master.irqBase ≠ v.slave.irqBase)
    (hvec : vatpicPendingIntr v = v.master.irqBase + pin) :
    Exact v ↔ vatpicGetHighestIrrpin v.master = some pin ∨ Silent v.master pin := by
  obtain ⟨hs, hm⟩ := intrAccepted_master hbase hpin hne
  rw [← hvec] at hs hm
  rw [← pinAccepted_only_iff (fun k => vatpicGetHighestIrrpin v.master = some k) hpin, ← hm]
  refine ⟨fun h => h.master, fun h => ⟨h, fun k hk => ?_⟩⟩
  exact absurd (congrArg (·.getLsbD k) hs) hk

theorem exact_iff_unspoilt (hm : 8 ∣ v.master.irqBase) (hs : 8 ∣ v.slave.irqBase) :
    Exact v ↔ Unspoilt v := by
  unfold Unspoilt
  cases hmaster : vatpicGetHighestIrrpin v.master with
  | none =>
    have hvec : vatpicPendingIntr v = v.master.irqBase + 7 := by
      rw [vatpicPendingIntr, hmaster]
    by_cases hbase : v.master.irqBase = v.slave.irqBase
    · rw [exact_slave_iff hs (by decide : 7 < 8) (hvec.trans (by rw [hbase])), hmaster]
      simp [hbase, and_comm]
    · rw [exact_master_iff hm (by decide : 7 < 8) hbase hvec, hmaster]
      simp [hbase]
  | some pin =>
    have hlt := highestIrrpin_lt hmaster
    by_cases htwo : pin = 2
    · subst htwo
      cases hslave : vatpicGetHighestIrrpin v.slave with
      | none =>
        have hvec : vatpicPendingIntr v = v.slave.irqBase + 7 := by
          rw [vatpicPendingIntr, hmaster, hslave]
          rfl
        rw [exact_slave_iff hs (by decide : 7 < 8) hvec, hmaster, hslave]
        simp
      | some q =>
        have hvec : vatpicPendingIntr v = v.slave.irqBase + q := by
          rw [vatpicPendingIntr, hmaster, hslave]
          rfl
        rw [exact_slave_iff hs (highestIrrpin_lt hslave) hvec, hmaster, hslave]
        simp
    · have hvec : vatpicPendingIntr v = v.master.irqBase + pin := by
        rw [vatpicPendingIntr, hmaster]
        exact if_neg htwo
      by_cases hbase : v.master.irqBase = v.slave.irqBase
      · rw [exact_slave_iff hs hlt (hvec.trans (by rw [hbase])), hmaster]
        simp [hbase, htwo, and_comm]
      · rw [exact_master_iff hm hlt hbase hvec, hmaster]
        simp [hbase, htwo]

end Acknowledge

/-- In every reachable state, accepting the pending vector is exact exactly when the vector leads back
to the pin it came from, or to a pin whose acceptance changes no in-service bit. -/
theorem acknowledge_exact_iff {s : State} (h : system.Reachable s) :
    Exact s.pics.vatpic ↔ Unspoilt s.pics.vatpic :=
  exact_iff_unspoilt (reachable_blocks h .master) (reachable_blocks h .slave)

/-- Both controllers are initialised and line 12 asserted. -/
def asserted12 : List Op := initialise .master 0x20 ++ initialise .slave 0x28 ++ [.assertIrq 1 12]

theorem acknowledge_exact_slave : Exact (asserted12.foldl step start).pics.vatpic := by
  have hreach : system.Reachable (asserted12.foldl step start) :=
    System.reachable_foldl asserted12 (.init rfl)
  refine (acknowledge_exact_iff hreach).mpr ?_
  have hmaster : vatpicGetHighestIrrpin (asserted12.foldl step start).pics.vatpic.master = some 2 := by
    decide
  have hslave : vatpicGetHighestIrrpin (asserted12.foldl step start).pics.vatpic.slave = some 4 := by
    decide
  rw [Unspoilt, hmaster, hslave]
  exact fun hno => by cases hno

/-- Line 12 was withdrawn before it was served: its level-triggered request is gone from the slave, and
remembered by the master. -/
def withdrawn : List Op :=
  initialise .master 0x20 ++ initialise .slave 0x28 ++
    [.setIrqTrigger 12 true, .assertIrq 1 12, .deassertIrq 1 12]

/-- No pin of the slave is eligible, and its pin 7 goes in service. -/
theorem acknowledge_spurious :
    system.Reachable (withdrawn.foldl step start) ∧
    vatpicGetHighestIrrpin (withdrawn.foldl step start).pics.vatpic.slave = none ∧
    vatpicPendingIntr (withdrawn.foldl step start).pics.vatpic = 0x28 + 7 ∧
    ¬ Exact (withdrawn.foldl step start).pics.vatpic := by
  have hnone : vatpicGetHighestIrrpin (withdrawn.foldl step start).pics.vatpic.slave = none := by
    decide
  refine ⟨System.reachable_foldl withdrawn (.init rfl), hnone, by decide, fun hexact => ?_⟩
  have hseven := (hexact.slave 7 (by decide)).2
  rw [hnone] at hseven
  cases hseven

end Xhyve.Vmm.Pic8259
