import Xhyve.Vmm.PicLines

/-!
# The cascade

A request of the slave is an edge on the master's pin 2. It is remembered twice, as the slave's raised
interrupt and as the master's request bit, and the slave makes no second edge while its interrupt is
raised. The two agree as long as nothing clears the request bit alone: ICW1 to the master does, and so
does the acceptance of a vector whose base the slave no longer has; and the edge itself needs the count
of pin 2 at zero.
-/

namespace Xhyve.Vmm.Pic8259

open Xhyve.Lib

/-- A request the controller would serve now. -/
def eligible (a : Atpic) : Bool := (vatpicGetHighestIrrpin a).isSome

/-- The count of pin 2 is not negative, and an asserted pin has its request. -/
def PinCounted (a : Atpic) : Prop :=
  a.acnt 2 = 0 ∨ (0 < a.acnt 2 ∧ a.request.getLsbD 2 = true)

/-- What the slave's edge rests on. -/
structure Cascade (v : Vatpic) : Prop where
  cascaded : v.slave.intrRaised = true → v.master.request.getLsbD 2 = true
  counted : PinCounted v.master
  /-- Pin 2 is edge-triggered. -/
  edge : (v.elc 0).getLsbD 2 = false

/-! ## Pin 2 -/

section PinTwo
variable {a : Atpic} {elc : BitVec 8}

theorem PinCounted.nonneg (h : PinCounted a) : 0 ≤ a.acnt 2 := by
  rcases h with h | ⟨h, _⟩
  · omega
  · omega

theorem setPin_rise (elc : BitVec 8) (hc : PinCounted a) :
    (setPin a elc 2 true).request.getLsbD 2 = true ∧ 0 < (setPin a elc 2 true).acnt 2 := by
  constructor
  · rcases hc with hzero | ⟨_, hreq⟩
    · exact setPin_bit_rise (by decide) hzero
    · exact setPin_bit_kept hreq fun hno => Bool.false_ne_true hno.1.symm
  · rw [setPin_acnt, Function.update_self, if_pos rfl]
    have := hc.nonneg
    omega

theorem setPin_fall (hedge : elc.getLsbD 2 = false) (hpos : 0 < a.acnt 2)
    (hreq : a.request.getLsbD 2 = true) :
    (setPin a elc 2 false).request.getLsbD 2 = true ∧ 0 ≤ (setPin a elc 2 false).acnt 2 := by
  constructor
  · apply setPin_bit_kept hreq
    intro hno
    exact Bool.false_ne_true (hedge.symm.trans hno.2.2)
  · rw [setPin_acnt, Function.update_self, if_neg (by decide)]
    omega

theorem pinCounted_of (hpos : 0 ≤ a.acnt 2) (hreq : a.request.getLsbD 2 = true) :
    PinCounted a := by
  by_cases hzero : a.acnt 2 = 0
  · exact Or.inl hzero
  · exact Or.inr ⟨by omega, hreq⟩

end PinTwo

/-! ## Notification -/

@[simp] theorem notifyMaster_elc (v : Vatpic) : (notifyMaster v).1.elc = v.elc := by
  unfold notifyMaster
  split
  · rfl
  · rfl

theorem notifyMaster_told (v : Vatpic) (h : eligible (notifyMaster v).1.master = true) :
    (notifyMaster v).1.master.intrRaised = true := by
  unfold notifyMaster at h ⊢
  split
  · rfl
  · rename_i hno
    rw [if_neg hno] at h
    by_contra hraised
    exact hno ⟨hraised, h⟩

/-- The master is told of every eligible request, whatever the slave does. -/
theorem notifyIntr_masterTold (v : Vatpic) (h : eligible (vatpicNotifyIntr v).1.master = true) :
    (vatpicNotifyIntr v).1.master.intrRaised = true := by
  unfold vatpicNotifyIntr at h ⊢
  split
  · rename_i hslave
    rw [if_pos hslave] at h
    exact notifyMaster_told _ h
  · rename_i hslave
    rw [if_neg hslave] at h
    exact notifyMaster_told _ h

theorem notifyIntr_slaveTold (v : Vatpic) (h : eligible (vatpicNotifyIntr v).1.slave = true) :
    (vatpicNotifyIntr v).1.slave.intrRaised = true := by
  rw [notifyIntr_slave] at h ⊢
  have hsome : (vatpicGetHighestIrrpin v.slave).isSome = true := h
  simp only [hsome, Bool.or_true]

/-- The master's interrupt and everything else of the slave are of no account. -/
theorem Cascade.congr {v w : Vatpic} (h : Cascade v)
    (hraised : w.slave.intrRaised = true → v.slave.intrRaised = true)
    (hacnt : w.master.acnt = v.master.acnt) (hreq : w.master.request = v.master.request)
    (helc : w.elc = v.elc) : Cascade w where
  cascaded hr := by
    rw [hreq]
    exact h.cascaded (hraised hr)
  counted := by
    unfold PinCounted
    rw [hacnt, hreq]
    exact h.counted
  edge := by
    rw [helc]
    exact h.edge

theorem Cascade.notify {v : Vatpic} (h : Cascade v) : Cascade (vatpicNotifyIntr v).1 := by
  unfold vatpicNotifyIntr
  split
  · -- the pulse: up from a count that is not negative, and down again
    simp only
    generalize hv : ({ v with slave := { v.slave with intrRaised := true } } : Vatpic) = w
    have hup := setPin_rise (w.elc 0) (show PinCounted w.master from hv ▸ h.counted)
    rw [← setCascadePin_eq, ← notifyMaster_request, ← notifyMaster_acnt] at hup
    generalize hw : (notifyMaster (setCascadePin w true)).1 = x at hup ⊢
    have hedge : (x.elc 0).getLsbD 2 = false := by
      rw [← hw, notifyMaster_elc]
      exact hv ▸ h.edge
    have hdown := setPin_fall hedge hup.2 hup.1
    rw [← setCascadePin_eq] at hdown
    have hx : Cascade (setCascadePin x false) :=
      ⟨fun _ => hdown.1, pinCounted_of hdown.2 hdown.1, hedge⟩
    refine hx.congr (fun hr => ?_) ?_ ?_ ?_
    · simpa only [notifyMaster_slave] using hr
    · simp only [notifyMaster_acnt]
    · simp only [notifyMaster_request]
    · simp only [notifyMaster_elc]
  · exact h.congr (fun hr => by simpa using hr) (notifyMaster_acnt v) (notifyMaster_request v)
      (notifyMaster_elc v)

/-! ## The invariant -/

/-- A ready controller is told of every request it would serve, and the cascade holds. -/
structure Told (s : Pics) : Prop where
  cascade : Cascade s.vatpic
  told : ∀ c, (s.ports c).ready = true → eligible (s.atpic c) = true →
    (s.atpic c).intrRaised = true
  noPoll : ∀ c, (s.ports c).poll = false

theorem told_notify {s : Pics} (h : Cascade s.vatpic) (hpoll : ∀ c, (s.ports c).poll = false) :
    Told (notify s) where
  cascade := h.notify
  told c _ hel := by
    cases c with
    | master => exact notifyIntr_masterTold s.vatpic hel
    | slave => exact notifyIntr_slaveTold s.vatpic hel
  noPoll := hpoll

/-! ## Lines -/

theorem cascade_setPinMaster {v : Vatpic} (h : Cascade v) {pin : Nat} {newstate : Bool}
    (hdown : pin = 2 → newstate = false → v.master.acnt 2 ≠ 0) :
    Cascade { v with master := setPin v.master (v.elc 0) pin newstate } := by
  by_cases hpin : pin = 2
  · subst hpin
    have hboth : (setPin v.master (v.elc 0) 2 newstate).request.getLsbD 2 = true ∧
        0 ≤ (setPin v.master (v.elc 0) 2 newstate).acnt 2 := by
      cases newstate with
      | true =>
        have hup := setPin_rise (v.elc 0) h.counted
        exact ⟨hup.1, Int.le_of_lt hup.2⟩
      | false =>
        have hpos := h.counted.resolve_left (hdown rfl rfl)
        exact setPin_fall h.edge hpos.1 hpos.2
    exact ⟨fun _ => hboth.1, pinCounted_of hboth.2 hboth.1, h.edge⟩
  · have hreq : (setPin v.master (v.elc 0) pin newstate).request.getLsbD 2 =
        v.master.request.getLsbD 2 := setPin_bit_other (Ne.symm hpin)
    have hacnt : (setPin v.master (v.elc 0) pin newstate).acnt 2 = v.master.acnt 2 := by
      rw [setPin_acnt, Function.update_of_ne (Ne.symm hpin)]
    refine ⟨fun hr => hreq.trans (h.cascaded hr), ?_, h.edge⟩
    unfold PinCounted
    rw [hacnt, hreq]
    exact h.counted

/-- The slave's pins: the slave's interrupt is as it was. -/
theorem cascade_slave {v : Vatpic} (h : Cascade v) {a : Atpic}
    (ha : a.intrRaised = true → v.slave.intrRaised = true) : Cascade { v with slave := a } :=
  h.congr ha rfl rfl rfl

theorem setPin_intrRaised (a : Atpic) (elc : BitVec 8) (pin : Nat) (newstate : Bool) :
    (setPin a elc pin newstate).intrRaised = a.intrRaised := by
  rw [setPin_frame]

theorem setPinstate_told {s : Pics} (h : Told s) {pin : Nat} {newstate : Bool}
    (hdown : pin = 2 → newstate = false → s.vatpic.master.acnt 2 ≠ 0) :
    Told (vatpicSetPinstate s pin newstate) := by
  unfold vatpicSetPinstate
  simp only
  cases hc : chipOf pin with
  | master =>
    apply told_notify
    · apply cascade_setPinMaster h.cascade
      intro hpin
      have hlt : pin < 8 := by
        by_contra hge
        rw [chipOf, if_neg hge] at hc
        cases hc
      exact hdown (by omega)
    · exact h.noPoll
  | slave =>
    apply told_notify
    · apply cascade_slave h.cascade
      rw [setPin_intrRaised]
      exact id
    · exact h.noPoll

theorem setIrqstate_told {s : Pics} (h : Told s) {irq : Int} {irqstate : Irqstate}
    (hdown : irqstate = .deassert → irq = 2 → (s.ports .master).ready = true →
      s.vatpic.master.acnt 2 ≠ 0) :
    Told ((vatpicSetIrqstate s irq irqstate).getD s) := by
  unfold vatpicSetIrqstate
  split
  · exact h
  · split
    · exact h
    · rename_i hready
      cases irqstate with
      | assert => exact setPinstate_told h fun _ hno => absurd hno.symm Bool.false_ne_true
      | deassert =>
        apply setPinstate_told h
        intro hpin _
        have hirq : irq = 2 := by omega
        subst hirq
        exact hdown rfl rfl (Bool.eq_true_of_not_eq_false hready)
      | pulse =>
        have hup : Told (vatpicSetPinstate s irq.toNat true) :=
          setPinstate_told h fun _ hno => absurd hno.symm Bool.false_ne_true
        apply setPinstate_told hup
        intro hpin _
        rw [hpin]
        have hcount : lineCount (vatpicSetPinstate s 2 true) 2 = lineCount s 2 + 1 :=
          setPinstate_lineCount s (by decide) (by decide) true
        have hnonneg : 0 ≤ lineCount s 2 := h.cascade.counted.nonneg
        show lineCount (vatpicSetPinstate s 2 true) 2 ≠ 0
        omega

/-! ## Triggers -/

/-- The level of a pin is read only when it changes. -/
theorem setElc_told {s : Pics} (h : Told s) {c : Chip} {val : BitVec 8}
    (hval : c = .master → val.getLsbD 2 = false) : Told (setElc s c val) := by
  refine ⟨⟨h.cascade.cascaded, h.cascade.counted, ?_⟩, fun d => ?_, h.noPoll⟩
  · cases c with
    | master => exact hval rfl
    | slave => exact h.cascade.edge
  · cases d with
    | master => exact h.told .master
    | slave => exact h.told .slave

theorem setIrqTrigger_told {s : Pics} (h : Told s) (irq : Int) (level : Bool) :
    Told ((vatpicSetIrqTrigger s irq level).getD s) := by
  unfold vatpicSetIrqTrigger
  split
  · exact h
  · rename_i hirq
    split
    · exact h
    · rename_i hno
      apply setElc_told h
      intro hc
      rw [hc]
      have hedge : (elcOf s.vatpic .master).getLsbD 2 = false := h.cascade.edge
      split
      · rename_i hlevel
        -- level is refused for IRQ 2
        have hpin : irq.toNat % 8 ≠ 2 := by
          intro hmod
          have htwo : irq.toNat = 2 := chip_pin_inj (by omega) (by decide) hc hmod
          exact hno ⟨hlevel, by omega⟩
        rw [BitVec.getLsbD_or, hedge, pinBit, decide_eq_false hpin, Bool.and_false]
        rfl
      · rw [BitVec.getLsbD_and, hedge]
        rfl

theorem elcWrite_told {s : Pics} (h : Told s) (c : Chip) (eax : BitVec 8) :
    Told (vatpicElcWrite s c eax) := by
  cases c with
  | master =>
    have hval : (eax &&& 0xf8).getLsbD 2 = false := by
      rw [BitVec.getLsbD_and]
      exact Bool.and_false _
    show Told (setElc s .master (eax &&& 0xf8))
    exact setElc_told h fun _ => hval
  | slave =>
    have hne : Chip.slave ≠ .master := by decide
    show Told (setElc s .slave (eax &&& 0xde))
    exact setElc_told h fun hno => absurd hno hne

/-! ## Ports -/

/-- The operation command word that asks for a poll. -/
def pollWord (imr : Bool) (val : BitVec 8) : Bool :=
  !imr && !val.getLsbD 4 && val.getLsbD 3 && val &&& ocw3Rr ≠ 0 && val &&& ocw3P ≠ 0

theorem commandWord_poll {c : Chip} {a : Atpic} {p : Ports} {imr : Bool} {val : BitVec 8}
    (hp : p.poll = false) (hword : p.ready = true → pollWord imr val = false) :
    (commandWord c a p imr val).ports.poll = false := by
  unfold commandWord
  split
  · split
    · exact hp
    · exact hp
    · unfold vatpicIcw4
      split
      · exact hp
      · exact hp
    · exact hp
  · rename_i himr
    split
    · unfold vatpicIcw1
      simp only
      split
      · rfl
      · split
        · rfl
        · rfl
    · rename_i hicw1
      split
      · rename_i hready
        split
        · rename_i hocw3
          unfold vatpicOcw3
          simp only
          split
          · rename_i hrr
            have hno := hword hready
            rw [pollWord, Bool.eq_false_of_not_eq_true himr, Bool.eq_false_of_not_eq_true hicw1,
              hocw3, decide_eq_true hrr] at hno
            exact hno
          · exact hp
        · unfold vatpicOcw2
          simp only
          split
          · split
            · exact hp
            · exact hp
          · split
            · exact hp
            · exact hp
      · exact hp

section SetPorts
variable (s : Pics) {c d : Chip}

theorem setAtpic_ports (c : Chip) (a : Atpic) : (s.setAtpic c a).ports = s.ports := by
  cases c with
  | master => rfl
  | slave => rfl

theorem setPorts_ports (c : Chip) (p : Ports) : (s.setPorts c p).ports c = p :=
  Function.update_self ..

theorem setPorts_ports_of_ne (h : d ≠ c) (p : Ports) :
    ((s.setPorts c p).ports d) = s.ports d :=
  Function.update_of_ne h ..

theorem setPorts_atpic (c d : Chip) (p : Ports) : (s.setPorts c p).atpic d = s.atpic d := by
  cases d with
  | master => rfl
  | slave => rfl

end SetPorts

theorem cascade_master {v : Vatpic} (h : Cascade v) {a : Atpic} {icw1 : Prop}
    (ha : Commanded v.master a icw1)
    (hicw1 : icw1 → v.slave.intrRaised = false ∧ v.master.acnt 2 = 0) :
    Cascade { v with master := a } := by
  by_cases hword : icw1
  · obtain ⟨hraised, hzero⟩ := hicw1 hword
    refine ⟨fun hno => ?_, Or.inl ?_, h.edge⟩
    · exact absurd (hraised.symm.trans hno) Bool.false_ne_true
    · show a.acnt 2 = 0
      rw [ha.acnt, hzero]
  · exact h.congr id ha.acnt (ha.request hword) rfl

theorem write_told {s : Pics} (h : Told s) {c : Chip} {imr : Bool} {val : BitVec 8}
    (hpoll : (s.ports c).ready = true → pollWord imr val = false)
    (hicw1 : c = .master → imr = false ∧ val.getLsbD 4 = true →
      s.vatpic.slave.intrRaised = false ∧ s.vatpic.master.acnt 2 = 0) :
    Told (vatpicWrite s c imr val).1 := by
  have hword := commandWord_commanded c (s.atpic c) (s.ports c) imr val
  have hnoPoll := commandWord_poll (c := c) (a := s.atpic c) (h.noPoll c) hpoll
  unfold vatpicWrite
  simp only
  generalize commandWord c (s.atpic c) (s.ports c) imr val = w at hword hnoPoll ⊢
  have hcascade : Cascade ((s.setAtpic c w.atpic).setPorts c w.ports).vatpic := by
    cases c with
    | master => exact cascade_master h.cascade hword (hicw1 rfl)
    | slave =>
      apply cascade_slave h.cascade
      rw [hword.intrRaised]
      exact id
  have hpolls : ∀ d, (((s.setAtpic c w.atpic).setPorts c w.ports).ports d).poll = false := by
    intro d
    by_cases hd : d = c
    · rw [hd, setPorts_ports]
      exact hnoPoll
    · rw [setPorts_ports_of_ne _ hd, setAtpic_ports]
      exact h.noPoll d
  split
  · exact told_notify hcascade hpolls
  · -- a controller that is not ready need not be told
    rename_i hready
    refine ⟨hcascade, fun d hd hel => ?_, hpolls⟩
    have hne : d ≠ c := by
      intro heq
      rw [heq, setPorts_ports] at hd
      exact hready hd
    rw [setPorts_ports_of_ne _ hne, setAtpic_ports] at hd
    rw [setPorts_atpic, atpic_setAtpic_of_ne s hne] at hel ⊢
    exact h.told d hd hel

/-! ## Acceptance -/

section Accepted
variable {a : Atpic} {pin k : Nat}

theorem pinAccepted_intrRaised (a : Atpic) (pin : Nat) :
    (vatpicPinAccepted a pin).intrRaised = false := by
  unfold vatpicPinAccepted
  simp only
  split <;> split <;> first | rfl | (split <;> rfl)

theorem pinAccepted_request (a : Atpic) (pin : Nat) :
    (vatpicPinAccepted a pin).request =
      if a.acnt pin = 0 then a.request &&& ~~~(1#8 <<< pin) else a.request := by
  unfold vatpicPinAccepted
  simp only
  split <;> split <;> first | rfl | (split <;> rfl)

theorem pinAccepted_bit (h : k ≠ pin ∨ a.acnt pin ≠ 0) (hbit : a.request.getLsbD k = true) :
    (vatpicPinAccepted a pin).request.getLsbD k = true := by
  rw [pinAccepted_request]
  split
  · rename_i hzero
    have hne : k ≠ pin := h.resolve_right (not_not_intro hzero)
    rw [BitVec.getLsbD_and, BitVec.getLsbD_not, pinBit, hbit, decide_eq_false (Ne.symm hne),
      decide_eq_true (BitVec.lt_of_getLsbD hbit), Bool.and_false]
    rfl
  · exact hbit

theorem pinAccepted_counted (h : PinCounted a) : PinCounted (vatpicPinAccepted a pin) := by
  unfold PinCounted
  rw [pinAccepted_acnt]
  rcases h with hzero | ⟨hpos, hbit⟩
  · exact Or.inl hzero
  · right
    refine ⟨hpos, pinAccepted_bit ?_ hbit⟩
    by_cases hpin : 2 = pin
    · right
      rw [← hpin]
      omega
    · exact Or.inl hpin

end Accepted

theorem intrAccepted_told {s : Pics} (h : Told s) {vector : Nat}
    (hstale : vector % 8 = 2 → vector - 2 = s.vatpic.slave.irqBase ∨
      s.vatpic.slave.intrRaised = false ∨ s.vatpic.master.acnt 2 ≠ 0) :
    Told { s with vatpic := (vatpicIntrAccepted s.vatpic vector).1 } := by
  have hcounted (pin : Nat) : PinCounted (vatpicPinAccepted s.vatpic.master pin) :=
    pinAccepted_counted h.cascade.counted
  unfold vatpicIntrAccepted
  simp only
  split
  · -- both interrupts are taken back, and the notification makes them again
    refine told_notify (s := { s with vatpic := { s.vatpic with
      slave := vatpicPinAccepted s.vatpic.slave (vector % 8)
      master := vatpicPinAccepted s.vatpic.master 2 } })
      ⟨fun hno => ?_, hcounted 2, h.cascade.edge⟩ h.noPoll
    exact absurd ((pinAccepted_intrRaised _ _).symm.trans hno) Bool.false_ne_true
  · rename_i hbase
    refine told_notify (s := { s with vatpic := { s.vatpic with
      master := vatpicPinAccepted s.vatpic.master (vector % 8) } })
      ⟨fun hraised => ?_, hcounted _, h.cascade.edge⟩ h.noPoll
    apply pinAccepted_bit _ (h.cascade.cascaded hraised)
    by_cases hpin : vector % 8 = 2
    · right
      rw [hpin] at hbase ⊢
      rcases hstale hpin with hb | hr | hacnt
      · exact absurd hb hbase
      · exact absurd (hr.symm.trans hraised) Bool.false_ne_true
      · exact hacnt
    · exact Or.inl (Ne.symm hpin)

/-! ## Runs -/

/-- No controller is asked for a poll. -/
def Unpolled (s : State) : Op → Prop
  | .write c imr val => (s.pics.ports c).ready = true → pollWord imr val = false
  | _ => True

/-- The steps that do not part the slave's interrupt from the master's request: the master is not
initialised while the slave's interrupt is raised or pin 2 asserted, IRQ 2 is not deasserted below
zero, and no vector that pin 2 of the master is taken for is accepted while the slave waits. -/
def CascadeKept (s : State) : Op → Prop
  | .deassertIrq _ irq =>
    irq = 2 → (s.pics.ports .master).ready = true → s.pics.vatpic.master.acnt 2 ≠ 0
  | .write c imr val =>
    c = .master → imr = false ∧ val.getLsbD 4 = true →
      s.pics.vatpic.slave.intrRaised = false ∧ s.pics.vatpic.master.acnt 2 = 0
  | .intrAccepted vcpuid =>
    (s.asked vcpuid).getD 0 % 8 = 2 →
      (s.asked vcpuid).getD 0 - 2 = s.pics.vatpic.slave.irqBase ∨
        s.pics.vatpic.slave.intrRaised = false ∨ s.pics.vatpic.master.acnt 2 ≠ 0
  | _ => True

instance (s : State) (op : Op) : Decidable (Unpolled s op) :=
  match op with
  | .write .. => inferInstanceAs (Decidable (_ → _))
  | .assertIrq .. | .deassertIrq .. | .pulseIrq .. | .setIrqTrigger .. | .read .. | .elcWrite ..
  | .pendingIntr .. | .intrAccepted .. => inferInstanceAs (Decidable True)

instance (s : State) (op : Op) : Decidable (CascadeKept s op) :=
  match op with
  | .deassertIrq .. => inferInstanceAs (Decidable (_ → _ → _))
  | .write .. => inferInstanceAs (Decidable (_ → _ → _))
  | .intrAccepted .. => inferInstanceAs (Decidable (_ → _))
  | .assertIrq .. | .pulseIrq .. | .setIrqTrigger .. | .read .. | .elcWrite .. | .pendingIntr .. =>
    inferInstanceAs (Decidable True)

theorem told_step {s : State} (h : Told s.pics) {op : Op} (hpoll : Unpolled s op)
    (hkept : CascadeKept s op) : Told (step s op).pics := by
  cases op with
  | assertIrq dev irq => exact setIrqstate_told h fun hno => by cases hno
  | deassertIrq dev irq => exact setIrqstate_told h fun _ => hkept
  | pulseIrq irq => exact setIrqstate_told h fun hno => by cases hno
  | setIrqTrigger irq level => exact setIrqTrigger_told h irq level
  | write c imr val => exact write_told h hpoll hkept
  | read c imr =>
    -- without a poll a read changes nothing
    have hsame : (vatpicRead s.pics c imr).1 = s.pics := by
      unfold vatpicRead
      rw [if_neg (by rw [h.noPoll c]; exact Bool.false_ne_true)]
      split
      · rfl
      · split
        · rfl
        · rfl
    show Told (vatpicRead s.pics c imr).1
    rw [hsame]
    exact h
  | elcWrite c eax => exact elcWrite_told h c eax
  | pendingIntr vcpuid => exact h
  | intrAccepted vcpuid =>
    unfold step
    simp only
    split
    · exact h
    · rename_i vector hasked
      have hstale : (s.asked vcpuid).getD 0 % 8 = 2 → _ := hkept
      rw [hasked, Option.getD_some] at hstale
      exact intrAccepted_told h hstale

theorem start_told : Told start.pics where
  cascade := ⟨fun hno => absurd hno Bool.false_ne_true, Or.inl rfl, rfl⟩
  told _ hready := by cases hready
  noPoll _ := rfl

theorem reachable_told {s : State}
    (h : ((system.restrict Unpolled).restrict CascadeKept).Reachable s) : Told s.pics := by
  have hind : ((system.restrict Unpolled).restrict CascadeKept).Inductive fun s => Told s.pics := by
    constructor
    · intro s hs
      rw [show s = start from hs]
      exact start_told
    · intro s op t hs hstep
      obtain ⟨hkept, hpoll, ht⟩ := hstep
      rw [← Option.some.inj ht]
      exact told_step hs hpoll hkept
  exact hind.reachable h

/-- In every state a run without polls reaches by such steps, with both controllers ready: an eligible
request of the slave is a request of the master's pin 2, and an eligible request of the master has
been told. -/
theorem cascade_loses_nothing {s : State}
    (h : ((system.restrict Unpolled).restrict CascadeKept).Reachable s)
    (hready : ∀ c, (s.pics.ports c).ready = true) :
    (eligible s.pics.vatpic.slave = true → s.pics.vatpic.master.request.getLsbD 2 = true) ∧
      (eligible s.pics.vatpic.master = true → s.pics.vatpic.master.intrRaised = true) := by
  have htold := reachable_told h
  constructor
  · intro hel
    exact htold.cascade.cascaded (htold.told .slave (hready .slave) hel)
  · exact htold.told .master (hready .master)

/-- Line 12 is pulsed, served, and pulsed again. -/
def pulseTwice : List Op :=
  initialise .master 0x20 ++ initialise .slave 0x28 ++
    [.pulseIrq 12, .pendingIntr 0, .intrAccepted 0, .write .slave false 0x20,
      .write .master false 0x20, .pulseIrq 12]

theorem cascade_loses_nothing_pulse : ∃ s : State,
    ((system.restrict Unpolled).restrict CascadeKept).Reachable s ∧
    eligible s.pics.vatpic.slave = true ∧ s.pics.vatpic.master.request.getLsbD 2 = true := by
  have hrun : (System.exec (System.guarded (fun s op => Unpolled s op ∧ CascadeKept s op)
      fun s op => some (step s op)) start pulseTwice).map
      (fun s => ((s.pics.ports .master).ready, (s.pics.ports .slave).ready,
        eligible s.pics.vatpic.slave)) = some (true, true, true) := by
    decide +kernel
  obtain ⟨s, hs, hready⟩ := Option.map_eq_some_iff.mp hrun
  obtain ⟨hm, hsl, hel⟩ : _ ∧ _ ∧ _ := by
    simpa only [Prod.mk.injEq] using hready
  have hr : ((system.restrict Unpolled).restrict CascadeKept).Reachable s :=
    System.Reachable.restrict_restrict (System.exec_reachable_guarded (.init rfl) hs)
  refine ⟨s, hr, hel, (cascade_loses_nothing hr fun c => ?_).1 hel⟩
  cases c with
  | master => exact hm
  | slave => exact hsl

/-- Line 12 waits while the guest initialises the master again. -/
def masterAgain : List Op :=
  initialise .master 0x20 ++ initialise .slave 0x28 ++ .assertIrq 1 12 :: initialise .master 0x20

/-- ICW1 clears the request of pin 2, and the slave, whose interrupt is raised, makes no other. -/
theorem cascade_lost : ∃ s : State,
    (system.restrict Unpolled).Reachable s ∧ (∀ c, (s.pics.ports c).ready = true) ∧
    eligible s.pics.vatpic.slave = true ∧ s.pics.vatpic.master.request.getLsbD 2 = false := by
  have hrun : (System.exec (System.guarded Unpolled fun s op => some (step s op)) start
      masterAgain).map
      (fun s => ((s.pics.ports .master).ready, (s.pics.ports .slave).ready,
        eligible s.pics.vatpic.slave, s.pics.vatpic.master.request.getLsbD 2)) =
      some (true, true, true, false) := by
    decide +kernel
  obtain ⟨s, hs, hready⟩ := Option.map_eq_some_iff.mp hrun
  obtain ⟨hm, hsl, hel, hreq⟩ : _ ∧ _ ∧ _ ∧ _ := by
    simpa only [Prod.mk.injEq] using hready
  refine ⟨s, System.exec_reachable_guarded (.init rfl) hs, fun c => ?_, hel, hreq⟩
  cases c with
  | master => exact hm
  | slave => exact hsl

end Xhyve.Vmm.Pic8259
