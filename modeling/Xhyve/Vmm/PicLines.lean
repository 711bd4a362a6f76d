import Xhyve.Vmm.PicPorts

/-!
# Who asserts a line

The count of a line is that of its asserters as long as no call for it is dropped: nothing else
moves the count, since the notification of the slave raises and lowers the master's pin 2 at once.
A call that is dropped puts the count off by one.
-/

namespace Xhyve.Vmm.Pic8259

open Xhyve.Lib

/-! ## A change of a pin -/

theorem pinBit (pin k : Nat) : (1#8 <<< pin).getLsbD k = (decide (pin < 8) && decide (pin = k)) :=
  BitVec.getLsbD_twoPow ..

section SetPin
variable {a : Atpic} {elc : BitVec 8} {pin k : Nat} {newstate : Bool}

/-- Only the count and the requests are written. -/
theorem setPin_frame (a : Atpic) (elc : BitVec 8) (pin : Nat) (newstate : Bool) :
    setPin a elc pin newstate =
      { a with
        acnt := Function.update a.acnt pin (a.acnt pin + if newstate then 1 else -1)
        request := (setPin a elc pin newstate).request } := by
  have hcnt : (if newstate = true then a.acnt pin + 1 else a.acnt pin - 1) =
      a.acnt pin + if newstate then 1 else -1 := by
    cases newstate with
    | false => rfl
    | true => rfl
  unfold setPin
  simp only [hcnt]
  generalize (a.acnt pin + if newstate = true then 1 else -1) = newcnt
  split
  · rfl
  · split
    · split
      · rfl
      · rfl
    · rfl

theorem setPin_acnt (a : Atpic) (elc : BitVec 8) (pin : Nat) (newstate : Bool) :
    (setPin a elc pin newstate).acnt =
      Function.update a.acnt pin (a.acnt pin + if newstate then 1 else -1) := by
  rw [setPin_frame]

/-- The three things that become of the requests. -/
theorem setPin_request (a : Atpic) (elc : BitVec 8) (pin : Nat) (newstate : Bool) :
    (setPin a elc pin newstate).request = a.request ||| 1#8 <<< pin ∨
      (¬ (a.acnt pin = 0 ∧ newstate = true) ∧
        ((setPin a elc pin newstate).request = a.request ∨
          (newstate = false ∧ a.acnt pin = 1 ∧ elc.getLsbD pin = true ∧
            (setPin a elc pin newstate).request = a.request &&& ~~~(1#8 <<< pin)))) := by
  unfold setPin
  cases newstate with
  | false =>
    simp only [Bool.false_eq_true, if_false, and_false, not_false_eq_true, true_and]
    split
    · exact Or.inl rfl
    · split
      · rename_i hfall
        split
        · rename_i hlevel
          exact Or.inr (Or.inr ⟨hfall.1, hlevel, rfl⟩)
        · exact Or.inr (Or.inl rfl)
      · exact Or.inr (Or.inl rfl)
  | true =>
    simp only [if_true, and_true]
    split
    · exact Or.inl rfl
    · rename_i hno
      rw [if_neg (by omega)]
      exact Or.inr ⟨by omega, Or.inl rfl⟩

theorem setPin_bit_other (hk : k ≠ pin) :
    (setPin a elc pin newstate).request.getLsbD k = a.request.getLsbD k := by
  have hbit : (1#8 <<< pin).getLsbD k = false := by
    rw [pinBit, decide_eq_false (Ne.symm hk), Bool.and_false]
  rcases setPin_request a elc pin newstate with h | ⟨_, h | ⟨_, _, _, h⟩⟩
  · rw [h, BitVec.getLsbD_or, hbit, Bool.or_false]
  · rw [h]
  · rw [h, BitVec.getLsbD_and, BitVec.getLsbD_not, hbit, Bool.not_false, Bool.and_true]
    cases hreq : a.request.getLsbD k with
    | false => rfl
    | true => rw [decide_eq_true (BitVec.lt_of_getLsbD hreq), Bool.and_self]

/-- A request stays but at the falling edge of a level-triggered pin. -/
theorem setPin_bit_kept (h : a.request.getLsbD pin = true)
    (hfall : ¬ (newstate = false ∧ a.acnt pin = 1 ∧ elc.getLsbD pin = true)) :
    (setPin a elc pin newstate).request.getLsbD pin = true := by
  rcases setPin_request a elc pin newstate with heq | ⟨_, heq | ⟨hnew, hacnt, hlevel, _⟩⟩
  · rw [heq, BitVec.getLsbD_or, h, Bool.true_or]
  · rw [heq, h]
  · exact absurd ⟨hnew, hacnt, hlevel⟩ hfall

/-- The first assertion of an idle pin is a request. -/
theorem setPin_bit_rise (hpin : pin < 8) (h : a.acnt pin = 0) :
    (setPin a elc pin true).request.getLsbD pin = true := by
  rcases setPin_request a elc pin true with heq | ⟨hno, _⟩
  · rw [heq, BitVec.getLsbD_or, pinBit, decide_eq_true hpin, decide_eq_true rfl, Bool.and_self,
      Bool.or_true]
  · exact absurd ⟨h, rfl⟩ hno

end SetPin

/-! ## Notification leaves the counts alone -/

section Notification
variable (v : Vatpic)

@[simp] theorem notifyMaster_acnt : (notifyMaster v).1.master.acnt = v.master.acnt := by
  unfold notifyMaster
  split
  · rfl
  · rfl

@[simp] theorem notifyMaster_request : (notifyMaster v).1.master.request = v.master.request := by
  unfold notifyMaster
  split
  · rfl
  · rfl

@[simp] theorem notifyMaster_slave : (notifyMaster v).1.slave = v.slave := by
  unfold notifyMaster
  split
  · rfl
  · rfl

@[simp] theorem setCascadePin_slave (newstate : Bool) :
    (setCascadePin v newstate).slave = v.slave := rfl

theorem setCascadePin_eq (newstate : Bool) :
    (setCascadePin v newstate).master = setPin v.master (v.elc 0) 2 newstate := by
  unfold setCascadePin setPin
  simp only
  generalize (if newstate = true then v.master.acnt 2 + 1 else v.master.acnt 2 - 1) = newcnt
  by_cases hrise : (v.master.acnt 2 = 0 ∧ newcnt = 1) ∨ (newcnt > 0 ∧ (v.elc 0).getLsbD 2 = true)
  · rw [if_pos hrise, if_pos hrise]
  · rw [if_neg hrise, if_neg hrise]
    by_cases hfall : v.master.acnt 2 = 1 ∧ newcnt = 0
    · rw [if_pos hfall]
      by_cases hlevel : (v.elc 0).getLsbD 2 = true
      · rw [if_pos hlevel, if_pos ⟨hfall.1, hfall.2, hlevel⟩]
      · rw [if_neg hlevel, if_neg fun h => hlevel h.2.2]
    · rw [if_neg hfall, if_neg fun h => hfall ⟨h.1, h.2.1⟩]

theorem notifyIntr_acnt : (vatpicNotifyIntr v).1.master.acnt = v.master.acnt := by
  unfold vatpicNotifyIntr
  split
  · simp only [notifyMaster_acnt, setCascadePin_eq, setPin_acnt, if_true, Bool.false_eq_true,
      if_false, Function.update_self, Function.update_idem]
    show Function.update v.master.acnt 2 (v.master.acnt 2 + 1 + -1) = v.master.acnt
    rw [Int.add_neg_cancel_right, Function.update_eq_self]
  · exact notifyMaster_acnt v

/-- The slave is told apart only by its raised interrupt. -/
theorem notifyIntr_slave : (vatpicNotifyIntr v).1.slave =
    { v.slave with
      intrRaised := v.slave.intrRaised || (vatpicGetHighestIrrpin v.slave).isSome } := by
  unfold vatpicNotifyIntr
  split
  · rename_i h
    simp only [notifyMaster_slave, setCascadePin_slave, h.2, Bool.or_true]
  · rename_i h
    rw [notifyMaster_slave]
    cases hr : v.slave.intrRaised with
    | true =>
      rw [Bool.true_or, ← hr]
    | false =>
      have hnone : (vatpicGetHighestIrrpin v.slave).isSome = false := by
        rw [← Bool.not_eq_true]
        intro hsome
        exact h ⟨by rw [hr]; exact Bool.false_ne_true, hsome⟩
      rw [hnone, Bool.or_false, ← hr]

theorem notifyIntr_keeps {pin : Nat} (h : v.master.request.getLsbD pin = true)
    (hpin : pin ≠ 2 ∨ 0 < v.master.acnt 2) :
    (vatpicNotifyIntr v).1.master.request.getLsbD pin = true := by
  unfold vatpicNotifyIntr
  split
  · simp only [notifyMaster_request, setCascadePin_eq]
    by_cases heq : pin = 2
    · subst heq
      have hpos : 0 < v.master.acnt 2 := hpin.resolve_left (absurd rfl)
      apply setPin_bit_kept
      · rw [notifyMaster_request, setCascadePin_eq]
        exact setPin_bit_kept h fun hno => Bool.false_ne_true hno.1.symm
      · intro hno
        rw [notifyMaster_acnt, setCascadePin_eq, setPin_acnt, if_pos rfl,
          Function.update_self] at hno
        have hone : v.master.acnt 2 + 1 = 1 := hno.2.1
        omega
    · rw [setPin_bit_other heq, notifyMaster_request, setCascadePin_eq, setPin_bit_other heq]
      exact h
  · rw [notifyMaster_request]
    exact h

end Notification

/-! ## The count of a line -/

def lineCount (s : Pics) (irq : Nat) : Int := (s.atpic (chipOf irq)).acnt (irq % 8)

section Counts
variable (s : Pics)

@[simp] theorem atpic_setAtpic (c : Chip) (a : Atpic) : (s.setAtpic c a).atpic c = a := by
  cases c with
  | master => rfl
  | slave => rfl

theorem atpic_setAtpic_of_ne {c d : Chip} (h : d ≠ c) (a : Atpic) :
    (s.setAtpic c a).atpic d = s.atpic d := by
  cases c with
  | master =>
    cases d with
    | master => exact absurd rfl h
    | slave => rfl
  | slave =>
    cases d with
    | master => rfl
    | slave => exact absurd rfl h

theorem notify_acnt (c : Chip) : ((notify s).atpic c).acnt = (s.atpic c).acnt := by
  cases c with
  | master => exact notifyIntr_acnt s.vatpic
  | slave =>
    show (vatpicNotifyIntr s.vatpic).1.slave.acnt = _
    rw [notifyIntr_slave]
    rfl

/-- An operation on one controller that leaves its counts. -/
theorem setAtpic_acnt {c : Chip} {a : Atpic} (h : a.acnt = (s.atpic c).acnt) (d : Chip) :
    ((s.setAtpic c a).atpic d).acnt = (s.atpic d).acnt := by
  by_cases hd : d = c
  · rw [hd, atpic_setAtpic, h]
  · rw [atpic_setAtpic_of_ne s hd]

theorem chip_pin_inj {irq pin : Nat} (hirq : irq < 16) (hpin : pin < 16)
    (hc : chipOf irq = chipOf pin) (hm : irq % 8 = pin % 8) : irq = pin := by
  unfold chipOf at hc
  split at hc
  · split at hc
    · omega
    · cases hc
  · split at hc
    · cases hc
    · omega

theorem setPinstate_lineCount {irq pin : Nat} (hirq : irq < 16) (hpin : pin < 16)
    (newstate : Bool) :
    lineCount (vatpicSetPinstate s pin newstate) irq =
      lineCount s irq + if irq = pin then (if newstate then 1 else -1) else 0 := by
  unfold lineCount vatpicSetPinstate
  simp only
  rw [notify_acnt]
  by_cases hc : chipOf irq = chipOf pin
  · rw [hc, atpic_setAtpic, setPin_acnt]
    by_cases hm : irq % 8 = pin % 8
    · rw [if_pos (chip_pin_inj hirq hpin hc hm), hm, Function.update_self]
    · have hne : irq ≠ pin := fun heq => hm (by rw [heq])
      rw [if_neg hne, Function.update_of_ne hm, Int.add_zero]
  · have hne : irq ≠ pin := fun heq => hc (by rw [heq])
    rw [if_neg hne, atpic_setAtpic_of_ne s hc, Int.add_zero]

/-- What no command word does: the counts and the raised interrupt stay, only ICW1 clears the
requests, and ICW2 keeps the vectors in a block of eight. -/
structure Commanded (a b : Atpic) (icw1 : Prop) : Prop where
  acnt : b.acnt = a.acnt
  intrRaised : b.intrRaised = a.intrRaised
  request : ¬ icw1 → b.request = a.request
  irqBase : 8 ∣ a.irqBase → 8 ∣ b.irqBase

theorem dvd_toNat_and_f8 : ∀ val : BitVec 8, 8 ∣ (val &&& 0xf8).toNat := by decide

theorem icw1_commanded (a : Atpic) (val : BitVec 8) {icw1 : Prop} (h : icw1) :
    Commanded a (vatpicIcw1 a val).atpic icw1 := by
  unfold vatpicIcw1
  simp only
  split
  · exact ⟨rfl, rfl, absurd h, id⟩
  · split
    · exact ⟨rfl, rfl, absurd h, id⟩
    · exact ⟨rfl, rfl, absurd h, id⟩

theorem icw4_commanded (c : Chip) (a : Atpic) (p : Ports) (val : BitVec 8) (icw1 : Prop) :
    Commanded a (vatpicIcw4 c a p val).atpic icw1 := by
  unfold vatpicIcw4
  split
  · exact ⟨rfl, rfl, fun _ => rfl, id⟩
  · simp only
    split <;> split <;> exact ⟨rfl, rfl, fun _ => rfl, id⟩

theorem ocw2_commanded (a : Atpic) (p : Ports) (val : BitVec 8) (icw1 : Prop) :
    Commanded a (vatpicOcw2 a p val).atpic icw1 := by
  unfold vatpicOcw2
  simp only
  split
  · split
    · exact ⟨rfl, rfl, fun _ => rfl, id⟩
    · simp only
      split
      · exact ⟨rfl, rfl, fun _ => rfl, id⟩
      · exact ⟨rfl, rfl, fun _ => rfl, id⟩
  · split
    · exact ⟨rfl, rfl, fun _ => rfl, id⟩
    · exact ⟨rfl, rfl, fun _ => rfl, id⟩

theorem ocw3_commanded (a : Atpic) (p : Ports) (val : BitVec 8) (icw1 : Prop) :
    Commanded a (vatpicOcw3 a p val).atpic icw1 := by
  unfold vatpicOcw3
  simp only
  split
  · exact ⟨rfl, rfl, fun _ => rfl, id⟩
  · exact ⟨rfl, rfl, fun _ => rfl, id⟩

theorem commandWord_commanded (c : Chip) (a : Atpic) (p : Ports) (imr : Bool) (val : BitVec 8) :
    Commanded a (commandWord c a p imr val).atpic (imr = false ∧ val.getLsbD 4 = true) := by
  unfold commandWord
  split
  · split
    · exact ⟨rfl, rfl, fun _ => rfl, fun _ => dvd_toNat_and_f8 val⟩
    · exact ⟨rfl, rfl, fun _ => rfl, id⟩
    · exact icw4_commanded c a p val _
    · exact ⟨rfl, rfl, fun _ => rfl, id⟩
  · rename_i himr
    split
    · rename_i hbit
      exact icw1_commanded a val ⟨Bool.eq_false_of_not_eq_true himr, hbit⟩
    · split
      · split
        · exact ocw3_commanded a p val _
        · exact ocw2_commanded a p val _
      · exact ⟨rfl, rfl, fun _ => rfl, id⟩

theorem commandWord_acnt (c : Chip) (a : Atpic) (p : Ports) (imr : Bool) (val : BitVec 8) :
    (commandWord c a p imr val).atpic.acnt = a.acnt :=
  (commandWord_commanded c a p imr val).acnt

theorem pinAccepted_acnt (a : Atpic) (pin : Nat) : (vatpicPinAccepted a pin).acnt = a.acnt := by
  unfold vatpicPinAccepted
  simp only
  split <;> split <;> first | rfl | (split <;> rfl)

theorem setPorts_lineCount (c : Chip) (p : Ports) (irq : Nat) :
    lineCount (s.setPorts c p) irq = lineCount s irq := by
  unfold lineCount
  cases chipOf irq with
  | master => rfl
  | slave => rfl

theorem setAtpic_lineCount {c : Chip} {a : Atpic} (h : a.acnt = (s.atpic c).acnt) (irq : Nat) :
    lineCount (s.setAtpic c a) irq = lineCount s irq := by
  unfold lineCount
  rw [setAtpic_acnt s h]

theorem notify_lineCount (irq : Nat) : lineCount (notify s) irq = lineCount s irq := by
  unfold lineCount
  rw [notify_acnt]

theorem setElc_lineCount (c : Chip) (val : BitVec 8) (irq : Nat) :
    lineCount (setElc s c val) irq = lineCount s irq := by
  unfold lineCount
  cases chipOf irq with
  | master => rfl
  | slave => rfl

theorem write_lineCount (c : Chip) (imr : Bool) (val : BitVec 8) (irq : Nat) :
    lineCount (vatpicWrite s c imr val).1 irq = lineCount s irq := by
  have hword := setAtpic_lineCount s (commandWord_acnt c (s.atpic c) (s.ports c) imr val) irq
  unfold vatpicWrite
  simp only
  split
  · rw [notify_lineCount, setPorts_lineCount, hword]
  · rw [setPorts_lineCount, hword]

theorem read_lineCount (c : Chip) (imr : Bool) (irq : Nat) :
    lineCount (vatpicRead s c imr).1 irq = lineCount s irq := by
  unfold vatpicRead
  split
  · simp only
    split
    · rw [setAtpic_lineCount _ (pinAccepted_acnt _ _), setPorts_lineCount]
    · rw [setPorts_lineCount]
  · split
    · rfl
    · split
      · rfl
      · rfl

theorem intrAccepted_lineCount (vector irq : Nat) :
    lineCount { s with vatpic := (vatpicIntrAccepted s.vatpic vector).1 } irq =
      lineCount s irq := by
  unfold vatpicIntrAccepted
  simp only
  split
  · -- the slave's pin, and pin 2 of the master
    refine (notify_lineCount { s with vatpic := { s.vatpic with
      slave := vatpicPinAccepted s.vatpic.slave (vector % 8)
      master := vatpicPinAccepted s.vatpic.master 2 } } irq).trans ?_
    unfold lineCount
    cases chipOf irq with
    | master => exact congrFun (pinAccepted_acnt _ _) _
    | slave => exact congrFun (pinAccepted_acnt _ _) _
  · exact (notify_lineCount
      (s.setAtpic .master (vatpicPinAccepted s.vatpic.master (vector % 8))) irq).trans
      (setAtpic_lineCount s (pinAccepted_acnt _ _) irq)

theorem setIrqTrigger_lineCount (line : Int) (level : Bool) (irq : Nat) :
    lineCount ((vatpicSetIrqTrigger s line level).getD s) irq = lineCount s irq := by
  unfold vatpicSetIrqTrigger
  split
  · rfl
  · split
    · rfl
    · exact setElc_lineCount s _ _ irq

theorem elcWrite_lineCount (c : Chip) (eax : BitVec 8) (irq : Nat) :
    lineCount (vatpicElcWrite s c eax) irq = lineCount s irq := by
  cases c with
  | master => exact setElc_lineCount s _ _ irq
  | slave => exact setElc_lineCount s _ _ irq

/-- What a call for line `line` adds to the count of line `irq`. -/
def Irqstate.weight : Irqstate → Int
  | .assert => 1
  | .deassert => -1
  | .pulse => 0

theorem setIrqstate_lineCount {line : Int} (h : ¬ (line < 0 ∨ line > 15)) (irqstate : Irqstate)
    {irq : Nat} (hirq : irq < 16) :
    lineCount ((vatpicSetIrqstate s line irqstate).getD s) irq =
      lineCount s irq +
        if (s.ports (chipOf line.toNat)).ready = true ∧ irq = line.toNat then irqstate.weight
        else 0 := by
  have hline : line.toNat < 16 := by omega
  unfold vatpicSetIrqstate
  rw [if_neg h]
  cases hready : (s.ports (chipOf line.toNat)).ready with
  | false =>
    rw [if_pos rfl, if_neg fun hno => Bool.false_ne_true hno.1, Int.add_zero]
    rfl
  | true =>
    rw [if_neg (by decide)]
    cases irqstate with
    | assert =>
      refine (setPinstate_lineCount s hirq hline true).trans ?_
      simp [Irqstate.weight]
    | deassert =>
      refine (setPinstate_lineCount s hirq hline false).trans ?_
      simp [Irqstate.weight]
    | pulse =>
      refine (setPinstate_lineCount _ hirq hline false).trans ?_
      rw [setPinstate_lineCount s hirq hline true]
      simp only [Irqstate.weight, true_and, ite_self, Int.add_zero]
      split
      · exact Int.add_neg_cancel_right _ 1
      · rw [Int.add_zero, Int.add_zero]

end Counts

/-! ## The account of a line -/

/-- Every count is the number of devices that assert the line. -/
def Accounted (s : State) : Prop :=
  ∀ irq < 16, lineCount s.pics irq = (s.asserters irq).card

def requested (s : State) (irq : Nat) : Bool :=
  (s.pics.atpic (chipOf irq)).request.getLsbD (irq % 8)

/-- Asserting an idle line of a ready controller is a request. -/
def Answers (s : State) : Prop :=
  ∀ irq < 16, s.asserters irq = ∅ → (s.pics.ports (chipOf irq)).ready = true →
    ∀ dev, requested (step s (.assertIrq dev irq)) irq = true

/-- A device asserts what it does not assert, and deasserts what it does. -/
def Alternates (s : State) : Op → Prop
  | .assertIrq dev irq => 0 ≤ irq → irq ≤ 15 → dev ∉ s.asserters irq.toNat
  | .deassertIrq dev irq => 0 ≤ irq → irq ≤ 15 → dev ∈ s.asserters irq.toNat
  | _ => True

/-- The call finds its controller ready. -/
def Heeded (s : State) : Op → Prop
  | .assertIrq _ irq => 0 ≤ irq → irq ≤ 15 → (s.pics.ports (chipOf irq.toNat)).ready = true
  | .deassertIrq _ irq => 0 ≤ irq → irq ≤ 15 → (s.pics.ports (chipOf irq.toNat)).ready = true
  | _ => True

theorem notify_requested {s : Pics} {irq : Nat} (hirq : irq < 16)
    (hcnt : irq = 2 → 0 < lineCount s 2)
    (h : (s.atpic (chipOf irq)).request.getLsbD (irq % 8) = true) :
    ((notify s).atpic (chipOf irq)).request.getLsbD (irq % 8) = true := by
  cases hc : chipOf irq with
  | master =>
    rw [hc] at h
    apply notifyIntr_keeps s.vatpic h
    by_cases hpin : irq % 8 = 2
    · right
      exact hcnt (chip_pin_inj hirq (by decide) hc hpin)
    · exact Or.inl hpin
  | slave =>
    rw [hc] at h
    show (vatpicNotifyIntr s.vatpic).1.slave.request.getLsbD (irq % 8) = true
    rw [notifyIntr_slave]
    exact h

theorem Accounted.answers {s : State} (h : Accounted s) : Answers s := by
  intro irq hirq hidle hready dev
  have hzero : (s.pics.atpic (chipOf irq)).acnt (irq % 8) = 0 := by
    have := h irq hirq
    rw [hidle] at this
    exact this
  have hassert : (vatpicSetIrqstate s.pics irq .assert).getD s.pics =
      vatpicSetPinstate s.pics irq true := by
    unfold vatpicSetIrqstate
    rw [if_neg (by omega), Int.toNat_natCast, hready, if_neg (by decide)]
    rfl
  unfold requested step
  simp only
  rw [hassert]
  apply notify_requested hirq
  · intro htwo
    subst htwo
    show 0 < ((s.pics.setAtpic .master _).atpic .master).acnt 2
    rw [atpic_setAtpic, setPin_acnt, Function.update_self, if_pos rfl]
    have hcount : (s.pics.atpic .master).acnt 2 = 0 := hzero
    omega
  · rw [atpic_setAtpic]
    exact setPin_bit_rise (Nat.mod_lt _ (by decide)) hzero

/-- A call for a line, with the devices that assert it afterwards. -/
theorem accounted_call {s : State} (h : Accounted s) {line : Int} (irqstate : Irqstate)
    (devs : Finset Nat)
    (hdevs : 0 ≤ line → line ≤ 15 →
      (devs.card : Int) = (s.asserters line.toNat).card + irqstate.weight)
    (hmoves : irqstate.weight ≠ 0) :
    Accounted { s.setAsserters line devs with
        pics := (vatpicSetIrqstate s.pics line irqstate).getD s.pics } ↔
      (0 ≤ line → line ≤ 15 → (s.pics.ports (chipOf line.toNat)).ready = true) := by
  by_cases hline : line < 0 ∨ line > 15
  · have hsame : Accounted { s.setAsserters line devs with
        pics := (vatpicSetIrqstate s.pics line irqstate).getD s.pics } := by
      unfold State.setAsserters vatpicSetIrqstate
      rw [if_pos hline, if_pos hline]
      exact h
    exact ⟨fun _ hlo hhi => by omega, fun _ => hsame⟩
  · unfold State.setAsserters
    rw [if_neg hline]
    constructor
    · intro hacc _ _
      by_contra hno
      have hcount : lineCount _ _ = _ := hacc line.toNat (by omega)
      rw [setIrqstate_lineCount s.pics hline irqstate (by omega), if_neg fun hand => hno hand.1,
        h line.toNat (by omega)] at hcount
      simp only [Function.update_self] at hcount
      omega
    · intro hready irq hirq
      simp only
      rw [setIrqstate_lineCount s.pics hline irqstate hirq, h irq hirq]
      by_cases heq : irq = line.toNat
      · rw [if_pos ⟨hready (by omega) (by omega), heq⟩, heq, Function.update_self,
          hdevs (by omega) (by omega)]
      · rw [if_neg fun hand => heq hand.2, Function.update_of_ne heq, Int.add_zero]

/-- An operation that asserts and deasserts nothing. -/
theorem Accounted.congr {s t : State} (h : Accounted s) (hdevs : t.asserters = s.asserters)
    (hcount : ∀ irq < 16, lineCount t.pics irq = lineCount s.pics irq) : Accounted t := by
  intro irq hirq
  rw [hcount irq hirq, h irq hirq, hdevs]

theorem accounted_step_iff (s : State) (op : Op) (h : Accounted s) (ha : Alternates s op) :
    Accounted (step s op) ↔ Heeded s op := by
  cases op with
  | assertIrq dev irq =>
    refine accounted_call h .assert _ (fun hlo hhi => ?_) (by decide)
    rw [Finset.card_insert_of_notMem (ha hlo hhi)]
    rfl
  | deassertIrq dev irq =>
    refine accounted_call h .deassert _ (fun hlo hhi => ?_) (by decide)
    have hmem := ha hlo hhi
    have hpos := Finset.card_pos.mpr ⟨dev, hmem⟩
    rw [Finset.card_erase_of_mem hmem]
    simp only [Irqstate.weight]
    omega
  | pulseIrq irq =>
    refine iff_of_true (h.congr rfl fun i hi => ?_) trivial
    by_cases hirq : irq < 0 ∨ irq > 15
    · show lineCount ((vatpicSetIrqstate s.pics irq .pulse).getD s.pics) i = _
      unfold vatpicSetIrqstate
      rw [if_pos hirq]
      rfl
    · refine (setIrqstate_lineCount s.pics hirq .pulse hi).trans ?_
      simp only [Irqstate.weight, ite_self, Int.add_zero]
  | setIrqTrigger irq level =>
    exact iff_of_true (h.congr rfl fun i _ => setIrqTrigger_lineCount s.pics irq level i) trivial
  | write c imr val =>
    exact iff_of_true (h.congr rfl fun i _ => write_lineCount s.pics c imr val i) trivial
  | read c imr => exact iff_of_true (h.congr rfl fun i _ => read_lineCount s.pics c imr i) trivial
  | elcWrite c eax =>
    exact iff_of_true (h.congr rfl fun i _ => elcWrite_lineCount s.pics c eax i) trivial
  | pendingIntr vcpuid => exact iff_of_true (h.congr rfl fun _ _ => rfl) trivial
  | intrAccepted vcpuid =>
    refine iff_of_true ?_ trivial
    unfold step
    simp only
    split
    · exact h
    · exact h.congr rfl fun i _ => intrAccepted_lineCount s.pics _ i

theorem start_accounted : Accounted start := by
  intro irq _
  unfold lineCount
  cases chipOf irq with
  | master => rfl
  | slave => rfl

/-- In a run whose devices alternate, every count is that of the asserters and every idle line can
be asserted, after each step, exactly when no assertion and no deassertion finds its controller
between ICW1 and ICW4. -/
theorem lines_accounted_iff {run : List Op} (ha : System.Along step Alternates start run) :
    System.Along step (fun s op => Accounted (step s op) ∧ Answers (step s op)) start run ↔
      System.Along step Heeded start run := by
  have hstep : ∀ s op, Accounted s ∧ Answers s → Alternates s op →
      (Accounted (step s op) ∧ Answers (step s op) ↔ Heeded s op) := by
    intro s op hs hop
    rw [← accounted_step_iff s op hs.1 hop]
    exact ⟨fun h => h.1, fun h => ⟨h, h.answers⟩⟩
  have hstart : Accounted start ∧ Answers start := ⟨start_accounted, start_accounted.answers⟩
  exact System.along_iff hstep hstart ha

/-- The four initialisation words of a controller. -/
def initialise (c : Chip) (base : BitVec 8) : List Op :=
  [.write c false 0x11, .write c true base, .write c true 4, .write c true 1]

/-- Two devices share line 3, around a write to the mask. -/
def sharedLine : List Op :=
  initialise .master 0x20 ++
    [.assertIrq 1 3, .assertIrq 2 3, .write .master true 0xf7, .deassertIrq 1 3, .deassertIrq 2 3]

theorem lines_accounted_shared :
    System.Along step (fun s op => Accounted (step s op) ∧ Answers (step s op)) start
      sharedLine := by
  have hrun : System.Along step Alternates start sharedLine :=
    ⟨trivial, trivial, trivial, trivial, fun _ _ => by decide, fun _ _ => by decide, trivial,
      fun _ _ => by decide, fun _ _ => by decide, trivial⟩
  exact (lines_accounted_iff hrun).mpr ⟨trivial, trivial, trivial, trivial, fun _ _ => by decide,
    fun _ _ => by decide, trivial, fun _ _ => by decide, fun _ _ => by decide, trivial⟩

/-- Line 3 is asserted before the guest initialises the controller, and deasserted after. -/
def assertedBefore : List Op :=
  .assertIrq 1 3 :: initialise .master 0x20 ++ [.deassertIrq 1 3]

/-- The assertion is dropped and the deassertion counted: the count is -1, and the next assertion of
the idle line makes no request. -/
theorem assertion_dropped :
    System.Along step Alternates start assertedBefore ∧
    lineCount (assertedBefore.foldl step start).pics 3 = -1 ∧
    ¬ Accounted (assertedBefore.foldl step start) ∧
    ¬ Answers (assertedBefore.foldl step start) := by
  have halt : System.Along step Alternates start assertedBefore := by
    unfold assertedBefore initialise
    exact ⟨fun _ _ => by decide, trivial, trivial, trivial, trivial, fun _ _ => by decide, trivial⟩
  have hcount : lineCount (assertedBefore.foldl step start).pics 3 = -1 := by decide
  refine ⟨halt, hcount, fun hacc => ?_, fun hans => ?_⟩
  · have hcard := hacc 3 (by decide)
    rw [hcount] at hcard
    omega
  · have hno : requested (step (assertedBefore.foldl step start) (.assertIrq 1 3)) 3 = false := by
      decide
    have hyes := hans 3 (by decide) (by decide) (by decide) 1
    exact Bool.false_ne_true (hno.symm.trans hyes)

end Xhyve.Vmm.Pic8259
