import Xhyve.Vmm.Ioapic

/-!
# Level interrupts are not lost

A pin is served when it is masked, or edge-triggered, or not asserted, or its remote IRR is set.
Every operation leaves the pins it works on served, but for a write to the redirection table that
has dropped the lock: it serves its pin when it has the lock again.
-/

namespace Xhyve.Vmm.Ioapic

open Xhyve.Lib

/-! ## Bits of an entry -/

theorem low_bit {k : Nat} (hk : k < 32) (reg : Reg) : (low reg).getLsbD k = reg.getLsbD k := by
  unfold low
  rw [BitVec.getLsbD_setWidth, decide_eq_true hk, Bool.true_and]

theorem masked_iff (reg : Reg) :
    low reg &&& ioartIntmask 32 = ioartIntmask 32 ↔ reg.getLsbD 16 = true := by
  rw [← low_bit (by decide) reg]
  exact and_flag_eq_flag (k := 16) (by decide) (low reg)

theorem isLevel_eq (reg : Reg) : isLevel reg = reg.getLsbD 15 := by
  rw [Bool.eq_iff_iff, ← low_bit (by decide) reg]
  unfold isLevel
  rw [decide_eq_true_iff]
  exact and_flag_ne_zero (k := 15) (by decide) (low reg)

theorem unmasked_iff (reg : Reg) : reg &&& ioartIntmask 64 = 0 ↔ reg.getLsbD 16 = false :=
  and_flag_eq_zero (k := 16) (by decide) reg

theorem level_iff (reg : Reg) : reg &&& ioartTrgrlvl 64 ≠ 0 ↔ reg.getLsbD 15 = true :=
  and_flag_ne_zero (k := 15) (by decide) reg

theorem remIrr_iff (reg : Reg) : reg &&& ioartRemIrr 64 = 0 ↔ reg.getLsbD 14 = false :=
  and_flag_eq_zero (k := 14) (by decide) reg

theorem remIrr_bit (k : Nat) : (ioartRemIrr 64).getLsbD k = decide (k = 14) := by
  have h : ioartRemIrr 64 = BitVec.twoPow 64 14 := by decide
  rw [h, BitVec.getLsbD_twoPow, decide_eq_true (by decide : 14 < 64), Bool.true_and,
    decide_eq_decide]
  exact eq_comm

/-- A write of either half leaves the remote IRR alone. -/
theorem writeHalf_remIrr (last : Reg) (lshift : Nat) (data : BitVec 32) :
    (writeHalf last lshift data).getLsbD 14 = last.getLsbD 14 := by
  have hro : rtblRoBits.getLsbD 14 = true := by decide
  simp only [writeHalf, BitVec.getLsbD_or, BitVec.getLsbD_and, BitVec.getLsbD_not, hro,
    Bool.or_true, Bool.and_true, Bool.not_true, Bool.and_false, Bool.or_false]

/-! ## What an operation on a pin does -/

def Served (e : Entry) : Prop :=
  e.reg.getLsbD 16 = false → e.reg.getLsbD 15 = true → 0 < e.acnt → e.reg.getLsbD 14 = true

/-- Whether a level interrupt of the pin was delivered after its last acknowledgement. -/
def outstanding (pin : Nat) : List Event → Bool
  | [] => false
  | .deliver p intr :: rest => if p = pin ∧ intr.level then true else outstanding pin rest
  | .ack p :: rest => if p = pin then false else outstanding pin rest

/-- The remote IRR says whether an interrupt is outstanding. -/
def Sent (s : Vioapic) : Prop :=
  ∀ pin, (s.rtbl pin).reg.getLsbD 14 = outstanding pin s.trace

/-- Only this pin's entry changes, its count by `d`, and what was sent is recorded. -/
structure Moves (s s' : Vioapic) (pin : Nat) (d : Int) : Prop where
  other : ∀ q, q ≠ pin → s'.rtbl q = s.rtbl q
  acnt : (s'.rtbl pin).acnt = (s.rtbl pin).acnt + d
  sent : Sent s → Sent s'

section Moves
variable {s s' s'' : Vioapic} {pin : Nat} {d d' : Int}

theorem Moves.refl (s : Vioapic) (pin : Nat) : Moves s s pin 0 where
  other _ _ := rfl
  acnt := by omega
  sent h := h

theorem Moves.trans (h : Moves s s' pin d) (h' : Moves s' s'' pin d') :
    Moves s s'' pin (d + d') where
  other q hq := (h'.other q hq).trans (h.other q hq)
  acnt := by
    rw [h'.acnt, h.acnt]
    omega
  sent hs := h'.sent (h.sent hs)

@[simp] theorem setEntry_same (s : Vioapic) (pin : Nat) (e : Entry) :
    (s.setEntry pin e).rtbl pin = e := Function.update_self ..

theorem setEntry_other (s : Vioapic) {pin q : Nat} (e : Entry) (hq : q ≠ pin) :
    (s.setEntry pin e).rtbl q = s.rtbl q := Function.update_of_ne hq ..

/-- An entry may be replaced where its remote IRR stays. -/
theorem setEntry_moves {e : Entry} (hacnt : e.acnt = (s.rtbl pin).acnt + d)
    (hirr : e.reg.getLsbD 14 = (s.rtbl pin).reg.getLsbD 14) : Moves s (s.setEntry pin e) pin d where
  other q hq := setEntry_other s e hq
  acnt := by rw [setEntry_same, hacnt]
  sent h q := by
    by_cases hq : q = pin
    · subst hq
      rw [setEntry_same, hirr]
      exact h q
    · rw [setEntry_other s e hq]
      exact h q

/-- The two forms of the entry after a send. -/
theorem sendIntr_rtbl (s : Vioapic) (pin : Nat) :
    ((vioapicSendIntr s pin).rtbl = s.rtbl ∧
        ((s.rtbl pin).reg.getLsbD 16 = true ∨ (s.rtbl pin).reg.getLsbD 15 = false)) ∨
      ((s.rtbl pin).reg.getLsbD 16 = false ∧ (s.rtbl pin).reg.getLsbD 15 = true ∧
        (vioapicSendIntr s pin).rtbl =
          (s.setReg pin ((s.rtbl pin).reg ||| ioartRemIrr 64)).rtbl) := by
  by_cases hm : (s.rtbl pin).reg.getLsbD 16 = true
  · refine Or.inl ⟨?_, Or.inl hm⟩
    simp only [vioapicSendIntr, if_pos ((masked_iff _).mpr hm)]
  · have hmask := mt (masked_iff (s.rtbl pin).reg).mp hm
    rw [Bool.not_eq_true] at hm
    cases hl : (s.rtbl pin).reg.getLsbD 15 with
    | false =>
      refine Or.inl ⟨?_, Or.inr rfl⟩
      simp only [vioapicSendIntr, if_neg hmask, isLevel_eq, hl, Bool.false_eq_true, if_false]
      rfl
    | true =>
      refine Or.inr ⟨hm, rfl, ?_⟩
      simp only [vioapicSendIntr, if_neg hmask, isLevel_eq, hl, if_true]
      rfl

theorem or_remIrr_bit (k : Nat) (reg : Reg) :
    (reg ||| ioartRemIrr 64).getLsbD k = (reg.getLsbD k || decide (k = 14)) := by
  rw [BitVec.getLsbD_or, remIrr_bit]

theorem sendIntr_sent (s : Vioapic) (pin : Nat) (h : Sent s) : Sent (vioapicSendIntr s pin) := by
  intro q
  unfold vioapicSendIntr
  by_cases hm : low (s.rtbl pin).reg &&& ioartIntmask 32 = ioartIntmask 32
  · simp only [if_pos hm]
    exact h q
  · simp only [if_neg hm]
    cases hl : isLevel (s.rtbl pin).reg with
    | false =>
      simp only [Bool.false_eq_true, if_false]
      show (s.rtbl q).reg.getLsbD 14 = outstanding q (.deliver pin _ :: s.trace)
      rw [h q, outstanding, if_neg]
      intro hlev
      exact Bool.false_ne_true (hl.symm.trans hlev.2)
    | true =>
      simp only [if_true]
      show ((s.setReg pin _).rtbl q).reg.getLsbD 14 = outstanding q (.deliver pin _ :: s.trace)
      by_cases hq : q = pin
      · subst hq
        rw [outstanding, if_pos ⟨rfl, hl⟩]
        simp only [Vioapic.setReg, setEntry_same]
        rw [or_remIrr_bit]
        simp
      · rw [outstanding, if_neg fun hp => hq hp.1.symm, Vioapic.setReg, setEntry_other s _ hq]
        exact h q

theorem sendIntr_moves (s : Vioapic) (pin : Nat) : Moves s (vioapicSendIntr s pin) pin 0 where
  other q hq := by
    rcases sendIntr_rtbl s pin with ⟨h, _⟩ | ⟨_, _, h⟩
    · rw [h]
    · rw [h, Vioapic.setReg, setEntry_other s _ hq]
  acnt := by
    rcases sendIntr_rtbl s pin with ⟨h, _⟩ | ⟨_, _, h⟩
    · rw [h]
      omega
    · rw [h, Vioapic.setReg, setEntry_same]
      show (s.rtbl pin).acnt = _
      omega
  sent := sendIntr_sent s pin

/-- A pin that was sent is served. -/
theorem sendIntr_served (s : Vioapic) (pin : Nat) : Served ((vioapicSendIntr s pin).rtbl pin) := by
  intro hm hl _
  rcases sendIntr_rtbl s pin with ⟨h, hmasked | hedge⟩ | ⟨_, _, h⟩
  · rw [h, hmasked] at hm
    cases hm
  · rw [h, hedge] at hl
    cases hl
  · rw [h, Vioapic.setReg, setEntry_same]
    show ((s.rtbl pin).reg ||| ioartRemIrr 64).getLsbD 14 = true
    rw [or_remIrr_bit]
    simp

theorem setPinstate_moves (s : Vioapic) (pin : Nat) (newstate : Bool) :
    Moves s (vioapicSetPinstate s pin newstate) pin (if newstate then 1 else -1) := by
  unfold vioapicSetPinstate
  simp only
  generalize hcnt : (if newstate then (s.rtbl pin).acnt + 1 else (s.rtbl pin).acnt - 1) = newcnt
  have hnew : newcnt = (s.rtbl pin).acnt + if newstate then 1 else -1 := by
    rw [← hcnt]
    cases newstate with
    | false => rfl
    | true => rfl
  have hset : Moves s (s.setEntry pin { s.rtbl pin with acnt := newcnt }) pin
      (if newstate then 1 else -1) := setEntry_moves hnew rfl
  split
  · have hsend := hset.trans (sendIntr_moves _ pin)
    rwa [Int.add_zero] at hsend
  · exact hset

theorem assert_served (hn : 0 ≤ (s.rtbl pin).acnt) (h : Served (s.rtbl pin)) :
    Served ((vioapicSetPinstate s pin true).rtbl pin) := by
  unfold vioapicSetPinstate
  simp only [if_true]
  split
  · exact sendIntr_served _ pin
  · rename_i hnot
    rw [setEntry_same]
    intro hm hl _
    apply h hm hl
    omega

theorem deassert_served (h : Served (s.rtbl pin)) :
    Served ((vioapicSetPinstate s pin false).rtbl pin) := by
  unfold vioapicSetPinstate
  simp only [Bool.false_eq_true, if_false]
  rw [if_neg (by omega), setEntry_same]
  intro hm hl hpos
  apply h hm hl
  simp only at hpos
  omega

theorem writeSend_moves (s : Vioapic) (pin : Nat) : Moves s (vioapicWriteSend s pin) pin 0 := by
  unfold vioapicWriteSend
  split
  · exact sendIntr_moves s pin
  · exact Moves.refl s pin

theorem writeSend_served (s : Vioapic) (pin : Nat) : Served ((vioapicWriteSend s pin).rtbl pin) := by
  unfold vioapicWriteSend
  split
  · exact sendIntr_served s pin
  · rename_i hnot
    intro hm _ hpos
    by_contra hirr
    exact hnot ⟨(unmasked_iff _).mpr hm, (remIrr_iff _).mpr (Bool.eq_false_of_not_eq_true hirr), hpos⟩

/-- Clearing the remote IRR is an acknowledgement. -/
theorem ack_moves (s : Vioapic) (pin : Nat) :
    Moves s ((s.setReg pin ((s.rtbl pin).reg &&& ~~~ioartRemIrr 64)).emit (.ack pin)) pin 0 where
  other q hq := setEntry_other s _ hq
  acnt := by
    show ((s.setEntry pin _).rtbl pin).acnt = _
    rw [setEntry_same]
    show (s.rtbl pin).acnt = _
    omega
  sent h q := by
    show ((s.setEntry pin _).rtbl q).reg.getLsbD 14 = outstanding q (.ack pin :: s.trace)
    by_cases hq : q = pin
    · subst hq
      rw [setEntry_same, outstanding, if_pos rfl]
      show ((s.rtbl q).reg &&& ~~~ioartRemIrr 64).getLsbD 14 = false
      rw [BitVec.getLsbD_and, BitVec.getLsbD_not, remIrr_bit]
      simp
    · rw [setEntry_other s _ hq, outstanding, if_neg (Ne.symm hq)]
      exact h q

theorem eoiPin_moves (vector : BitVec 8) (s : Vioapic) (pin : Nat) :
    Moves s (eoiPin vector s pin) pin 0 := by
  unfold eoiPin
  simp only
  split
  · exact Moves.refl s pin
  · split
    · exact Moves.refl s pin
    · split
      · exact (ack_moves s pin).trans (sendIntr_moves _ pin)
      · exact ack_moves s pin

theorem eoiPin_served (vector : BitVec 8) (s : Vioapic) (pin : Nat) (h : Served (s.rtbl pin)) :
    Served ((eoiPin vector s pin).rtbl pin) := by
  unfold eoiPin
  simp only
  split
  · exact h
  · split
    · exact h
    · split
      · exact sendIntr_served _ pin
      · rename_i hnot
        intro _ _ hpos
        exact absurd hpos hnot

/-- A write leaves its pin served, or is in the window with it. -/
theorem vioapicWrite_spec (s : Vioapic) (addr data : BitVec 32) :
    ∃ pin, Moves s (vioapicWrite s addr data).1 pin 0 ∧
      (((vioapicWrite s addr data).2 = none ∧
          (Served (s.rtbl pin) → Served ((vioapicWrite s addr data).1.rtbl pin))) ∨
        (vioapicWrite s addr data).2 = some pin) := by
  unfold vioapicWrite
  simp only
  generalize (addr &&& 0xff).toNat = regnum
  have hid : ∀ pin, Moves s (if regnum = ioapicId then { s with id := data &&& apicIdMask } else s)
      pin 0 ∧ (if regnum = ioapicId then { s with id := data &&& apicIdMask } else s).rtbl =
        s.rtbl := by
    intro pin
    split
    · refine ⟨⟨fun _ _ => rfl, ?_, fun h => h⟩, rfl⟩
      show (s.rtbl pin).acnt = _
      omega
    · exact ⟨Moves.refl s pin, rfl⟩
  generalize (if regnum = ioapicId then { s with id := data &&& apicIdMask } else s) = s₁ at hid ⊢
  split
  · refine ⟨(regnum - ioapicRedtbl) / 2, ?_⟩
    generalize (regnum - ioapicRedtbl) / 2 = pin
    generalize (if (regnum - ioapicRedtbl) % 2 ≠ 0 then 32 else 0) = lshift
    have hset : Moves s₁ (s₁.setReg pin (writeHalf (s₁.rtbl pin).reg lshift data)) pin 0 :=
      setEntry_moves (by simp) (writeHalf_remIrr _ _ _)
    have hmoves := (hid pin).1.trans hset
    split
    · exact ⟨hmoves, Or.inr rfl⟩
    · exact ⟨hmoves.trans (writeSend_moves _ pin), Or.inl ⟨rfl, fun _ => writeSend_served _ pin⟩⟩
  · refine ⟨0, (hid 0).1, Or.inl ⟨rfl, ?_⟩⟩
    rw [(hid 0).2]
    exact id

theorem vioapicMmioWrite_spec (s : Vioapic) (gpa wval : BitVec 64) (size : Nat) :
    ∃ pin, Moves s (vioapicMmioWrite s gpa wval size).1 pin 0 ∧
      (((vioapicMmioWrite s gpa wval size).2 = none ∧
          (Served (s.rtbl pin) → Served ((vioapicMmioWrite s gpa wval size).1.rtbl pin))) ∨
        (vioapicMmioWrite s gpa wval size).2 = some pin) := by
  unfold vioapicMmioWrite
  simp only
  split
  · exact ⟨0, Moves.refl s 0, Or.inl ⟨rfl, id⟩⟩
  · split
    · refine ⟨0, ⟨fun _ _ => rfl, ?_, fun h => h⟩, Or.inl ⟨rfl, id⟩⟩
      show (s.rtbl 0).acnt = _
      omega
    · exact vioapicWrite_spec s _ _

end Moves

/-! ## Whole runs -/

structure Inv (s : State) : Prop where
  count : ∀ pin, (s.vioapic.rtbl pin).acnt = (s.asserters pin).card
  served : ∀ pin, Served (s.vioapic.rtbl pin) ∨ ∃ vcpuid, s.window vcpuid = some pin
  sent : Sent s.vioapic

section Runs
variable {s : State}

theorem start_inv : Inv start where
  count _ := rfl
  served _ := Or.inl fun _ _ hpos => absurd hpos (Int.lt_irrefl 0)
  sent _ := by
    show (0x0001000000010000#64).getLsbD 14 = false
    decide

/-- An operation on one pin that keeps it served. -/
theorem Inv.moves (h : Inv s) {v : Vioapic} {pin : Nat} {d : Int} {m : Multiset Nat}
    (hv : Moves s.vioapic v pin d) (hm : (m.card : Int) = (s.asserters pin).card + d)
    (hserved : Served (s.vioapic.rtbl pin) → Served (v.rtbl pin)) :
    Inv (setAsserters s v pin m) where
  count q := by
    show (v.rtbl q).acnt = ((Function.update s.asserters pin m) q).card
    by_cases hq : q = pin
    · subst hq
      rw [Function.update_self, hv.acnt, h.count, hm]
    · rw [Function.update_of_ne hq, hv.other q hq, h.count]
  served q := by
    show Served (v.rtbl q) ∨ ∃ vcpuid, s.window vcpuid = some q
    by_cases hq : q = pin
    · subst hq
      exact (h.served q).imp_left hserved
    · rw [hv.other q hq]
      exact h.served q
  sent := hv.sent h.sent

/-- The same where the count stays, whatever becomes of the windows of other pins. -/
theorem Inv.keeps (h : Inv s) {v : Vioapic} {pin : Nat} {w : Nat → Option Nat}
    (hv : Moves s.vioapic v pin 0)
    (hpin : Served (v.rtbl pin) ∨ ∃ vcpuid, w vcpuid = some pin)
    (hw : ∀ q, q ≠ pin → (∃ vcpuid, s.window vcpuid = some q) → ∃ vcpuid, w vcpuid = some q) :
    Inv { s with vioapic := v, window := w } where
  count q := by
    by_cases hq : q = pin
    · subst hq
      rw [hv.acnt, h.count, Int.add_zero]
    · rw [hv.other q hq, h.count]
  served q := by
    by_cases hq : q = pin
    · subst hq
      exact hpin
    · show Served (v.rtbl q) ∨ _
      rw [hv.other q hq]
      exact (h.served q).imp_right (hw q hq)
  sent := hv.sent h.sent

theorem Inv.acnt_nonneg (h : Inv s) (pin : Nat) : 0 ≤ (s.vioapic.rtbl pin).acnt := by
  rw [h.count]
  omega

theorem setIrqstate_some {v v' : Vioapic} {irq : Int} {irqstate : Irqstate}
    (h : vioapicSetIrqstate v irq irqstate = some v') :
    v' = setPinIrqstate v irq.toNat irqstate := by
  unfold vioapicSetIrqstate at h
  split at h
  · cases h
  · exact (Option.some.inj h).symm

theorem Inv.eoi (h : Inv s) (vector : BitVec 8) (pins : List Nat) :
    Inv { s with vioapic := pins.foldl (eoiPin vector) s.vioapic } := by
  induction pins generalizing s with
  | nil => exact h
  | cons pin rest ih =>
    have hstep := h.keeps (w := s.window) (eoiPin_moves vector s.vioapic pin)
      ((h.served pin).imp_left (eoiPin_served vector s.vioapic pin)) fun _ _ hw => hw
    exact ih hstep

theorem Inv.mmioWrite (h : Inv s) {vcpuid : Nat} (hfree : s.window vcpuid = none)
    (gpa wval : BitVec 64) (size : Nat) :
    Inv { s with
      vioapic := (vioapicMmioWrite s.vioapic gpa wval size).1
      window := Function.update s.window vcpuid (vioapicMmioWrite s.vioapic gpa wval size).2 } := by
  obtain ⟨pin, hmoves, hcase⟩ := vioapicMmioWrite_spec s.vioapic gpa wval size
  -- The vCPU was in no window, so the windows there were stay.
  have hkept : ∀ r q, (∃ i, s.window i = some q) → ∃ i, Function.update s.window vcpuid r i = some q := by
    intro r q ⟨i, hi⟩
    refine ⟨i, ?_⟩
    rw [Function.update_of_ne]
    · exact hi
    · intro heq
      rw [heq, hfree] at hi
      cases hi
  apply h.keeps hmoves ?_ fun q _ => hkept _ q
  rcases hcase with ⟨_, hserved⟩ | hopen
  · exact (h.served pin).imp hserved (hkept _ pin)
  · refine Or.inr ⟨vcpuid, ?_⟩
    rw [Function.update_self]
    exact hopen

theorem Inv.finishWrite (h : Inv s) {vcpuid pin : Nat} (hopen : s.window vcpuid = some pin) :
    Inv { s with
      vioapic := vioapicWriteSend s.vioapic pin
      window := Function.update s.window vcpuid none } := by
  apply h.keeps (writeSend_moves s.vioapic pin) (Or.inl (writeSend_served s.vioapic pin))
  intro q hq ⟨i, hi⟩
  refine ⟨i, ?_⟩
  rw [Function.update_of_ne]
  · exact hi
  · intro heq
    rw [heq, hopen] at hi
    exact hq (Option.some.inj hi).symm

theorem next_inv {s' : State} {op : Op} (h : Inv s) (hs : next s op = some s') : Inv s' := by
  cases op with
  | assertIrq dev irq =>
    simp only [next] at hs
    split at hs
    · cases hs
      exact h
    · rename_i v hv
      cases hs
      obtain rfl := setIrqstate_some hv
      apply h.moves (setPinstate_moves s.vioapic irq.toNat true) (by simp)
      exact assert_served (h.acnt_nonneg _)
  | deassertIrq dev irq =>
    simp only [next] at hs
    split at hs
    · cases hs
      exact h
    · rename_i v hv
      obtain rfl := setIrqstate_some hv
      split at hs
      · rename_i hmem
        cases hs
        apply h.moves (setPinstate_moves s.vioapic irq.toNat false) ?_ deassert_served
        have hcard := Multiset.card_erase_add_one hmem
        simp only [Bool.false_eq_true, if_false]
        omega
      · cases hs
  | pulseIrq irq =>
    simp only [next] at hs
    split at hs
    · cases hs
      exact h
    · rename_i v hv
      cases hs
      obtain rfl := setIrqstate_some hv
      have hmoves := (setPinstate_moves s.vioapic irq.toNat true).trans
        (setPinstate_moves _ irq.toNat false)
      apply h.keeps (w := s.window) hmoves ?_ fun _ _ hw => hw
      refine (h.served irq.toNat).imp_left fun hserved => ?_
      exact deassert_served (assert_served (h.acnt_nonneg _) hserved)
  | mmioWrite vcpuid gpa wval size =>
    simp only [next] at hs
    split at hs
    · cases hs
    · rename_i hfree
      cases hs
      exact h.mmioWrite hfree gpa wval size
  | finishWrite vcpuid =>
    simp only [next] at hs
    split at hs
    · cases hs
    · rename_i pin hopen
      cases hs
      exact h.finishWrite hopen
  | processEoi vector =>
    cases hs
    exact h.eoi vector _

theorem inv_inductive : system.Inductive Inv where
  init := by
    intro s hs
    rw [show s = start from hs]
    exact start_inv
  step _ _ _ h hs := next_inv h hs

/-- The count of a pin is that of its asserters, and while no write has dropped the lock every
unmasked, level-triggered and asserted pin has its remote IRR set: an interrupt was delivered for
it and is not acknowledged. -/
theorem level_not_lost (s : State) (h : system.Reachable s) (pin : Nat) :
    (s.vioapic.rtbl pin).acnt = (s.asserters pin).card ∧
      ((∀ vcpuid, s.window vcpuid = none) →
        (s.vioapic.rtbl pin).reg &&& ioartIntmask 64 = 0 →
        (s.vioapic.rtbl pin).reg &&& ioartTrgrlvl 64 ≠ 0 → (s.vioapic.rtbl pin).acnt > 0 →
        (s.vioapic.rtbl pin).reg &&& ioartRemIrr 64 ≠ 0 ∧
          outstanding pin s.vioapic.trace = true) := by
  have hinv := inv_inductive.reachable h
  refine ⟨hinv.count pin, fun hfree hmask hlevel hpos => ?_⟩
  have hirr : (s.vioapic.rtbl pin).reg.getLsbD 14 = true := by
    rcases hinv.served pin with hserved | ⟨i, hi⟩
    · exact hserved ((unmasked_iff _).mp hmask) ((level_iff _).mp hlevel) hpos
    · rw [hfree i] at hi
      cases hi
  constructor
  · intro hz
    rw [(remIrr_iff _).mp hz] at hirr
    cases hirr
  · rw [← hinv.sent pin]
    exact hirr

/-- Pin 5 is asserted, made level-triggered and unmasked, and asserted once more while that write
is in the window. -/
def windowRun : List Op :=
  [.assertIrq 1 5, .mmioWrite 0 0xfec00000 0x1a 4, .mmioWrite 0 0xfec00010 0x8031 4,
    .assertIrq 2 5, .finishWrite 0]

theorem level_not_lost_window :
    ∃ s, System.exec next start windowRun = some s ∧
      (s.vioapic.rtbl 5).acnt = 2 ∧ (s.vioapic.rtbl 5).reg &&& ioartRemIrr 64 ≠ 0 ∧
      outstanding 5 s.vioapic.trace = true := by
  refine ⟨_, rfl, ?_⟩
  have h := level_not_lost _
    (System.exec_reachable (System.Reachable.init rfl)
      (rfl : System.exec next start windowRun = some _)) 5
  refine ⟨h.1.trans (by decide), h.2 ?_ (by decide) (by decide) (by decide)⟩
  intro vcpuid
  cases vcpuid with
  | zero => rfl
  | succ _ => rfl

end Runs

end Xhyve.Vmm.Ioapic
