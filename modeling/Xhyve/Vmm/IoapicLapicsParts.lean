import Xhyve.Vmm.IoapicLapics
import Xhyve.Vmm.IoapicRemoteIrr

/-!
# What one operation does to the I/O APIC and to a local APIC

An operation of the I/O APIC changes the entries only in their remote IRR, once what the guest
writes is in them, and a remote IRR that it sets stands for an interrupt it has sent. A local APIC
keeps what it holds but for the EOI of the vector in service.
-/

namespace Xhyve.Vmm.IoapicLapics

open Xhyve.Lib
open Xhyve.Vmm.Ioapic
open Xhyve.Vmm.Lapic (Vlapic Vcpu OnlyRequests)
open Xhyve.Vmm.LapicDest

/-! ## Entries up to their remote IRR -/

def SameOff (a b : Reg) : Prop := ∀ k, k ≠ 14 → a.getLsbD k = b.getLsbD k

section Entries
variable {a b c : Reg}

theorem SameOff.trans (h : SameOff a b) (h' : SameOff b c) : SameOff a c :=
  fun k hk => (h k hk).trans (h' k hk)

/-- Two entries that agree but for polarity, remote IRR and mask. -/
def SameIntr (a b : Reg) : Prop :=
  ∀ k, k ≠ 13 → k ≠ 14 → k ≠ 16 → a.getLsbD k = b.getLsbD k

theorem SameOff.sameIntr (h : SameOff a b) : SameIntr a b := fun k _ h14 _ => h k h14

theorem SameIntr.low_and (h : SameIntr a b) (mask : BitVec 32)
    (hm : mask &&& 0x16000#32 = 0#32) : low a &&& mask = low b &&& mask := by
  apply BitVec.eq_of_getLsbD_eq
  intro k hk
  rw [BitVec.getLsbD_and, BitVec.getLsbD_and, low_bit hk, low_bit hk]
  have hbit := congrArg (BitVec.getLsbD · k) hm
  simp only [BitVec.getLsbD_and, BitVec.getLsbD_zero] at hbit
  by_cases hk' : k = 13 ∨ k = 14 ∨ k = 16
  · have hset : (0x16000#32).getLsbD k = true := by
      rcases hk' with rfl | rfl | rfl
      · decide
      · decide
      · decide
    rw [hset, Bool.and_true] at hbit
    rw [hbit, Bool.and_false, Bool.and_false]
  · rw [h k (by omega) (by omega) (by omega)]

theorem SameIntr.high_eq (h : SameIntr a b) : high a = high b := by
  apply BitVec.eq_of_getLsbD_eq
  intro k hk
  unfold high
  rw [BitVec.getLsbD_setWidth, BitVec.getLsbD_setWidth, BitVec.getLsbD_ushiftRight,
    BitVec.getLsbD_ushiftRight, h (32 + k) (by omega) (by omega) (by omega)]

/-- The interrupt an entry describes does not depend on the three. -/
theorem SameIntr.intrOf_eq (h : SameIntr a b) : intrOf a = intrOf b := by
  unfold intrOf isLevel
  rw [h.high_eq, h.low_and (ioartTrgrlvl 32) (by decide), h.low_and (ioartDestmod 32) (by decide),
    h.low_and (ioartDelmod 32) (by decide), h.low_and (ioartIntvec 32) (by decide)]

theorem SameOff.intrOf_eq (h : SameOff a b) : intrOf a = intrOf b := h.sameIntr.intrOf_eq

theorem SameOff.isLevel_eq (h : SameOff a b) : isLevel a = isLevel b :=
  congrArg Intr.level h.intrOf_eq

/-- A write that needs no rendezvous. -/
theorem sameIntr_of_unchanged (h : (a ^^^ b) &&& ~~~(ioartIntmask 64 ||| ioartIntpol 64) = 0) :
    SameIntr a b := by
  intro k h13 _ h16
  have hbit : ((a ^^^ b) &&& ~~~(ioartIntmask 64 ||| ioartIntpol 64)).getLsbD k =
      (0#64).getLsbD k := congrArg (BitVec.getLsbD · k) h
  have hmask : ioartIntmask 64 = BitVec.twoPow 64 16 := by decide
  have hpol : ioartIntpol 64 = BitVec.twoPow 64 13 := by decide
  simp only [BitVec.getLsbD_and, BitVec.getLsbD_xor, BitVec.getLsbD_not, BitVec.getLsbD_or,
    BitVec.getLsbD_zero, hmask, hpol, BitVec.getLsbD_twoPow, decide_eq_false (Ne.symm h13),
    decide_eq_false (Ne.symm h16), Bool.and_false, Bool.or_false, Bool.not_false,
    Bool.and_true] at hbit
  by_cases hk : k < 64
  · rw [decide_eq_true hk, Bool.and_true] at hbit
    simpa using hbit
  · rw [BitVec.getLsbD_of_ge a k (by omega), BitVec.getLsbD_of_ge b k (by omega)]

theorem sameOff_or_remIrr (reg : Reg) : SameOff (reg ||| ioartRemIrr 64) reg := by
  intro k hk
  rw [or_remIrr_bit, decide_eq_false hk, Bool.or_false]

theorem sameOff_clear_remIrr (reg : Reg) : SameOff (reg &&& ~~~ioartRemIrr 64) reg := by
  intro k hk
  rw [BitVec.getLsbD_and, BitVec.getLsbD_not, remIrr_bit, decide_eq_false hk]
  cases hb : reg.getLsbD k with
  | false => rfl
  | true => simpa using BitVec.lt_of_getLsbD hb

theorem vector_toNat (reg : Reg) : (intrOf reg).vector.toNat = reg.toNat % 256 := by
  show (low reg &&& ioartIntvec 32).toNat = _
  have hmask : (ioartIntvec 32).toNat = 2 ^ 8 - 1 := by decide
  rw [BitVec.toNat_and, hmask, Nat.and_two_pow_sub_one_eq_mod, low, BitVec.toNat_setWidth]
  omega

/-- The comparison of an entry's vector with that of an EOI. -/
theorem eoi_vector_iff (reg : Reg) (vector : Nat) :
    reg &&& ioartIntvec 64 = (BitVec.ofNat 8 vector).setWidth 64 ↔
      (intrOf reg).vector.toNat = vector % 256 := by
  have hmask : (ioartIntvec 64).toNat = 2 ^ 8 - 1 := by decide
  rw [vector_toNat, ← BitVec.toNat_inj, BitVec.toNat_and, hmask, Nat.and_two_pow_sub_one_eq_mod,
    BitVec.toNat_setWidth, BitVec.toNat_ofNat]
  omega

theorem legal_congr (h : intrOf a = intrOf b) : Legal a ↔ Legal b := by
  unfold Legal
  rw [h]

theorem writeHalf_high_bit (reg : Reg) (data : BitVec 32) {k : Nat} (hk : k < 32) :
    (writeHalf reg 32 data).getLsbD k = reg.getLsbD k := by
  have h64 : k < 64 := by omega
  simp only [writeHalf, BitVec.getLsbD_or, BitVec.getLsbD_and, BitVec.getLsbD_not,
    BitVec.getLsbD_shiftLeft, hk, h64, decide_true, Bool.not_true, Bool.and_false, Bool.false_and,
    Bool.not_false, Bool.and_true, Bool.true_or, Bool.or_false]

/-- The upper half of an entry has nothing to do with its vector and delivery mode. -/
theorem legal_writeHalf_high (reg : Reg) (data : BitVec 32) :
    Legal (writeHalf reg 32 data) ↔ Legal reg := by
  have hlow : low (writeHalf reg 32 data) = low reg := by
    apply BitVec.eq_of_getLsbD_eq
    intro k hk
    rw [low_bit hk, low_bit hk, writeHalf_high_bit reg data hk]
  unfold Legal intrOf
  rw [hlow]

end Entries

/-! ## End of interrupt -/

section Eoi
variable {l t : Vlapic} {vector : Nat}

theorem updatePpr_ok (h : Lapic.vlapicUpdatePpr l = .ok t) : ∃ ppr, t = { l with ppr := ppr } := by
  unfold Lapic.vlapicUpdatePpr at h
  simp only at h
  split at h
  · cases h
  · split at h
    · cases h
    · split at h
      · cases h
      · exact ⟨_, (Except.ok.inj h).symm⟩

theorem highest_some {r : BitWords 32} (h : r.highest 8 = some vector) :
    vector < 256 ∧ r.has vector = true := by
  rw [BitWords.highest_eq_getLast? (by decide)] at h
  exact BitWords.mem_elems.mp (List.mem_of_getLast? h)

/-- What an EOI leaves when a vector is in service. -/
structure Eois (l t : Vlapic) (vector : Nat) : Prop where
  irr : t.irr = l.irr
  isr : t.isr = l.isr.clear vector
  tmr : t.tmr = l.tmr
  svr : t.svr = l.svr
  /-- It is passed on where the vector is a level one. -/
  trace : t.trace = if l.tmr.has vector then .vioapicEoi vector :: l.trace else l.trace

theorem processEoi_ok (h : Lapic.vlapicProcessEoi l = .ok t) :
    (l.isr.highest 8 = none ∧ t = l.emit .gratuitousEoi) ∨
      ∃ vector, l.isr.highest 8 = some vector ∧ Eois l t vector := by
  unfold Lapic.vlapicProcessEoi at h
  split at h
  · rename_i hnone
    exact Or.inl ⟨hnone, (Except.ok.inj h).symm⟩
  · rename_i vector hvector
    split at h
    · cases h
    · cases hppr : Lapic.vlapicUpdatePpr { l with
          isr := l.isr.clear vector, isrvecStkTop := l.isrvecStkTop - 1 } with
      | error e =>
        rw [hppr] at h
        cases h
      | ok u =>
        obtain ⟨ppr, rfl⟩ := updatePpr_ok hppr
        rw [hppr] at h
        obtain rfl := Except.ok.inj h
        refine Or.inr ⟨vector, hvector, ?_⟩
        cases htmr : l.tmr.has vector with
        | false =>
          simp only [htmr, Bool.false_eq_true, if_false]
          exact ⟨rfl, rfl, rfl, rfl, by rw [htmr]; rfl⟩
        | true =>
          simp only [htmr, if_true]
          exact ⟨rfl, rfl, rfl, rfl, by rw [htmr]; rfl⟩

theorem eoiVector_some (h : eoiVector l = some vector) :
    l.isr.highest 8 = some vector ∧ vector < 256 ∧ l.tmr.has vector = true := by
  unfold eoiVector at h
  split at h
  · cases h
  · rename_i t ht
    rcases processEoi_ok ht with ⟨_, rfl⟩ | ⟨u, hu, heoi⟩
    · cases h
    · have htrace : t.trace = if l.tmr.has u then [.vioapicEoi u] else [] := heoi.trace
      rw [htrace] at h
      cases htmr : l.tmr.has u with
      | false =>
        rw [htmr, if_neg Bool.false_ne_true] at h
        cases h
      | true =>
        rw [htmr, if_pos rfl] at h
        obtain rfl : u = vector := Option.some.inj h
        exact ⟨hu, (highest_some hu).1, htmr⟩

/-- The EOI of a level interrupt in service comes to the I/O APIC. -/
theorem eoiVector_eq (hi : Lapic.Inv l) (h : l.isr.highest 8 = some vector)
    (htmr : l.tmr.has vector = true) : eoiVector l = some vector := by
  have hclear : OnlyRequests l { l with trace := [] } := .of_irr_eq rfl rfl rfl rfl rfl rfl
  obtain ⟨t, ht, _⟩ := (hclear.inv hi).processEoi
  unfold eoiVector
  rw [ht]
  rcases processEoi_ok ht with ⟨hnone, _⟩ | ⟨u, hu, heoi⟩
  · change l.isr.highest 8 = none at hnone
    rw [h] at hnone
    cases hnone
  · obtain rfl : vector = u := Option.some.inj (h.symm.trans hu)
    have htrace : t.trace = if l.tmr.has vector then [.vioapicEoi vector] else [] := heoi.trace
    rw [htmr, if_pos rfl] at htrace
    simp only [htrace]

end Eoi

/-! ## What the I/O APIC sends -/

/-- The entries change only in their remote IRR; where it is set, or comes to be, the pin was sent,
and only the pins of `P` are. -/
structure Flow (P : Nat → Prop) (v v' : Vioapic) : Prop where
  same : ∀ pin, SameOff (v'.rtbl pin).reg (v.rtbl pin).reg
  raised : ∀ pin, (v'.rtbl pin).reg.getLsbD 14 = true → (v.rtbl pin).reg.getLsbD 14 = true ∨
    (isLevel (v.rtbl pin).reg = true ∧ .deliver pin (intrOf (v.rtbl pin).reg) ∈ v'.trace)
  kept : ∀ e ∈ v.trace, e ∈ v'.trace
  sent : ∀ pin intr, .deliver pin intr ∈ v'.trace → .deliver pin intr ∈ v.trace ∨
    (P pin ∧ (v.rtbl pin).reg.getLsbD 16 = false ∧ intr = intrOf (v.rtbl pin).reg)

section Flow
variable {P Q : Nat → Prop} {v v' v'' : Vioapic} {pin : Nat}

theorem Flow.of_eq (hrtbl : ∀ pin, (v'.rtbl pin).reg = (v.rtbl pin).reg)
    (htrace : v'.trace = v.trace) : Flow P v v' where
  same pin k _ := by rw [hrtbl]
  raised pin h := Or.inl (by rwa [hrtbl] at h)
  kept e he := by rwa [htrace]
  sent pin intr h := Or.inl (by rwa [htrace] at h)

theorem Flow.mono (h : Flow P v v') (hPQ : ∀ pin, P pin → Q pin) : Flow Q v v' :=
  ⟨h.same, h.raised, h.kept, fun pin intr he => (h.sent pin intr he).imp_right (And.imp_left (hPQ pin))⟩

theorem Flow.trans (h : Flow P v v') (h' : Flow P v' v'') : Flow P v v'' where
  same pin := (h'.same pin).trans (h.same pin)
  raised pin hset := by
    rcases h'.raised pin hset with hmid | ⟨hlevel, hsent⟩
    · exact (h.raised pin hmid).imp_right (And.imp_right (h'.kept _))
    · rw [(h.same pin).isLevel_eq] at hlevel
      rw [(h.same pin).intrOf_eq] at hsent
      exact Or.inr ⟨hlevel, hsent⟩
  kept e he := h'.kept e (h.kept e he)
  sent pin intr he := by
    rcases h'.sent pin intr he with hmid | ⟨hP, hmask, hintr⟩
    · exact h.sent pin intr hmid
    · rw [h.same pin 16 (by decide)] at hmask
      rw [(h.same pin).intrOf_eq] at hintr
      exact Or.inr ⟨hP, hmask, hintr⟩

/-- The two forms of what a send records. -/
theorem sendIntr_trace (v : Vioapic) (pin : Nat) :
    ((v.rtbl pin).reg.getLsbD 16 = true ∧ (vioapicSendIntr v pin).trace = v.trace) ∨
      ((v.rtbl pin).reg.getLsbD 16 = false ∧
        (vioapicSendIntr v pin).trace = .deliver pin (intrOf (v.rtbl pin).reg) :: v.trace) := by
  cases hm : (v.rtbl pin).reg.getLsbD 16 with
  | true =>
    refine Or.inl ⟨rfl, ?_⟩
    simp only [vioapicSendIntr, if_pos ((masked_iff _).mpr hm)]
  | false =>
    refine Or.inr ⟨rfl, ?_⟩
    have hmask : ¬ low (v.rtbl pin).reg &&& ioartIntmask 32 = ioartIntmask 32 := by
      rw [masked_iff, hm]
      exact Bool.false_ne_true
    simp only [vioapicSendIntr, if_neg hmask]
    split
    · rfl
    · rfl

theorem sendIntr_flow (v : Vioapic) (pin : Nat) : Flow (· = pin) v (vioapicSendIntr v pin) where
  same q := by
    rcases sendIntr_rtbl v pin with ⟨h, _⟩ | ⟨_, _, h⟩
    · rw [h]
      exact fun _ _ => rfl
    · rw [h]
      by_cases hq : q = pin
      · subst hq
        rw [Vioapic.setReg, setEntry_same]
        exact sameOff_or_remIrr _
      · rw [Vioapic.setReg, setEntry_other v _ hq]
        exact fun _ _ => rfl
  raised q hset := by
    rcases sendIntr_rtbl v pin with ⟨h, _⟩ | ⟨hmask, hlevel, h⟩
    · rw [h] at hset
      exact Or.inl hset
    · by_cases hq : q = pin
      · subst hq
        rcases sendIntr_trace v q with ⟨hm, _⟩ | ⟨_, htrace⟩
        · rw [hmask] at hm
          cases hm
        · rw [htrace]
          exact Or.inr ⟨(isLevel_eq _).trans hlevel, List.mem_cons_self⟩
      · rw [h, Vioapic.setReg, setEntry_other v _ hq] at hset
        exact Or.inl hset
  kept e he := by
    rcases sendIntr_trace v pin with ⟨_, h⟩ | ⟨_, h⟩
    · rwa [h]
    · rw [h]
      exact List.mem_cons_of_mem _ he
  sent q intr he := by
    rcases sendIntr_trace v pin with ⟨_, h⟩ | ⟨hmask, h⟩
    · rw [h] at he
      exact Or.inl he
    · rw [h] at he
      rcases List.mem_cons.mp he with heq | hmem
      · cases heq
        exact Or.inr ⟨rfl, hmask, rfl⟩
      · exact Or.inl hmem

theorem setEntry_flow {e : Entry} (h : e.reg = (v.rtbl pin).reg) : Flow P v (v.setEntry pin e) := by
  refine Flow.of_eq (fun q => ?_) rfl
  by_cases hq : q = pin
  · subst hq
    rw [setEntry_same, h]
  · rw [setEntry_other v e hq]

theorem setPinstate_flow (v : Vioapic) (pin : Nat) (newstate : Bool) :
    Flow (fun q => q = pin ∧ newstate = true ∧ (v.rtbl pin).acnt = 0) v
      (vioapicSetPinstate v pin newstate) := by
  unfold vioapicSetPinstate
  cases newstate with
  | false =>
    simp only [Bool.false_eq_true, if_false]
    rw [if_neg (by omega)]
    exact setEntry_flow rfl
  | true =>
    simp only [if_true]
    split
    · rename_i hcnt
      have hset : Flow (fun q => q = pin ∧ True ∧ (v.rtbl pin).acnt = 0) v
          (v.setEntry pin { v.rtbl pin with acnt := (v.rtbl pin).acnt + 1 }) := setEntry_flow rfl
      exact hset.trans ((sendIntr_flow _ pin).mono fun q hq => ⟨hq, trivial, hcnt.1⟩)
    · exact setEntry_flow rfl

theorem writeSend_flow (v : Vioapic) (pin : Nat) :
    Flow (fun q => q = pin ∧ (v.rtbl pin).reg &&& ioartRemIrr 64 = 0 ∧ (v.rtbl pin).acnt > 0) v
      (vioapicWriteSend v pin) := by
  unfold vioapicWriteSend
  split
  · rename_i hcond
    exact (sendIntr_flow v pin).mono fun q hq => ⟨hq, hcond.2⟩
  · exact Flow.of_eq (fun _ => rfl) rfl

/-- What makes an EOI send the pin again. -/
def Again (vector : BitVec 8) (e : Entry) : Prop :=
  e.reg &&& ioartRemIrr 64 ≠ 0 ∧ e.reg &&& ioartIntvec 64 = vector.setWidth 64 ∧ e.acnt > 0

theorem ack_flow (v : Vioapic) (pin : Nat) :
    Flow P v ((v.setReg pin ((v.rtbl pin).reg &&& ~~~ioartRemIrr 64)).emit (.ack pin)) where
  same q := by
    show SameOff ((v.setReg pin _).rtbl q).reg _
    by_cases hq : q = pin
    · subst hq
      rw [Vioapic.setReg, setEntry_same]
      exact sameOff_clear_remIrr _
    · rw [Vioapic.setReg, setEntry_other v _ hq]
      exact fun _ _ => rfl
  raised q hset := by
    change ((v.setReg pin _).rtbl q).reg.getLsbD 14 = true at hset
    by_cases hq : q = pin
    · subst hq
      rw [Vioapic.setReg, setEntry_same] at hset
      exact Or.inl (Bool.and_elim_left (BitVec.getLsbD_and ▸ hset))
    · rw [Vioapic.setReg, setEntry_other v _ hq] at hset
      exact Or.inl hset
  kept e he := List.mem_cons_of_mem _ he
  sent q intr he := by
    rcases List.mem_cons.mp he with heq | hmem
    · cases heq
    · exact Or.inl hmem

theorem eoiPin_flow (vector : BitVec 8) (v : Vioapic) (pin : Nat) :
    Flow (fun q => q = pin ∧ Again vector (v.rtbl pin)) v (eoiPin vector v pin) := by
  unfold eoiPin
  simp only
  split
  · exact Flow.of_eq (fun _ => rfl) rfl
  · rename_i hirr
    split
    · exact Flow.of_eq (fun _ => rfl) rfl
    · rename_i hvec
      split
      · rename_i hcnt
        have hacnt : (v.rtbl pin).acnt > 0 := by
          change ((v.setEntry pin _).rtbl pin).acnt > 0 at hcnt
          rwa [setEntry_same] at hcnt
        have hsend := (sendIntr_flow
          ((v.setReg pin ((v.rtbl pin).reg &&& ~~~ioartRemIrr 64)).emit (.ack pin)) pin).mono
            fun q hq => (⟨hq, hirr, not_not.mp hvec, hacnt⟩ : q = pin ∧ Again vector (v.rtbl pin))
        exact (ack_flow v pin).trans hsend
      · exact ack_flow v pin

/-- After the EOI of its vector a pin that waits has been sent again. -/
theorem eoiPin_raised (vector : BitVec 8) (v : Vioapic) (pin : Nat)
    (hvec : (v.rtbl pin).reg &&& ioartIntvec 64 = vector.setWidth 64)
    (h : ((eoiPin vector v pin).rtbl pin).reg.getLsbD 14 = true) :
    isLevel (v.rtbl pin).reg = true ∧
      .deliver pin (intrOf (v.rtbl pin).reg) ∈ (eoiPin vector v pin).trace := by
  unfold eoiPin at h ⊢
  simp only at h ⊢
  have hclear : (((v.setReg pin ((v.rtbl pin).reg &&& ~~~ioartRemIrr 64)).emit
      (.ack pin)).rtbl pin).reg.getLsbD 14 = false := by
    show ((v.setEntry pin _).rtbl pin).reg.getLsbD 14 = false
    rw [setEntry_same]
    show ((v.rtbl pin).reg &&& ~~~ioartRemIrr 64).getLsbD 14 = false
    rw [BitVec.getLsbD_and, BitVec.getLsbD_not, remIrr_bit]
    simp
  split at h
  · rename_i hirr
    rw [(remIrr_iff _).mp hirr] at h
    cases h
  · rename_i hirr
    rw [if_neg hirr]
    rw [if_neg (not_not.mpr hvec)] at h ⊢
    split at h
    · rename_i hcnt
      rw [if_pos hcnt]
      have hsame := (ack_flow (P := fun _ => True) v pin).same pin
      rcases (sendIntr_flow _ pin).raised pin h with hbefore | hsent
      · rw [hclear] at hbefore
        cases hbefore
      · rwa [hsame.isLevel_eq, hsame.intrOf_eq] at hsent
    · rw [hclear] at h
      cases h

theorem eoiPin_ack (vector : BitVec 8) (v : Vioapic) (pin : Nat)
    (hirr : (v.rtbl pin).reg &&& ioartRemIrr 64 ≠ 0)
    (hvec : (v.rtbl pin).reg &&& ioartIntvec 64 = vector.setWidth 64) :
    .ack pin ∈ (eoiPin vector v pin).trace := by
  unfold eoiPin
  simp only
  rw [if_neg hirr, if_neg (not_not.mpr hvec)]
  split
  · exact (sendIntr_flow _ pin).kept _ List.mem_cons_self
  · exact List.mem_cons_self

theorem eoi_other (vector : BitVec 8) (pins : List Nat) (v : Vioapic) {q : Nat} (hq : q ∉ pins) :
    (pins.foldl (eoiPin vector) v).rtbl q = v.rtbl q := by
  induction pins generalizing v with
  | nil => rfl
  | cons pin rest ih =>
    rw [List.mem_cons, not_or] at hq
    rw [List.foldl_cons, ih _ hq.2]
    exact (eoiPin_moves vector v pin).other q hq.1

theorem eoi_flow (vector : BitVec 8) (pins : List Nat) (hpins : pins.Nodup) (v : Vioapic) :
    Flow (fun q => q ∈ pins ∧ Again vector (v.rtbl q)) v (pins.foldl (eoiPin vector) v) := by
  induction pins generalizing v with
  | nil => exact Flow.of_eq (fun _ => rfl) rfl
  | cons pin rest ih =>
    obtain ⟨hnot, hrest⟩ := List.nodup_cons.mp hpins
    have hpin : Flow (fun q => q ∈ pin :: rest ∧ Again vector (v.rtbl q)) v
        (eoiPin vector v pin) := by
      refine (eoiPin_flow vector v pin).mono fun q hq => ?_
      rw [hq.1]
      exact ⟨List.mem_cons_self, hq.2⟩
    refine hpin.trans ((ih hrest (eoiPin vector v pin)).mono fun q hq => ?_)
    -- The pins that are left are as they were.
    have hne : q ≠ pin := fun heq => hnot (heq ▸ hq.1)
    rw [← (eoiPin_moves vector v pin).other q hne]
    exact ⟨List.mem_cons_of_mem _ hq.1, hq.2⟩

/-- A pin of the vector is looked at once: before it the entry is as it was, and after it the
remote IRR is only set by a send. -/
theorem processEoi_pin (vector : BitVec 8) (v : Vioapic) {pin : Nat} (hpin : pin < redirEntries)
    (hvec : (v.rtbl pin).reg &&& ioartIntvec 64 = vector.setWidth 64) :
    (((vioapicProcessEoi v vector).rtbl pin).reg.getLsbD 14 = true →
      isLevel (v.rtbl pin).reg = true ∧
        .deliver pin (intrOf (v.rtbl pin).reg) ∈ (vioapicProcessEoi v vector).trace) ∧
      ((v.rtbl pin).reg &&& ioartRemIrr 64 ≠ 0 → .ack pin ∈ (vioapicProcessEoi v vector).trace) := by
  unfold vioapicProcessEoi
  have hnodup : (List.range redirEntries).Nodup := List.nodup_range
  obtain ⟨pre, post, heq⟩ := List.append_of_mem (List.mem_range.mpr hpin)
  rw [heq] at hnodup ⊢
  rw [List.foldl_append, List.foldl_cons]
  obtain ⟨_, hpost, hdisj⟩ := List.nodup_append.mp hnodup
  have hpre : (pre.foldl (eoiPin vector) v).rtbl pin = v.rtbl pin :=
    eoi_other vector pre v fun hmem => hdisj pin hmem pin List.mem_cons_self rfl
  have hlater := eoi_flow vector post (List.nodup_cons.mp hpost).2
    (eoiPin vector (pre.foldl (eoiPin vector) v) pin)
  have hother := eoi_other vector post (eoiPin vector (pre.foldl (eoiPin vector) v) pin)
    (List.nodup_cons.mp hpost).1
  rw [← hpre] at hvec ⊢
  constructor
  · intro hset
    rw [hother] at hset
    exact (eoiPin_raised vector _ pin hvec hset).imp_right (hlater.kept _)
  · intro hirr
    exact hlater.kept _ (eoiPin_ack vector _ pin hirr hvec)

theorem setIrqstate_flow (v : Vioapic) (irq : Int) (irqstate : Irqstate) :
    Flow (fun q => irq = q ∧ irqstate ≠ .deassert ∧ (v.rtbl q).acnt = 0) v
      ((vioapicSetIrqstate v irq irqstate).getD v) := by
  unfold vioapicSetIrqstate
  split
  · exact Flow.of_eq (fun _ => rfl) rfl
  · rename_i hirq
    have hnat : irq = (irq.toNat : Int) := by omega
    have hset : ∀ w newstate, Flow (fun q => q = irq.toNat ∧ newstate = true ∧
        (w.rtbl irq.toNat).acnt = 0) w (vioapicSetPinstate w irq.toNat newstate) :=
      fun w newstate => setPinstate_flow w irq.toNat newstate
    rw [Option.getD_some]
    cases irqstate with
    | assert => exact (hset v true).mono fun q ⟨hq, _, hcnt⟩ => ⟨by omega, by decide, hq ▸ hcnt⟩
    | deassert => exact (hset v false).mono fun q ⟨_, hfalse, _⟩ => absurd hfalse (by decide)
    | pulse =>
      have hraise := (hset v true).mono fun q ⟨hq, _, hcnt⟩ =>
        (⟨by omega, by decide, hq ▸ hcnt⟩ : irq = q ∧ Irqstate.pulse ≠ Irqstate.deassert ∧ (v.rtbl q).acnt = 0)
      exact hraise.trans ((hset _ false).mono fun q ⟨_, hfalse, _⟩ => absurd hfalse (by decide))

end Flow

section Written
variable {s : State}

/-- The I/O APIC with what an operation writes to the table. -/
def written (s : State) (op : Op) : Vioapic :=
  { s.vioapic with
    trace := []
    rtbl := fun pin => { s.vioapic.rtbl pin with reg := entryAfter s op pin } }

/-- A write that is none to the redirection table. -/
theorem mmioWrite_none {writer size : Nat} {gpa wval : BitVec 64}
    (h : entryWrite s (.mmioWrite writer gpa wval size) = none) (v : Vioapic)
    (hv : v.ioregsel = s.vioapic.ioregsel) :
    (vioapicMmioWrite v gpa wval size).1.rtbl = v.rtbl ∧
      (vioapicMmioWrite v gpa wval size).1.trace = v.trace ∧
      (vioapicMmioWrite v gpa wval size).2 = none := by
  simp only [entryWrite] at h
  split at h
  · cases h
  · rename_i hnot
    unfold vioapicMmioWrite
    simp only
    split
    · exact ⟨rfl, rfl, rfl⟩
    · rename_i hsize
      split
      · exact ⟨rfl, rfl, rfl⟩
      · rename_i hsel
        unfold vioapicWrite
        simp only
        rw [hv, if_neg]
        · split
          · exact ⟨rfl, rfl, rfl⟩
          · exact ⟨rfl, rfl, rfl⟩
        · intro hreg
          rw [not_or, not_and_or, not_not, not_not, not_not] at hsize
          exact hnot ⟨hsize.1, hsize.2.resolve_left hsel, hreg⟩

/-- A write to the redirection table. -/
theorem mmioWrite_some {writer size : Nat} {gpa wval : BitVec 64} {w : EntryWrite}
    (h : entryWrite s (.mmioWrite writer gpa wval size) = some w) (v : Vioapic)
    (hv : v.ioregsel = s.vioapic.ioregsel) :
    w.pin < redirEntries ∧ (w.lshift = 0 ∨ w.lshift = 32) ∧
    vioapicMmioWrite v gpa wval size =
      if ((v.rtbl w.pin).reg ^^^ writeHalf (v.rtbl w.pin).reg w.lshift w.data) &&&
          ~~~(ioartIntmask 64 ||| ioartIntpol 64) ≠ 0 then
        (v.setReg w.pin (writeHalf (v.rtbl w.pin).reg w.lshift w.data), some w.pin)
      else
        (vioapicWriteSend (v.setReg w.pin (writeHalf (v.rtbl w.pin).reg w.lshift w.data)) w.pin,
          none) := by
  simp only [entryWrite] at h
  split at h
  · rename_i hcond
    obtain ⟨hsize, hoff, hlow, hhigh⟩ := hcond
    obtain rfl := Option.some.inj h
    have hsel : BitVec.ofNat 64 iowinOffset ≠ BitVec.ofNat 64 ioregselOffset := by decide
    refine ⟨?_, ?_, ?_⟩
    · show ((s.vioapic.ioregsel &&& 0xff).toNat - ioapicRedtbl) / 2 < redirEntries
      unfold redirEntries at hhigh ⊢
      omega
    · show (if _ then 32 else 0) = 0 ∨ _
      split
      · exact Or.inr rfl
      · exact Or.inl rfl
    · unfold vioapicMmioWrite
      simp only
      rw [hoff, if_neg (by simp [hsize]), if_neg hsel]
      unfold vioapicWrite
      simp only
      have hid : (s.vioapic.ioregsel &&& 0xff).toNat ≠ ioapicId := by
        unfold ioapicRedtbl at hlow
        unfold ioapicId
        omega
      rw [hv, if_pos ⟨hlow, hhigh⟩, if_neg hid]
      simp only [Vioapic.setReg, setEntry_same]
  · cases h

theorem written_none {op : Op} (h : entryWrite s op = none) :
    written s op = { s.vioapic with trace := [] } := by
  unfold written entryAfter
  rw [h]

theorem written_some {op : Op} {w : EntryWrite} (h : entryWrite s op = some w) :
    written s op = Vioapic.setReg { s.vioapic with trace := [] } w.pin
      (writeHalf (s.vioapic.rtbl w.pin).reg w.lshift w.data) := by
  simp only [written, Vioapic.setReg, Vioapic.setEntry, Vioapic.mk.injEq, true_and, and_true]
  funext pin
  simp only [entryAfter, h]
  by_cases hpin : w.pin = pin
  · subst hpin
    rw [Function.update_self, if_pos rfl]
  · rw [Function.update_of_ne (Ne.symm hpin), if_neg hpin]

theorem entryAfter_remIrr (s : State) (op : Op) (pin : Nat) :
    (entryAfter s op pin).getLsbD 14 = (s.vioapic.rtbl pin).reg.getLsbD 14 := by
  unfold entryAfter
  split
  · split
    · exact writeHalf_remIrr _ _ _
    · rfl
  · rfl

theorem mmioWrite_flow (s : State) (writer : Nat) (gpa wval : BitVec 64) (size : Nat) :
    Flow (Triggers s (.mmioWrite writer gpa wval size))
      (written s (.mmioWrite writer gpa wval size))
      (ioapicPart s (.mmioWrite writer gpa wval size)) := by
  cases h : entryWrite s (.mmioWrite writer gpa wval size) with
  | none =>
    obtain ⟨hrtbl, htrace, _⟩ := mmioWrite_none h { s.vioapic with trace := [] } rfl
    rw [written_none h]
    exact Flow.of_eq (fun pin => congrArg Entry.reg (congrFun hrtbl pin)) htrace
  | some w =>
    obtain ⟨_, _, heq⟩ := mmioWrite_some h { s.vioapic with trace := [] } rfl
    have hafter : (written s (.mmioWrite writer gpa wval size)).rtbl w.pin =
        { s.vioapic.rtbl w.pin with
          reg := writeHalf (s.vioapic.rtbl w.pin).reg w.lshift w.data } := by
      rw [written_some h]
      exact setEntry_same _ _ _
    simp only [ioapicPart]
    rw [heq, ← written_some h]
    split
    · exact Flow.of_eq (fun _ => rfl) rfl
    · rename_i hsame
      refine (writeSend_flow _ w.pin).mono fun q hq => ?_
      obtain ⟨rfl, hirr, hacnt⟩ := hq
      rw [remIrr_iff] at hirr
      refine ⟨⟨w, h, rfl⟩, ?_, (remIrr_iff _).mpr ?_, hacnt⟩
      · show (_ ^^^ ((written s (.mmioWrite writer gpa wval size)).rtbl w.pin).reg) &&& _ = 0
        rw [hafter]
        exact not_not.mp hsame
      · rw [← entryAfter_remIrr s (.mmioWrite writer gpa wval size)]
        exact hirr

theorem ioapicPart_flow (s : State) (op : Op) :
    Flow (Triggers s op) (written s op) (ioapicPart s op) := by
  have hidle : ∀ P : Nat → Prop, Flow P { s.vioapic with trace := [] }
      { s.vioapic with trace := [] } := fun P => Flow.of_eq (fun _ => rfl) rfl
  cases op with
  | assertIrq irq =>
    exact (setIrqstate_flow { s.vioapic with trace := [] } irq .assert).mono fun q h => ⟨h.1, h.2.2⟩
  | deassertIrq irq =>
    exact (setIrqstate_flow { s.vioapic with trace := [] } irq .deassert).mono fun q h =>
      absurd rfl h.2.1
  | pulseIrq irq =>
    exact (setIrqstate_flow { s.vioapic with trace := [] } irq .pulse).mono fun q h => ⟨h.1, h.2.2⟩
  | mmioWrite writer gpa wval size => exact mmioWrite_flow s writer gpa wval size
  | finishWrite writer =>
    simp only [ioapicPart]
    split
    · rename_i w hw
      exact (writeSend_flow _ w.pin).mono fun q ⟨hq, hirr, hacnt⟩ =>
        hq ▸ ⟨⟨w, hw, rfl⟩, hirr, hacnt⟩
    · exact hidle _
  | eoi vcpuid =>
    simp only [ioapicPart]
    split
    · rename_i vector hvector
      refine (eoi_flow _ _ List.nodup_range _).mono fun q ⟨_, hirr, hvec, hacnt⟩ => ?_
      have heq := (eoi_vector_iff (s.vioapic.rtbl q).reg vector).mp hvec
      rw [Nat.mod_eq_of_lt (eoiVector_some hvector).2.1] at heq
      exact ⟨hvector.trans (congrArg some heq.symm), hirr, hacnt⟩
    · exact hidle _
  | updateTmr writer vcpuid => exact hidle _
  | lapic vcpuid op => exact hidle _
  | ldrWrite vcpuid data => exact hidle _
  | dfrWrite vcpuid data => exact hidle _

end Written

/-! ## What the local APICs keep -/

/-- The trigger modes stay, and whether the APIC is enabled. -/
structure SameModes (l t : Vlapic) : Prop where
  tmr : t.tmr = l.tmr
  svr : t.svr = l.svr

namespace SameModes

theorem refl (l : Vlapic) : SameModes l l := ⟨rfl, rfl⟩

theorem trans {l t u : Vlapic} (h : SameModes l t) (h' : SameModes t u) : SameModes l u :=
  ⟨h'.tmr.trans h.tmr, h'.svr.trans h.svr⟩

theorem setIrr (l : Vlapic) (vector : Nat) : SameModes l (Lapic.setIrr l vector).1 := by
  unfold Lapic.setIrr
  split
  · exact refl l
  · exact ⟨rfl, rfl⟩

theorem fireLvtWith {setError : Vlapic → Nat → Vlapic} (he : ∀ l mask, SameModes l (setError l mask))
    (l : Vlapic) (lvt : Nat) : SameModes l (Lapic.fireLvtWith setError l lvt).1 := by
  unfold Lapic.fireLvtWith
  simp only
  split
  · exact refl l
  · split
    · split
      · exact he _ _
      · split
        · exact (setIrr l _).trans ⟨rfl, rfl⟩
        · exact setIrr l _
    · split
      · exact ⟨rfl, rfl⟩
      · split
        · exact ⟨rfl, rfl⟩
        · exact refl l

theorem setError (l : Vlapic) (mask : Nat) : SameModes l (Lapic.vlapicSetError l mask) := by
  unfold Lapic.vlapicSetError
  simp only
  split
  · exact ⟨rfl, rfl⟩
  · have hset : SameModes l { l with esrPending := l.esrPending ||| mask, esrFiring := true } :=
      ⟨rfl, rfl⟩
    have hfire := hset.trans (fireLvtWith (fun l mask => ⟨rfl, rfl⟩ : ∀ (l : Vlapic) (mask : Nat),
      SameModes l { l with esrPending := l.esrPending ||| mask }) _ (l.lvtLast .error ||| Lapic.lvtDmFixed))
    exact ⟨hfire.tmr, hfire.svr⟩

theorem setIntrReady (l : Vlapic) (vector : Nat) (level : Bool) :
    SameModes l (Lapic.vlapicSetIntrReady l vector level).1 := by
  unfold Lapic.vlapicSetIntrReady
  split
  · exact refl l
  · split
    · exact setError l _
    · exact setIrr l vector

theorem maskLvts (l : Vlapic) : SameModes l (Lapic.vlapicMaskLvts l) := by
  unfold Lapic.vlapicMaskLvts
  generalize [Lapic.Lvt.cmci, .timer, .thermal, .pmc, .lint0, .lint1, .error] = is
  induction is generalizing l with
  | nil => exact refl l
  | cons i rest ih =>
    have hi : SameModes l (Lapic.maskLvt l i) := ⟨rfl, rfl⟩
    exact hi.trans (ih _)

theorem svrWriteHandler (l : Vlapic) : SameModes l (Lapic.vlapicSvrWriteHandler l) := by
  unfold Lapic.vlapicSvrWriteHandler
  simp only
  split
  · split
    · have hstop : SameModes l (Vlapic.emit { l with svrLast := l.svr } .calloutStop) := ⟨rfl, rfl⟩
      exact hstop.trans (maskLvts _)
    · split
      · exact ⟨rfl, rfl⟩
      · exact ⟨rfl, rfl⟩
  · exact ⟨rfl, rfl⟩

end SameModes

/-- A local APIC that only receives: nothing it holds is lost. -/
structure Receives (c c' : Vcpu) : Prop where
  requests : OnlyRequests c.lapic c'.lapic
  tmr : c'.lapic.tmr = c.lapic.tmr
  svr : c'.lapic.svr = c.lapic.svr
  offered : c'.offered = c.offered

section Receives
variable {c c' c'' : Vcpu} {vector : Nat}

theorem Receives.refl (c : Vcpu) : Receives c c := ⟨.rfl' _, rfl, rfl, rfl⟩

theorem Receives.trans (h : Receives c c') (h' : Receives c' c'') : Receives c c'' :=
  ⟨h.requests.trans h'.requests, h'.tmr.trans h.tmr, h'.svr.trans h.svr,
    h'.offered.trans h.offered⟩

theorem Receives.good (h : Receives c c') (hg : Lapic.Good c) : Lapic.Good c' := by
  have hgood := hg.onlyRequests h.requests
  rwa [← h.offered] at hgood

theorem Receives.enabled (h : Receives c c') (he : enabled c.lapic) : enabled c'.lapic := by
  unfold IoapicLapics.enabled
  rw [h.svr]
  exact he

theorem Receives.holds (h : Receives c c') (hh : Holds c.lapic vector) : Holds c'.lapic vector where
  held := hh.held.imp (h.requests.keeps vector) fun hisr => by rwa [h.requests.isr]
  tmr := by
    rw [h.tmr]
    exact hh.tmr

/-- A loop every turn of which only adds requests. -/
theorem foldl_receives {α : Type} {f : (Nat → Vcpu) → α → Nat → Vcpu}
    (hf : ∀ vcpu a i, Receives (vcpu i) (f vcpu a i)) (as : List α) (vcpu : Nat → Vcpu) (i : Nat) :
    Receives (vcpu i) (as.foldl f vcpu i) := by
  induction as generalizing vcpu with
  | nil => exact .refl _
  | cons a rest ih => exact (hf vcpu a i).trans (ih (f vcpu a))

/-- What one turn requests of an enabled APIC is requested in the end. -/
theorem foldl_requests {α : Type} {f : (Nat → Vcpu) → α → Nat → Vcpu}
    (hf : ∀ vcpu a i, Receives (vcpu i) (f vcpu a i)) {as : List α} {a : α} (ha : a ∈ as) {i : Nat}
    (hset : ∀ vcpu : Nat → Vcpu, enabled (vcpu i).lapic → (f vcpu a i).lapic.irr.has vector = true)
    {vcpu : Nat → Vcpu} (hen : enabled (vcpu i).lapic) :
    (as.foldl f vcpu i).lapic.irr.has vector = true := by
  obtain ⟨pre, post, rfl⟩ := List.append_of_mem ha
  rw [List.foldl_append, List.foldl_cons]
  have hmid := (foldl_receives hf pre vcpu i).enabled hen
  exact (foldl_receives hf post _ i).requests.keeps vector (hset _ hmid)

theorem setIntrReady_receives (c : Vcpu) (vector : Nat) (level : Bool) :
    Receives c { c with lapic := (Lapic.vlapicSetIntrReady c.lapic vector level).1 } := by
  have hmodes := SameModes.setIntrReady c.lapic vector level
  exact ⟨.setIntrReady _ _ _, hmodes.tmr, hmodes.svr, rfl⟩

theorem setIntrReady_requests {l : Vlapic} (hv : 16 ≤ vector) (hen : enabled l) (level : Bool) :
    (Lapic.vlapicSetIntrReady l vector level).1.irr.has vector = true := by
  unfold Lapic.vlapicSetIntrReady Lapic.setIrr
  rw [if_neg hen, if_neg (by omega), if_neg hen]
  show (l.irr.set vector).has vector = true
  rw [BitWords.has_set (by decide), decide_eq_true rfl, Bool.true_or]

theorem applyCall_receives (vcpu : Nat → Vcpu) (call : Call) (i : Nat) :
    Receives (vcpu i) (applyCall vcpu call i) := by
  cases call with
  | lapicSetIntr cpu vector level =>
    simp only [applyCall]
    split
    · exact .refl _
    · rename_i hvalid
      by_cases hi : i = cpu
      · subst hi
        rw [Function.update_self]
        exact setIntrReady_receives _ _ level
      · rw [Function.update_of_ne hi]
        exact .refl _
  | injectNmi vcpuid => exact .refl _
  | injectExtint vcpuid => exact .refl _
  | setError vcpuid => exact .refl _

theorem applyEvent_receives (m : Machine) (regs : Nat → DestRegs) (vcpu : Nat → Vcpu)
    (e : Ioapic.Event) (i : Nat) : Receives (vcpu i) (applyEvent m regs vcpu e i) := by
  cases e with
  | deliver pin intr => exact foldl_receives applyCall_receives _ vcpu i
  | ack pin => exact .refl _

/-- A fixed or lowest-priority interrupt is requested of each enabled destination. -/
theorem deliver_requests (m : Machine) (regs : Nat → DestRegs) {reg : Reg} (hlegal : Legal reg)
    {i : Nat} (hi : i < vmMaxcpu) (hdest : (destOf m regs (intrOf reg)).getLsbD i = true) (pin : Nat)
    {vcpu : Nat → Vcpu} (hen : enabled (vcpu i).lapic) :
    (applyEvent m regs vcpu (.deliver pin (intrOf reg)) i).lapic.irr.has
      (intrOf reg).vector.toNat = true := by
  have hvec : (intrOf reg).vector.toNat ≤ 255 := by
    rw [vector_toNat]
    omega
  have hmem : Call.lapicSetIntr i (intrOf reg).vector (intrOf reg).level ∈
      vlapicDeliverIntr m.active regs (intrOf reg) := by
    unfold vlapicDeliverIntr
    have hext : (intrOf reg).delmode ≠ apicDelmodeExint 32 := by
      rcases hlegal.1 with h | h
      · rw [h]
        decide
      · rw [h]
        decide
    rw [if_neg (by rcases hlegal.1 with h | h <;> simp [h])]
    simp only [if_neg hext]
    apply List.mem_map_of_mem
    rw [WordSet.visit_width, WordSet.mem_elems]
    exact hdest
  refine foldl_requests applyCall_receives hmem (fun vcpu hvcpu => ?_) hen
  simp only [applyCall]
  rw [if_neg (by have := hlegal.2; omega), Function.update_self]
  exact setIntrReady_requests hlegal.2 hvcpu _

end Receives

/-- What is requested or in service stays so, with its trigger mode. -/
structure Keeps (l t : Vlapic) : Prop where
  held : ∀ v, l.irr.has v = true ∨ l.isr.has v = true → t.irr.has v = true ∨ t.isr.has v = true
  tmr : t.tmr = l.tmr

section Keeps
variable {l t u : Vlapic}

theorem Keeps.holds (h : Keeps l t) {vector : Nat} (hh : Holds l vector) : Holds t vector where
  held := h.held vector hh.held
  tmr := by
    rw [h.tmr]
    exact hh.tmr

theorem Keeps.of_requests (h : OnlyRequests l t) (htmr : t.tmr = l.tmr) : Keeps l t where
  held v := Or.imp (h.keeps v) fun hisr => by rwa [h.isr]
  tmr := htmr

theorem Keeps.of_eq (hirr : t.irr = l.irr) (hisr : t.isr = l.isr) (htmr : t.tmr = l.tmr) :
    Keeps l t where
  held v hv := by rwa [hirr, hisr]
  tmr := htmr

theorem setTpr_keeps {val : Nat} (h : Lapic.vlapicSetTpr l val = .ok t) : Keeps l t := by
  unfold Lapic.vlapicSetTpr at h
  split at h
  · obtain ⟨ppr, rfl⟩ := updatePpr_ok h
    exact .of_eq rfl rfl rfl
  · obtain rfl := Except.ok.inj h
    exact .of_eq rfl rfl rfl

theorem setCr8_keeps {val : Nat} (h : Lapic.vlapicSetCr8 l val = .ok t) : Keeps l t := by
  unfold Lapic.vlapicSetCr8 at h
  split at h
  · obtain rfl := Except.ok.inj h
    exact .of_eq rfl rfl rfl
  · exact setTpr_keeps h

/-- A vector that is accepted goes from the requests into service. -/
theorem intrAccepted_keeps {vector : Nat} (h : Lapic.vlapicIntrAccepted l vector = .ok t) :
    Keeps l t := by
  unfold Lapic.vlapicIntrAccepted at h
  simp only at h
  split at h
  · cases h
  · obtain ⟨ppr, rfl⟩ := updatePpr_ok h
    refine ⟨fun v hv => ?_, rfl⟩
    show (l.irr.clear vector).has v = true ∨ (l.isr.set vector).has v = true
    rw [BitWords.has_clear (by decide), BitWords.has_set (by decide)]
    by_cases heq : v = vector
    · exact Or.inr (by simp [heq])
    · simpa [heq] using hv

theorem map_ok {x : Except String Vlapic} {d : Vcpu}
    (h : x.map (⟨·, none⟩ : Vlapic → Vcpu) = .ok d) : ∃ t, x = .ok t ∧ d = ⟨t, none⟩ := by
  cases x with
  | error e => cases h
  | ok t => exact ⟨t, rfl, (Except.ok.inj h).symm⟩

theorem lapic_keeps {c d : Vcpu} {op : Lapic.Op} (heoi : op ≠ .eoi)
    (htmr : ∀ v level, op ≠ .setTmr v level) (h : Lapic.apply c op = .ok d) :
    Keeps c.lapic d.lapic := by
  cases op with
  | setIntrReady v level =>
    obtain rfl := Except.ok.inj h
    exact .of_requests (.setIntrReady _ _ _) (SameModes.setIntrReady _ _ _).tmr
  | fireLvt i =>
    obtain rfl := Except.ok.inj h
    exact .of_requests (.fireLvt _ _) (SameModes.fireLvtWith SameModes.setError _ _).tmr
  | setTmr v level => exact absurd rfl (htmr v level)
  | pendingIntr =>
    obtain rfl := Except.ok.inj h
    exact .of_eq rfl rfl rfl
  | intrAccepted =>
    simp only [Lapic.apply] at h
    split at h
    · obtain rfl := Except.ok.inj h
      exact .of_eq rfl rfl rfl
    · obtain ⟨t, ht, rfl⟩ := map_ok h
      exact intrAccepted_keeps ht
  | eoi => exact absurd rfl heoi
  | setTpr data =>
    obtain ⟨t, ht, rfl⟩ := map_ok h
    exact setTpr_keeps ht
  | setCr8 val =>
    obtain ⟨t, ht, rfl⟩ := map_ok h
    exact setCr8_keeps ht
  | svrWrite data =>
    obtain rfl := Except.ok.inj h
    have hset : OnlyRequests c.lapic { c.lapic with svr := data % 2 ^ 32 } :=
      .of_irr_eq rfl rfl rfl rfl rfl rfl
    exact .of_requests (hset.trans (.svrWriteHandler _)) (SameModes.svrWriteHandler _).tmr
  | lvtWrite i data =>
    obtain rfl := Except.ok.inj h
    exact .of_eq rfl rfl rfl
  | esrWrite =>
    obtain rfl := Except.ok.inj h
    exact .of_eq rfl rfl rfl

/-- An EOI takes out of service only the highest vector. -/
theorem eoi_keeps {c d : Vcpu} (h : Lapic.apply c .eoi = .ok d) :
    SameModes c.lapic d.lapic ∧
      ∀ vector, Holds c.lapic vector → Holds d.lapic vector ∨
        c.lapic.isr.highest 8 = some vector := by
  obtain ⟨t, ht, rfl⟩ := map_ok h
  rcases processEoi_ok ht with ⟨_, rfl⟩ | ⟨u, hu, heoi⟩
  · exact ⟨⟨rfl, rfl⟩, fun vector hh => Or.inl ⟨hh.held, hh.tmr⟩⟩
  · refine ⟨⟨heoi.tmr, heoi.svr⟩, fun vector hh => ?_⟩
    by_cases heq : vector = u
    · rw [heq]
      exact Or.inr hu
    · refine Or.inl ⟨?_, by rw [heoi.tmr]; exact hh.tmr⟩
      rw [heoi.irr, heoi.isr, BitWords.has_clear (by decide)]
      simpa [heq] using hh.held

end Keeps

end Xhyve.Vmm.IoapicLapics
