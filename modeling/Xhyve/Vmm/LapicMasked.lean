import Xhyve.Vmm.LapicMasks

/-!
# Software disable masks the local vector table

Each entry and its copy are stored together by one handler, which forces the mask bit while the APIC is disabled; disabling
runs it once more for every entry.
-/

namespace Xhyve.Vmm.LapicMasks

open Xhyve.Lib
open Xhyve.Vmm.Lapic
open Xhyve.Vmm.LapicDest (Call vlapicSetX2apicState)

/-! ## One entry -/

/-- An entry as the handler leaves it. -/
structure Stored (s : Vlapic) (i : Lvt) : Prop where
  copy : s.lvtLast i = s.lvt i
  fields : s.lvt i &&& lvtWriteMask i = s.lvt i

def Shut (s : Vlapic) (i : Lvt) : Prop := s.lvt i &&& lvtM ≠ 0

/-- The invariant: stored entries, shut while the APIC is disabled, and `svr_last` knows whether it is. -/
structure Masked (s : Vlapic) : Prop where
  stored : ∀ i, Stored s i
  shut : s.svr &&& svrEnable = 0 → ∀ i, Shut s i
  last : s.svrLast &&& svrEnable = s.svr &&& svrEnable

theorem map_ok {α β : Type} {f : α → β} {x : Except String α} {b : β} (h : x.map f = .ok b) : ∃ a, x = .ok a ∧ f a = b := by
  cases x with
  | error e => cases h
  | ok a => exact ⟨a, rfl, Except.ok.inj h⟩

/-- The registers the invariant is about are the same. -/
structure SameLvts (s t : Vlapic) : Prop where
  lvt : t.lvt = s.lvt
  lvtLast : t.lvtLast = s.lvtLast
  svr : t.svr = s.svr
  svrLast : t.svrLast = s.svrLast

namespace SameLvts

theorem rfl' (s : Vlapic) : SameLvts s s := ⟨rfl, rfl, rfl, rfl⟩

theorem trans {s t u : Vlapic} (h : SameLvts s t) (k : SameLvts t u) : SameLvts s u :=
  ⟨k.lvt.trans h.lvt, k.lvtLast.trans h.lvtLast, k.svr.trans h.svr, k.svrLast.trans h.svrLast⟩

theorem stored {s t : Vlapic} (h : SameLvts s t) {i : Lvt} (hs : Stored s i) : Stored t i where
  copy := by rw [h.lvtLast, h.lvt, hs.copy]
  fields := by rw [h.lvt, hs.fields]

theorem masked {s t : Vlapic} (h : SameLvts s t) (hm : Masked s) : Masked t where
  stored i := h.stored (hm.stored i)
  shut hsvr i := by
    rw [h.svr] at hsvr
    unfold Shut
    rw [h.lvt]
    exact hm.shut hsvr i
  last := by rw [h.svr, h.svrLast, hm.last]

theorem emit (s : Vlapic) (e : Event) : SameLvts s (s.emit e) := ⟨rfl, rfl, rfl, rfl⟩

theorem setIrr (s : Vlapic) (v : Nat) : SameLvts s (setIrr s v).1 := by
  unfold Lapic.setIrr
  split
  · exact rfl' s
  · exact ⟨rfl, rfl, rfl, rfl⟩

theorem fireLvtWith {setError : Vlapic → Nat → Vlapic} (he : ∀ s m, SameLvts s (setError s m)) (s : Vlapic) (lvt : Nat) :
    SameLvts s (fireLvtWith setError s lvt).1 := by
  unfold Lapic.fireLvtWith
  dsimp only
  split
  · exact rfl' s
  split
  · split
    · exact he _ _
    · have hirr := setIrr s (lvt &&& lvtVectorMask)
      split
      · exact hirr.trans (emit _ _)
      · exact hirr
  split
  · exact emit _ _
  split
  · exact emit _ _
  · exact rfl' s

theorem setError (s : Vlapic) (mask : Nat) : SameLvts s (vlapicSetError s mask) := by
  unfold vlapicSetError
  dsimp only
  split
  · exact ⟨rfl, rfl, rfl, rfl⟩
  · have hnested : ∀ (s : Vlapic) (m : Nat), SameLvts s { s with esrPending := s.esrPending ||| m } :=
      fun _ _ => ⟨rfl, rfl, rfl, rfl⟩
    have hset : SameLvts s { s with esrPending := s.esrPending ||| mask, esrFiring := true } := ⟨rfl, rfl, rfl, rfl⟩
    exact (hset.trans (fireLvtWith hnested _ _)).trans ⟨rfl, rfl, rfl, rfl⟩

theorem fireLvt (s : Vlapic) (lvt : Nat) : SameLvts s (vlapicFireLvt s lvt).1 := fireLvtWith setError s lvt

theorem setIntrReady (s : Vlapic) (v : Nat) (level : Bool) : SameLvts s (vlapicSetIntrReady s v level).1 := by
  unfold vlapicSetIntrReady
  split
  · exact rfl' s
  split
  · exact setError _ _
  · exact setIrr _ _

theorem triggerLvt (s : Vlapic) (vector : Int) : SameLvts s ((vlapicTriggerLvt s vector).getD s) := by
  unfold vlapicTriggerLvt
  split
  · split
    · exact emit _ _
    · exact emit _ _
    · exact rfl' s
  · split
    · exact fireLvt _ _
    · exact rfl' s

theorem receive (vcpuid : Nat) (s : Vlapic) (call : Call) : SameLvts s (receive vcpuid s call) := by
  cases call with
  | lapicSetIntr cpu vector level =>
    unfold LapicMasks.receive
    dsimp only
    split
    · have hset := setIntrReady s vector.toNat level
      split
      · exact hset.trans (emit _ _)
      · exact hset
    · exact rfl' s
  | injectNmi v =>
    unfold LapicMasks.receive
    dsimp only
    split
    · exact emit _ _
    · exact rfl' s
  | injectExtint v =>
    unfold LapicMasks.receive
    dsimp only
    split
    · exact emit _ _
    · exact rfl' s
  | setError v =>
    unfold LapicMasks.receive
    dsimp only
    split
    · exact setError _ _
    · exact rfl' s

theorem receive_foldl (vcpuid : Nat) (calls : List Call) (s : Vlapic) :
    SameLvts s (calls.foldl (LapicMasks.receive vcpuid) s) := by
  induction calls generalizing s with
  | nil => exact rfl' s
  | cons call calls ih => exact (receive vcpuid s call).trans (ih _)

theorem updatePpr {s t : Vlapic} (h : vlapicUpdatePpr s = .ok t) : SameLvts s t := by
  unfold vlapicUpdatePpr at h
  dsimp only at h
  split_ifs at h
  cases h
  exact ⟨rfl, rfl, rfl, rfl⟩

theorem setTpr {s t : Vlapic} {val : Nat} (h : vlapicSetTpr s val = .ok t) : SameLvts s t := by
  unfold vlapicSetTpr at h
  split at h
  · have hset : SameLvts s { s with tpr := val } := ⟨rfl, rfl, rfl, rfl⟩
    exact hset.trans (updatePpr h)
  · cases h
    exact rfl' s

theorem setCr8 {s t : Vlapic} {val : Nat} (h : vlapicSetCr8 s val = .ok t) : SameLvts s t := by
  unfold vlapicSetCr8 at h
  split at h
  · cases h
    exact emit _ _
  · exact setTpr h

theorem processEoi {s t : Vlapic} (h : vlapicProcessEoi s = .ok t) : SameLvts s t := by
  unfold vlapicProcessEoi at h
  split at h
  · cases h
    exact emit _ _
  · split at h
    · cases h
    · rename_i vector _ _
      obtain ⟨u, hu, rfl⟩ := map_ok h
      have hpop : SameLvts s { s with isr := s.isr.clear vector, isrvecStkTop := s.isrvecStkTop - 1 } := ⟨rfl, rfl, rfl, rfl⟩
      have hupd := hpop.trans (updatePpr hu)
      split
      · exact hupd.trans (emit _ _)
      · exact hupd

theorem intrAccepted {s t : Vlapic} {vector : Nat} (h : vlapicIntrAccepted s vector = .ok t) : SameLvts s t := by
  unfold vlapicIntrAccepted at h
  dsimp only at h
  split at h
  · cases h
  · have hpushed : SameLvts s { s with
        irr := s.irr.clear vector
        isr := s.isr.set vector
        isrvecStkTop := s.isrvecStkTop + 1
        isrvecStk := Function.update s.isrvecStk (s.isrvecStkTop + 1) (vector % 256) } := ⟨rfl, rfl, rfl, rfl⟩
    exact hpushed.trans (updatePpr h)

theorem resetTmr (s : Vlapic) : SameLvts s (vlapicResetTmr s) := by
  unfold vlapicResetTmr
  induction List.range 256 generalizing s with
  | nil => exact rfl' s
  | cons v l ih =>
    have hset : SameLvts s (vlapicSetTmr s v false) := ⟨rfl, rfl, rfl, rfl⟩
    exact hset.trans (ih _)

end SameLvts

/-! ## The handlers of the table -/

theorem and_lvtM_ne_zero {x : Nat} : x &&& lvtM ≠ 0 ↔ x.testBit 16 = true := by
  rw [ne_eq, show lvtM = 2 ^ 16 from rfl, and_two_pow_eq_zero, Bool.not_eq_false]

theorem lvtWriteMask_m (i : Lvt) : (lvtWriteMask i).testBit 16 = true := by cases i <;> decide

theorem shut_of_or {x : Nat} (i : Lvt) : (x ||| lvtM) &&& lvtWriteMask i &&& lvtM ≠ 0 := by
  have hm : lvtM.testBit 16 = true := by decide
  rw [and_lvtM_ne_zero, Nat.testBit_and, Nat.testBit_or, hm, lvtWriteMask_m, Bool.or_true, Bool.and_self]

theorem stored_handler (s : Vlapic) (i : Lvt) : Stored (vlapicLvtWriteHandler s i) i where
  copy := by simp [vlapicLvtWriteHandler]
  fields := by simp [vlapicLvtWriteHandler, Nat.and_assoc]

/-- The other entries are untouched. -/
theorem handler_other (s : Vlapic) {i j : Lvt} (hne : j ≠ i) :
    (vlapicLvtWriteHandler s i).lvt j = s.lvt j ∧ (vlapicLvtWriteHandler s i).lvtLast j = s.lvtLast j := by
  simp [vlapicLvtWriteHandler, hne]

theorem stored_handler_other {s : Vlapic} {i j : Lvt} (hne : j ≠ i) (hs : Stored s j) :
    Stored (vlapicLvtWriteHandler s i) j where
  copy := by rw [(handler_other s hne).1, (handler_other s hne).2, hs.copy]
  fields := by rw [(handler_other s hne).1, hs.fields]

/-- A write to an entry while the APIC is disabled leaves it shut. -/
theorem shut_handler {s : Vlapic} (hsvr : s.svr &&& svrEnable = 0) (i : Lvt) : Shut (vlapicLvtWriteHandler s i) i := by
  unfold Shut vlapicLvtWriteHandler
  rw [if_pos hsvr]
  simpa using shut_of_or i

/-- A guest's write to one entry. -/
theorem masked_lvtWrite {s : Vlapic} (hm : Masked s) (i : Lvt) (data : Nat) :
    Masked (vlapicLvtWriteHandler { s with lvt := Function.update s.lvt i data } i) := by
  have hother : ∀ j, j ≠ i → (vlapicLvtWriteHandler { s with lvt := Function.update s.lvt i data } i).lvt j = s.lvt j := by
    intro j hne
    rw [(handler_other _ hne).1]
    simp [hne]
  refine ⟨fun j => ?_, fun hsvr j => ?_, hm.last⟩
  · by_cases hj : j = i
    · subst hj
      exact stored_handler _ j
    · exact stored_handler_other hj ⟨by simp [hj, (hm.stored j).copy], by simp [hj, (hm.stored j).fields]⟩
  · by_cases hj : j = i
    · subst hj
      exact shut_handler (s := { s with lvt := Function.update s.lvt j data }) hsvr j
    · unfold Shut
      rw [hother j hj]
      exact hm.shut hsvr j

theorem maskLvt_self (s : Vlapic) (i : Lvt) : Stored (maskLvt s i) i ∧ Shut (maskLvt s i) i := by
  refine ⟨stored_handler _ i, ?_⟩
  unfold Shut maskLvt vlapicLvtWriteHandler
  by_cases hsvr : s.svr &&& svrEnable = 0
  · simpa [hsvr] using shut_of_or i
  · simpa [hsvr] using shut_of_or i

theorem maskLvt_other {s : Vlapic} {i j : Lvt} (hne : j ≠ i) (h : Stored s j ∧ Shut s j) :
    Stored (maskLvt s i) j ∧ Shut (maskLvt s i) j := by
  refine ⟨stored_handler_other hne ⟨by simp [hne, h.1.copy], by simp [hne, h.1.fields]⟩, ?_⟩
  have hshut : s.lvt j &&& lvtM ≠ 0 := h.2
  unfold Shut maskLvt
  rw [(handler_other _ hne).1]
  simpa [hne] using hshut

/-- By induction on the entries masked: these and what was shut before. -/
theorem maskLvt_foldl (l : List Lvt) (s : Vlapic) {j : Lvt} (hj : j ∈ l ∨ Stored s j ∧ Shut s j) :
    Stored (l.foldl maskLvt s) j ∧ Shut (l.foldl maskLvt s) j := by
  induction l generalizing s with
  | nil => exact hj.resolve_left List.not_mem_nil
  | cons i l ih =>
    refine ih (maskLvt s i) ?_
    by_cases hne : j = i
    · subst hne
      exact .inr (maskLvt_self s j)
    · rcases hj with hmem | hshut
      · exact .inl ((List.mem_cons.mp hmem).resolve_left hne)
      · exact .inr (maskLvt_other hne hshut)

/-- All seven entries are masked, whatever they held. -/
theorem maskLvts_shut (s : Vlapic) (j : Lvt) : Stored (vlapicMaskLvts s) j ∧ Shut (vlapicMaskLvts s) j :=
  maskLvt_foldl _ s (.inl (by cases j <;> decide))

theorem maskLvt_foldl_svr (l : List Lvt) (s : Vlapic) :
    (l.foldl maskLvt s).svr = s.svr ∧ (l.foldl maskLvt s).svrLast = s.svrLast := by
  induction l generalizing s with
  | nil => exact ⟨rfl, rfl⟩
  | cons i l ih => exact ih (maskLvt s i)

theorem maskLvts_svr (s : Vlapic) : (vlapicMaskLvts s).svr = s.svr ∧ (vlapicMaskLvts s).svrLast = s.svrLast :=
  maskLvt_foldl_svr _ s

theorem masked_of_shut {s : Vlapic} (h : ∀ i, Stored s i ∧ Shut s i) : Masked { s with svrLast := s.svr } where
  stored i := ⟨(h i).1.copy, (h i).1.fields⟩
  shut _ i := (h i).2
  last := rfl

theorem masked_reset (s : Vlapic) : Masked (vlapicReset s) := by
  unfold vlapicReset
  refine masked_of_shut fun i => ?_
  have hsame := fun s => SameLvts.resetTmr (vlapicMaskLvts s)
  refine ⟨(hsame _).stored (maskLvts_shut _ i).1, ?_⟩
  unfold Shut
  rw [(hsame _).lvt]
  exact (maskLvts_shut _ i).2

/-- The enable bit changes only between different values. -/
theorem enable_of_unchanged {old new : Nat} (h : (old ^^^ new) &&& svrEnable = 0) : old &&& svrEnable = new &&& svrEnable := by
  have hbit := (and_two_pow_eq_zero (old ^^^ new) 8).mp h
  rw [Nat.testBit_xor] at hbit
  refine Nat.eq_of_testBit_eq fun j => ?_
  rw [Nat.testBit_and, Nat.testBit_and, show svrEnable = 2 ^ 8 from rfl, Nat.testBit_two_pow]
  by_cases hj : 8 = j
  · subst hj
    simpa using hbit
  · simp [hj]

/-- A guest's write to the spurious vector register. -/
theorem masked_svrWrite {s : Vlapic} (hm : Masked s) (data : Nat) :
    Masked (vlapicSvrWriteHandler { s with svr := data }) := by
  have hkept : ∀ i, Stored { s with svr := data, svrLast := data } i := fun i => ⟨(hm.stored i).copy, (hm.stored i).fields⟩
  unfold vlapicSvrWriteHandler
  dsimp only
  split
  · split
    · rename_i hsvr
      refine ⟨fun i => (maskLvts_shut _ i).1, fun _ i => (maskLvts_shut _ i).2, ?_⟩
      rw [(maskLvts_svr _).1, (maskLvts_svr _).2]
      rfl
    · rename_i hsvr
      split
      · exact ⟨fun i => ⟨(hkept i).copy, (hkept i).fields⟩, fun hoff => absurd hoff hsvr, rfl⟩
      · exact ⟨hkept, fun hoff => absurd hoff hsvr, rfl⟩
  · rename_i hsame
    have hold := enable_of_unchanged (not_not.mp hsame)
    refine ⟨hkept, fun hoff i => ?_, rfl⟩
    exact hm.shut (hm.last ▸ hold.trans hoff) i

/-! ## Every step -/

theorem masked_writeRegister {vcpuid data : Nat} {o : Others} {c d : Chip} (hm : Masked c.lapic) {r : Register}
    (h : writeRegister vcpuid o c data r = .ok d) : Masked d.lapic := by
  cases r with
  | id | timerDcr | ldr | dfr | icrHi =>
    cases h
    exact hm
  | tpr =>
    obtain ⟨t, ht, rfl⟩ := map_ok h
    exact (SameLvts.setTpr ht).masked hm
  | eoi =>
    obtain ⟨t, ht, rfl⟩ := map_ok h
    exact (SameLvts.processEoi ht).masked hm
  | svr =>
    cases h
    exact masked_svrWrite hm _
  | icrLow =>
    cases h
    refine (SameLvts.receive_foldl vcpuid _ _).masked ?_
    dsimp only
    split
    · exact hm
    · exact hm
  | lvt i =>
    cases h
    exact masked_lvtWrite hm i _
  | timerIcr =>
    cases h
    exact (SameLvts.emit _ _).masked hm
  | esr =>
    cases h
    have hsame : SameLvts c.lapic (vlapicEsrWriteHandler c.lapic) := ⟨rfl, rfl, rfl, rfl⟩
    exact hsame.masked hm
  | selfIpi =>
    simp only [writeRegister] at h
    split at h
    · obtain rfl := Except.ok.inj h
      exact (SameLvts.receive vcpuid c.lapic (.lapicSetIntr vcpuid (BitVec.ofNat 32 (data &&& 0xff)) false)).masked hm
    · cases h
      exact hm

theorem masked_write {vcpuid offset data : Nat} {o : Others} {c d : Chip} {mmioAccess : Bool} (hm : Masked c.lapic)
    (h : vlapicWrite vcpuid o c mmioAccess offset data = .ok d) : Masked d.lapic := by
  unfold vlapicWrite at h
  split at h
  · cases h
  split at h
  · cases h
    exact hm
  split at h
  · cases h
    exact hm
  split at h
  · cases h
    exact hm
  split at h
  · exact masked_writeRegister hm h
  · cases h
    exact hm

theorem masked_apply {vcpuid : Nat} {c d : Chip} {op : Op} (hm : Masked c.lapic) (h : apply vcpuid c op = .ok d) :
    Masked d.lapic := by
  cases op with
  | write o mmioAccess offset data => exact masked_write hm h
  | reset =>
    rw [← Except.ok.inj h]
    exact masked_reset c.lapic
  | setX2apicState x2apic =>
    cases h
    exact hm
  | triggerLvt vector =>
    cases h
    exact (SameLvts.triggerLvt _ _).masked hm
  | fireTimer | fireCmci =>
    cases h
    exact (SameLvts.fireLvt _ _).masked hm
  | setError mask =>
    cases h
    exact (SameLvts.setError _ _).masked hm
  | receive call =>
    cases h
    exact (SameLvts.receive vcpuid _ _).masked hm
  | setTmr vector level =>
    cases h
    have hsame : SameLvts c.lapic (vlapicSetTmr c.lapic vector level) := ⟨rfl, rfl, rfl, rfl⟩
    exact hsame.masked hm
  | setCr8 val =>
    obtain ⟨t, ht, rfl⟩ := map_ok h
    exact (SameLvts.setCr8 ht).masked hm
  | intrAccepted vector =>
    obtain ⟨t, ht, rfl⟩ := map_ok h
    exact (SameLvts.intrAccepted ht).masked hm

theorem masked_inductive (vcpuid : Nat) : (system vcpuid).Inductive fun c => Masked c.lapic := by
  constructor
  · rintro _ rfl
    exact masked_reset bzero
  · intro c op d hm hstep
    have h : next vcpuid c op = some d := hstep
    unfold next at h
    cases ha : apply vcpuid c op with
    | error e =>
      rw [ha] at h
      cases h
    | ok e =>
      rw [ha] at h
      cases h
      exact masked_apply hm ha

/-! ## No interrupt through a masked entry -/

theorem fireLvt_shut (s : Vlapic) {lvt : Nat} (h : lvt &&& lvtM ≠ 0) : vlapicFireLvt s lvt = (s, false) := by
  unfold vlapicFireLvt fireLvtWith
  rw [if_pos h]

theorem Masked.fire {s : Vlapic} (hm : Masked s) (hoff : s.svr &&& svrEnable = 0) (i : Lvt) :
    vlapicFireLvt s (triggerLvt s i) = (s, false) := by
  have hshut : s.lvtLast i &&& lvtM ≠ 0 := by
    rw [(hm.stored i).copy]
    exact hm.shut hoff i
  refine fireLvt_shut s ?_
  cases i with
  | timer | error => simpa [triggerLvt, lvtDmFixed] using hshut
  | lint0 | lint1 | pmc | thermal | cmci => exact hshut

theorem Masked.fireTimer {s : Vlapic} (hm : Masked s) (hoff : s.svr &&& svrEnable = 0) : vlapicFireTimer s = s :=
  congrArg Prod.fst (hm.fire hoff .timer)

theorem Masked.fireCmci {s : Vlapic} (hm : Masked s) (hoff : s.svr &&& svrEnable = 0) : vlapicFireCmci s = s :=
  congrArg Prod.fst (hm.fire hoff .cmci)

/-- An error is only recorded. -/
theorem Masked.setError {s : Vlapic} (hm : Masked s) (hoff : s.svr &&& svrEnable = 0) (mask : Nat) :
    (vlapicSetError s mask).irr = s.irr ∧ (vlapicSetError s mask).trace = s.trace := by
  have hshut : (s.lvtLast .error ||| lvtDmFixed) &&& lvtM ≠ 0 := by
    rw [(hm.stored .error).copy, show lvtDmFixed = 0 from rfl, Nat.or_zero]
    exact hm.shut hoff .error
  unfold vlapicSetError
  dsimp only
  split
  · exact ⟨rfl, rfl⟩
  · unfold fireLvtWith
    rw [if_pos hshut]
    exact ⟨rfl, rfl⟩

/-- While the APIC is disabled a trigger reaches the processor from a LINT pin only, past its entry. -/
theorem triggerLvt_disabled {s : Vlapic} (hoff : s.svr &&& svrEnable = 0) (vector : Int) :
    vlapicTriggerLvt s vector = some (
      if vector = 0 then s.emit .injectExtint else if vector = 1 then s.emit .injectNmi else s) := by
  have hdisabled : vlapicEnabled s = false := by simp [vlapicEnabled, hoff]
  unfold vlapicTriggerLvt
  rw [if_pos hdisabled]
  by_cases hzero : vector = 0
  · subst hzero
    rfl
  by_cases hone : vector = 1
  · subst hone
    rfl
  rw [if_neg hzero, if_neg hone]
  have hidx : lvtOfIdx vector ≠ some .lint0 ∧ lvtOfIdx vector ≠ some .lint1 := by
    unfold lvtOfIdx
    split <;> simp_all
  split
  · exact absurd ‹_› hidx.1
  · exact absurd ‹_› hidx.2
  · rfl

/-- Whatever the guest writes and whatever else reaches its local APIC, `lvt_last` is the local vector table, and of an entry
only the bits of its mask can be set: the fields software may write, and the status fields of that entry. While the APIC is
disabled every entry is masked, and no interrupt is delivered through one. Only the LINT pins still reach the processor, as
INTR and NMI. -/
theorem lvts_masked_while_disabled (vcpuid : Nat) {c : Chip} (hr : (system vcpuid).Reachable c) :
    (∀ i, c.lapic.lvtLast i = c.lapic.lvt i) ∧
    (∀ i, c.lapic.lvt i &&& (lvtWritable i ||| lvtStatus i) = c.lapic.lvt i) ∧
    (c.lapic.svr &&& svrEnable = 0 →
      (∀ i, c.lapic.lvt i &&& lvtM ≠ 0) ∧
      (∀ i, vlapicFireLvt c.lapic (triggerLvt c.lapic i) = (c.lapic, false)) ∧
      vlapicFireTimer c.lapic = c.lapic ∧ vlapicFireCmci c.lapic = c.lapic ∧
      (∀ mask, (vlapicSetError c.lapic mask).irr = c.lapic.irr ∧ (vlapicSetError c.lapic mask).trace = c.lapic.trace) ∧
      ∀ vector, vlapicTriggerLvt c.lapic vector = some (
        if vector = 0 then c.lapic.emit .injectExtint
        else if vector = 1 then c.lapic.emit .injectNmi
        else c.lapic)) := by
  have hm := (masked_inductive vcpuid).reachable hr
  refine ⟨fun i => (hm.stored i).copy, fun i => ?_, fun hoff => ⟨hm.shut hoff, hm.fire hoff, hm.fireTimer hoff,
    hm.fireCmci hoff, hm.setError hoff, fun vector => ?_⟩⟩
  · rw [← lvtWriteMask_eq]
    exact (hm.stored i).fields
  · exact triggerLvt_disabled hoff vector

/-- Enabled, the timer's entry written, disabled. -/
def disableRun : List Op :=
  let o : Others := ⟨1, fun _ => vlapicSetX2apicState 0 false⟩
  [.write o true 0xf0 0x1ff, .write o true 0x320 0x20031, .write o true 0xf0 0xff]

theorem lvts_masked_after_disable : ∃ c, (system 0).Reachable c ∧ c.lapic.lvt .timer = 0x30031 ∧
    c.lapic.lvtLast .timer = c.lapic.lvt .timer ∧ vlapicFireTimer c.lapic = c.lapic := by
  have hrun : (System.exec (next 0) (initChip 0) disableRun).map (fun c => (c.lapic.lvt .timer, c.lapic.svr)) =
      some (0x30031, 0xff) := by decide +kernel
  obtain ⟨c, hc, he⟩ := Option.map_eq_some_iff.mp hrun
  have hr : (system 0).Reachable c := System.exec_reachable (.init rfl) hc
  have hsvr : c.lapic.svr = 0xff := congrArg Prod.snd he
  obtain ⟨hcopy, -, hoff⟩ := lvts_masked_while_disabled 0 hr
  obtain ⟨-, -, htimer, -⟩ := hoff (by rw [hsvr]; decide)
  exact ⟨c, hr, congrArg Prod.fst he, hcopy .timer, htimer⟩

/-- The delivery status, which only reports, is set by a write; and from the start, while the APIC is disabled, LINT0 is an
external interrupt. -/
theorem delivery_status_written : ∃ c, (system 0).Reachable c ∧
    c.lapic.lvt .timer &&& lvtWritable .timer ≠ c.lapic.lvt .timer ∧ c.lapic.svr &&& svrEnable = 0 ∧
    ∃ s, vlapicTriggerLvt c.lapic 0 = some s ∧ s.trace = .injectExtint :: c.lapic.trace := by
  let o : Others := ⟨1, fun _ => vlapicSetX2apicState 0 false⟩
  have hrun : (System.exec (next 0) (initChip 0) [.write o true 0x320 0x1031]).map
      (fun c => (c.lapic.lvt .timer, c.lapic.svr)) = some (0x11031, 0xff) := by decide +kernel
  obtain ⟨c, hc, he⟩ := Option.map_eq_some_iff.mp hrun
  have hr : (system 0).Reachable c := System.exec_reachable (.init rfl) hc
  have hlvt : c.lapic.lvt .timer = 0x11031 := congrArg Prod.fst he
  have hsvr : c.lapic.svr = 0xff := congrArg Prod.snd he
  have hoff : c.lapic.svr &&& svrEnable = 0 := by rw [hsvr]; decide
  refine ⟨c, hr, ?_, hoff, c.lapic.emit .injectExtint, triggerLvt_disabled hoff 0, rfl⟩
  rw [hlvt]
  decide

end Xhyve.Vmm.LapicMasks
